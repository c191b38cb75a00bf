import HttpExchange.Proofs.Head.Form

/-!
# What a byte does

A byte that is taken is passed over, goes into the token, ends it, or leads from line to line.
Whatever reading preserves is shown from what it does, and not from the phases one by one.

* `Reader.Accepts`, `accepts` — what a byte does, and that it does nothing else;
* `Reader.Gathers`, `Accepts.gathers` — which bytes a token is made of, kept by every byte.
-/

namespace HttpExchange.Head

/-- The bytes with which the token of a phase goes on. -/
def Phase.admits : Phase → UInt8 → Bool
  | method, b | fieldName, b => isTokenByte b
  | target, b => isTargetByte b
  | version, b => !isLineEnd b
  | value, b => isValueByte b
  | _, _ => false

namespace Reader

/-- The text of the last line of a value, without the padding at its end. -/
def lineText (r : Reader) : String := Utf8.decode (r.token.dropWhile Blank.isPadding).reverse

/-- The value of a field after its last line. -/
def endedValue (r : Reader) (value : String) : String :=
  if r.folding then folded value r.lineText else r.lineText

/-- What a byte that is taken makes of a reader and its draft. -/
inductive Accepts (r : Reader) (d : Draft) (b : UInt8) : Reader → Draft → Prop
  /-- It is passed over. -/
  | skipped (phase : (r.phase = .start ∧ isLineEnd b = true) ∨
      (r.phase = .valueStart ∧ Blank.isPadding b = true) ∨ r.phase = .done) : Accepts r d b r d
  | methodBegun (phase : r.phase = .start) (token : isTokenByte b = true) :
      Accepts r d b ((r.push b).goto .method) d
  | nameBegun (phase : r.phase = .lineStart) (token : isTokenByte b = true) :
      Accepts r d b ((r.push b).goto .fieldName) d
  | valueBegun (phase : r.phase = .valueStart) (padding : Blank.isPadding b = false)
      (plain : isValueByte b = true) : Accepts r d b ((r.push b).goto .value) d
  /-- The token goes on with it. -/
  | gathered (admitted : r.phase.admits b = true)
      (short : r.phase = .version → r.token.length < 8) : Accepts r d b (r.push b) d
  | methodEnded {method : Method} (phase : r.phase = .method) (space : b = 0x20)
      (known : Method.ofName? r.tokenText = some method) :
      Accepts r d b (r.take .target) { d with method }
  | targetEnded (phase : r.phase = .target) (space : b = 0x20) (nonempty : r.token ≠ []) :
      Accepts r d b (r.take .version) { d with target := r.tokenText }
  | versionEnded (phase : r.phase = .version) (lineEnd : isLineEnd b = true)
      (form : isHttpVersion r.token.reverse = true) :
      Accepts r d b (r.take (if b = cr then .requestLineEnd else .lineStart))
        { d with version := r.tokenText }
  | nameEnded (phase : r.phase = .fieldName) (colon : b = 0x3A) :
      Accepts r d b (r.take .valueStart) { d with fields := ⟨r.tokenText, ""⟩ :: d.fields }
  | valueEnded {field : Header} {older : Headers} (phase : r.phase = .valueStart ∨ r.phase = .value)
      (lineEnd : isLineEnd b = true) (fields : d.fields = field :: older) :
      Accepts r d b { r.take (if b = cr then .fieldLineEnd else .lineStart) with folding := false }
        { d with fields := { field with value := r.endedValue field.value } :: older }
  /-- The value of the field in front goes on. -/
  | continued (phase : r.phase = .lineStart) (padding : Blank.isPadding b = true)
      (nonempty : d.fields ≠ []) :
      Accepts r d b { r.goto .valueStart with folding := true } d
  | lineBegun (phase : r.phase = .requestLineEnd ∨ r.phase = .fieldLineEnd) (lineEnd : b = lf) :
      Accepts r d b (r.goto .lineStart) d
  /-- An empty line begins. -/
  | closed (phase : r.phase = .lineStart) (lineEnd : b = cr) : Accepts r d b (r.goto .closing) d
  | headEnded (phase : r.phase = .lineStart ∨ r.phase = .closing) (lineEnd : b = lf) :
      Accepts r d b (r.goto .done) d

variable {r s : Reader} {d e : Draft} {b : UInt8}

theorem accepts_finishValue (hphase : r.phase = .valueStart ∨ r.phase = .value)
    (hend : isLineEnd b = true) (h : r.finishValue d b = .ok (s, e)) : r.Accepts d b s e := by
  rw [finishValue] at h
  split at h
  · cases h
  · next field older hfields =>
    cases h
    exact .valueEnded hphase hend hfields

theorem isTargetByte_of_not_isControl (hspace : b ≠ 0x20) (hcontrol : ¬isControl b = true) :
    isTargetByte b = true := by
  rw [isTargetByte, bne_iff_ne.2 hspace, Bool.true_and, Bool.not_eq_true']
  exact Bool.eq_false_iff.2 hcontrol

theorem isValueByte_of_not_isControl (h : ¬isControl b = true) : isValueByte b = true := by
  rw [isValueByte, Bool.eq_false_iff.2 h, Bool.not_false, Bool.or_true]

/-- **A byte that is taken does one of these things.** -/
theorem accepts (h : r.accept d b = .ok (s, e)) : r.Accepts d b s e := by
  have hgathered {phase : Phase} (hphase : r.phase = phase) (hversion : phase ≠ .version)
      (hadmitted : phase.admits b = true) : r.Accepts d b (r.push b) d :=
    .gathered (hphase ▸ hadmitted) fun heq => absurd (hphase.symm.trans heq) hversion
  cases hphase : r.phase with
  | start =>
    simp only [accept, hphase] at h
    split at h
    · next hend =>
      cases h
      exact .skipped (.inl ⟨hphase, hend⟩)
    · split at h
      · next htoken =>
        cases h
        exact .methodBegun hphase htoken
      · cases h
  | method =>
    simp only [accept, hphase] at h
    split at h
    · next hspace =>
      split at h
      · next hknown =>
        cases h
        exact .methodEnded hphase hspace hknown
      · cases h
    · split at h
      · next htoken =>
        cases h
        exact hgathered hphase Phase.noConfusion htoken
      · cases h
  | target =>
    simp only [accept, hphase] at h
    split at h
    · next hspace =>
      split at h
      · cases h
      · next hempty =>
        cases h
        exact .targetEnded hphase hspace fun hnil => hempty (List.isEmpty_iff.2 hnil)
    · next hspace =>
      split at h
      · cases h
      · split at h
        · cases h
        · next hcontrol =>
          cases h
          exact hgathered hphase Phase.noConfusion (isTargetByte_of_not_isControl hspace hcontrol)
  | version =>
    simp only [accept, hphase] at h
    split at h
    · next hend =>
      split at h
      · next hform =>
        cases h
        exact .versionEnded hphase hend hform
      · cases h
    · next hend =>
      split at h
      · cases h
      · next hshort =>
        cases h
        refine .gathered ?_ fun _ => Nat.lt_of_not_le hshort
        rw [hphase, Phase.admits, Bool.eq_false_iff.2 hend]
        rfl
  | requestLineEnd =>
    simp only [accept, hphase] at h
    split at h
    · next hend =>
      cases h
      exact .lineBegun (.inl hphase) hend
    · cases h
  | lineStart =>
    simp only [accept, hphase] at h
    split at h
    · next hend =>
      cases h
      exact .closed hphase hend
    · split at h
      · next hend =>
        cases h
        exact .headEnded (.inl hphase) hend
      · split at h
        · next hpadding =>
          split at h
          · cases h
          · next hempty =>
            cases h
            exact .continued hphase hpadding fun hnil => hempty (List.isEmpty_iff.2 hnil)
        · split at h
          · next htoken =>
            cases h
            exact .nameBegun hphase htoken
          · cases h
  | fieldName =>
    simp only [accept, hphase] at h
    split at h
    · next hcolon =>
      cases h
      exact .nameEnded hphase hcolon
    · split at h
      · next htoken =>
        cases h
        exact hgathered hphase Phase.noConfusion htoken
      · cases h
  | valueStart =>
    simp only [accept, hphase] at h
    split at h
    · next hpadding =>
      cases h
      exact .skipped (.inr (.inl ⟨hphase, hpadding⟩))
    · next hpadding =>
      split at h
      · next hend => exact accepts_finishValue (.inl hphase) hend h
      · split at h
        · cases h
        · next hcontrol =>
          cases h
          exact .valueBegun hphase (Bool.eq_false_iff.2 hpadding)
            (isValueByte_of_not_isControl hcontrol)
  | value =>
    have hvalue (hplain : isValueByte b = true) : r.Accepts d b (r.push b) d :=
      hgathered hphase Phase.noConfusion hplain
    simp only [accept, hphase] at h
    split at h
    · next hend => exact accepts_finishValue (.inr hphase) hend h
    · split at h
      · next htab =>
        cases h
        exact hvalue (by rw [htab]; rfl)
      · split at h
        · cases h
        · next hcontrol =>
          cases h
          exact hvalue (isValueByte_of_not_isControl hcontrol)
  | fieldLineEnd =>
    simp only [accept, hphase] at h
    split at h
    · next hend =>
      cases h
      exact .lineBegun (.inr hphase) hend
    · cases h
  | closing =>
    simp only [accept, hphase] at h
    split at h
    · next hend =>
      cases h
      exact .headEnded (.inr hphase) hend
    · cases h
  | done =>
    simp only [accept, hphase] at h
    cases h
    exact .skipped (.inr (.inr hphase))

/-! ### The bytes of a token -/

/-- The token is made of bytes of its phase.  Where a phase has none there is no token. -/
def Gathers (r : Reader) : Prop := ∀ b ∈ r.token, r.phase.admits b = true

theorem gathers_ofLimit (limit : Nat) : (ofLimit limit).Gathers :=
  fun _ hb => absurd hb List.not_mem_nil

theorem gathers_of_nil (h : r.token = []) : r.Gathers := by
  intro b hb
  rw [h] at hb
  exact absurd hb List.not_mem_nil

theorem Gathers.token_eq_nil (h : r.Gathers) {phase : Phase} (hphase : r.phase = phase)
    (hnone : ∀ b, phase.admits b = false) : r.token = [] := by
  refine List.eq_nil_iff_forall_not_mem.2 fun b hb => ?_
  have hadmitted := h b hb
  rw [hphase, hnone] at hadmitted
  cases hadmitted

theorem gathers_begun {phase : Phase} (hnone : r.token = []) (hb : phase.admits b = true) :
    ((r.push b).goto phase).Gathers := by
  show ∀ c ∈ b :: r.token, phase.admits c = true
  rw [hnone]
  exact List.forall_mem_singleton.2 hb

/-- **Every byte that is taken preserves it.** -/
theorem Accepts.gathers (h : r.Accepts d b s e) (hr : r.Gathers) : s.Gathers := by
  cases h with
  | skipped => exact hr
  | methodBegun hphase hb => exact gathers_begun (hr.token_eq_nil hphase fun _ => rfl) hb
  | nameBegun hphase hb => exact gathers_begun (hr.token_eq_nil hphase fun _ => rfl) hb
  | valueBegun hphase _ hb => exact gathers_begun (hr.token_eq_nil hphase fun _ => rfl) hb
  | gathered hadmitted => exact List.forall_mem_cons.2 ⟨hadmitted, hr⟩
  | methodEnded | targetEnded | versionEnded | nameEnded | valueEnded => exact gathers_of_nil rfl
  | continued hphase => exact gathers_of_nil (hr.token_eq_nil hphase fun _ => rfl)
  | closed hphase => exact gathers_of_nil (hr.token_eq_nil hphase fun _ => rfl)
  | lineBegun hphase =>
    rcases hphase with hphase | hphase
    all_goals exact gathers_of_nil (hr.token_eq_nil hphase fun _ => rfl)
  | headEnded hphase =>
    rcases hphase with hphase | hphase
    all_goals exact gathers_of_nil (hr.token_eq_nil hphase fun _ => rfl)

end Reader

end HttpExchange.Head
