import Mathlib.Data.List.TakeWhile
import HttpExchange.Outgoing
import HttpExchange.Proofs.Head.Writable

/-!
# URLs hold no control characters

Whatever text a URL is read from, no control character gets into its parts: blanks and line ends are
taken off before reading, a name with a forbidden character is refused, and everything else is
percent-encoded, by a set that holds the control characters.

* `IsPlain`, `Url.Plain` — texts and URLs without control characters;
* `Percent.isPlain_encodeText` — what is encoded is plain, whatever it was;
* `Url.Readable.plain` — every URL that is read is plain, by itself or against another;
* `Outgoing.isPlain_target`, `Outgoing.isPlain_authority` — so is what a request says of it.
-/

namespace HttpExchange

/-- A text without control characters. -/
def IsPlain (s : String) : Prop := ∀ c ∈ s.toList, ¬IsControl c

instance (s : String) : Decidable (IsPlain s) := List.decidableBAll (fun c => ¬IsControl c) s.toList

theorem isPlain_append {s t : String} (hs : IsPlain s) (ht : IsPlain t) : IsPlain (s ++ t) := by
  intro c hc
  rw [String.toList_append] at hc
  rcases List.mem_append.1 hc with h | h
  · exact hs c h
  · exact ht c h

theorem isPlain_ofList {cs : List Char} (h : ∀ c ∈ cs, ¬IsControl c) :
    IsPlain (String.ofList cs) := by
  intro c hc
  rw [String.toList_ofList] at hc
  exact h c hc

theorem isPlain_join {ss : List String} (h : ∀ s ∈ ss, IsPlain s) : IsPlain (String.join ss) := by
  intro c hc
  rw [String.toList_join] at hc
  obtain ⟨s, hs, hc⟩ := List.mem_flatMap.1 hc
  exact h s hs c hc

theorem isPlain_intercalate {sep : String} {ss : List String} (hsep : IsPlain sep)
    (h : ∀ s ∈ ss, IsPlain s) : IsPlain (sep.intercalate ss) := by
  induction ss with
  | nil => exact fun c hc => absurd hc (by simp)
  | cons s ss ih =>
    obtain ⟨hs, hss⟩ := List.forall_mem_cons.1 h
    cases ss with
    | nil =>
      rw [String.intercalate_singleton]
      exact hs
    | cons t ts =>
      rw [String.intercalate_cons_cons]
      exact isPlain_append (isPlain_append hs hsep) (ih hss)

/-! ### Numbers -/

theorem not_isControl_of_between {c : Char} (hlow : 0x20 ≤ c.toNat) (hhigh : c.toNat < 0x7F) :
    ¬IsControl c := by
  rintro (h | h) <;> omega

theorem isPlain_decimal (n : Nat) : IsPlain (Numeral.decimal n) := by
  intro c hc
  obtain ⟨hlow, hhigh⟩ := (Numeral.isDigit_iff c).1 (Numeral.isDigit_of_mem_decimal hc)
  exact not_isControl_of_between (by omega) (by omega)

theorem not_isControl_of_mem_toDigits {n : Nat} {c : Char} (h : c ∈ Nat.toDigits 16 n) :
    ¬IsControl c := by
  have hdigit : ∀ d < 16, ¬IsControl d.digitChar := by decide
  induction n using Nat.strong_induction_on with
  | _ n ih =>
    rw [Nat.toDigits_eq_if (by decide)] at h
    split at h
    · next hlt =>
      rw [List.mem_singleton.1 h]
      exact hdigit n hlt
    · next hge =>
      rcases List.mem_append.1 h with hmore | hlast
      · exact ih (n / 16) (by omega) hmore
      · rw [List.mem_singleton.1 hlast]
        exact hdigit (n % 16) (Nat.mod_lt _ (by decide))

/-! ### Percent encoding -/

namespace Percent

/-- The set of every part holds the control characters. -/
theorem controls_of_isControl {c : Char} (h : IsControl c) : controls c = true := by
  rw [controls, Bool.or_eq_true, decide_eq_true_eq, decide_eq_true_eq]
  rcases h with h | h <;> omega

theorem not_isControl_of_mem_encodeByte {b : UInt8} {c : Char} (h : c ∈ encodeByte b) :
    ¬IsControl c := by
  have hdigit : ∀ d < 16, ¬IsControl (hexDigit d) := by decide
  have hb := b.toNat_lt
  rw [encodeByte, List.mem_cons, List.mem_pair] at h
  rcases h with rfl | rfl | rfl
  · decide
  · exact hdigit _ (by omega)
  · exact hdigit _ (Nat.mod_lt _ (by decide))

/-- **What is encoded is plain**, whatever it was. -/
theorem isPlain_encodeText {set : Set} (hset : ∀ c, controls c = true → set c = true)
    (cs : List Char) : IsPlain (encodeText set cs) := by
  refine isPlain_ofList fun c hc => ?_
  rw [encode, List.mem_flatMap] at hc
  obtain ⟨d, -, hc⟩ := hc
  split at hc
  · obtain ⟨b, -, hc⟩ := List.mem_flatMap.1 hc
    exact not_isControl_of_mem_encodeByte hc
  · next hd =>
    intro hcontrol
    rw [List.mem_singleton.1 hc] at hcontrol
    exact hd (hset d (controls_of_isControl hcontrol))

theorem fragment_of_controls (c : Char) (h : controls c = true) : fragment c = true := by
  rw [fragment, h, Bool.true_or]

theorem path_of_controls (c : Char) (h : controls c = true) : path c = true := by
  rw [path, fragment_of_controls c h, Bool.true_or]

theorem userinfo_of_controls (c : Char) (h : controls c = true) : userinfo c = true := by
  rw [userinfo, path_of_controls c h, Bool.true_or]

theorem query_of_controls (c : Char) (h : controls c = true) : query c = true := by
  rw [query, h, Bool.true_or]

theorem specialQuery_of_controls (c : Char) (h : controls c = true) : specialQuery c = true := by
  rw [specialQuery, query_of_controls c h, Bool.true_or]

end Percent

/-! ### Hosts -/

namespace Host

theorem isPlain_piecesText (ps : List Nat) : IsPlain (piecesText ps) := by
  refine isPlain_intercalate (by decide) fun s hs => ?_
  obtain ⟨p, -, rfl⟩ := List.mem_map.1 hs
  exact isPlain_ofList fun c hc => not_isControl_of_mem_toDigits hc

/-- An address is written in digits and marks. -/
theorem isPlain_text_ipv4 (value : Nat) : IsPlain (ipv4 value).text := by
  refine isPlain_intercalate (by decide) fun s hs => ?_
  obtain ⟨unit, -, rfl⟩ := List.mem_map.1 hs
  exact isPlain_decimal _

theorem isPlain_text_ipv6 (ps : List Nat) : IsPlain (ipv6 ps).text := by
  have haddress : IsPlain (ipv6Text ps) := by
    rw [ipv6Text]
    dsimp only
    split
    · exact isPlain_piecesText ps
    · exact isPlain_append (isPlain_append (isPlain_piecesText _) (by decide))
        (isPlain_piecesText _)
  exact isPlain_append (isPlain_append (by decide) haddress) (by decide)

variable {cs : List Char} {h : Host}

theorem isPlain_of_ipv4? (hread : ipv4? cs = some h) : IsPlain h.text := by
  rw [ipv4?, Option.bind_eq_bind, Option.bind_eq_some_iff] at hread
  obtain ⟨numbers, -, hvalue⟩ := hread
  obtain ⟨value, -, rfl⟩ := Option.map_eq_some_iff.1 hvalue
  exact isPlain_text_ipv4 value

theorem isPlain_of_ipv6? (hread : ipv6? cs = some h) : IsPlain h.text := by
  rw [ipv6?] at hread
  repeat' split at hread
  all_goals first | (cases hread; exact isPlain_text_ipv6 _) | cases hread

theorem isPlain_of_bracketed? (hread : bracketed? cs = some (.ok h)) : IsPlain h.text := by
  rw [bracketed?.eq_def] at hread
  split at hread
  · have hresult := Option.some.inj hread
    split at hresult
    · next hsix =>
      obtain rfl := Except.ok.inj hresult
      exact isPlain_of_ipv6? hsix
    · cases hresult
  · cases hread

theorem isPlain_of_ofSpecial (hread : ofSpecial cs = .ok h) : IsPlain h.text := by
  rw [ofSpecial] at hread
  split at hread
  · next result hbracketed =>
    subst hread
    exact isPlain_of_bracketed? hbracketed
  · dsimp only at hread
    split at hread
    · cases hread
    · next hname =>
      split at hread
      · cases hread
      · split at hread
        · split at hread
          · next hfour =>
            obtain rfl := Except.ok.inj hread
            exact isPlain_of_ipv4? hfour
          · cases hread
        · obtain rfl := Except.ok.inj hread
          refine isPlain_ofList fun c hc hcontrol => hname (List.any_eq_true.2 ⟨c, hc, ?_⟩)
          rw [isForbiddenInName, Bool.or_eq_true, Bool.or_eq_true, decide_eq_true_eq,
            decide_eq_true_eq]
          rcases hcontrol with h | h <;> omega

theorem isPlain_of_ofOpaque (hread : ofOpaque cs = .ok h) : IsPlain h.text := by
  rw [ofOpaque] at hread
  split at hread
  · next result hbracketed =>
    subst hread
    exact isPlain_of_bracketed? hbracketed
  · split at hread
    · cases hread
    · obtain rfl := Except.ok.inj hread
      exact Percent.isPlain_encodeText (fun _ h => h) cs

end Host

/-! ### URLs -/

namespace Url

/-- A path without control characters. -/
def Path.Plain : Path → Prop
  | flat s => IsPlain s
  | segments names => ∀ s ∈ names, IsPlain s

theorem Path.isPlain_text {p : Path} (h : p.Plain) : IsPlain p.text := by
  cases p with
  | flat s => exact h
  | segments names =>
    refine isPlain_join fun s hs => ?_
    obtain ⟨name, hname, rfl⟩ := List.mem_map.1 hs
    exact isPlain_append (by decide) (h name hname)

/-- A URL without control characters in its parts. -/
structure Plain (u : Url) : Prop where
  scheme : IsPlain u.scheme
  username : IsPlain u.username
  password : IsPlain u.password
  host : ∀ h ∈ u.host, IsPlain h.text
  path : u.path.Plain
  query : ∀ q ∈ u.query, IsPlain q
  fragment : ∀ f ∈ u.fragment, IsPlain f

variable {u base : Url} {names : List String} {cs : List Char}

/-! #### Paths, queries and fragments -/

theorem Plain.withTail (h : u.Plain) (tail : List Char) : (u.withTail tail).Plain := by
  refine ⟨h.scheme, h.username, h.password, h.host, h.path, fun q hq => ?_, fun f hf => ?_⟩
  · rw [Url.withTail] at hq
    dsimp only at hq
    split at hq
    · obtain rfl := Option.some.inj hq
      split
      · exact Percent.isPlain_encodeText Percent.specialQuery_of_controls _
      · exact Percent.isPlain_encodeText Percent.query_of_controls _
    · cases hq
  · rw [Url.withTail] at hf
    dsimp only at hf
    split at hf
    · obtain rfl := Option.some.inj hf
      exact Percent.isPlain_encodeText Percent.fragment_of_controls _
    · cases hf

theorem isPlain_shortenBack (file : Bool) (h : ∀ s ∈ names, IsPlain s) :
    ∀ s ∈ shortenBack file names, IsPlain s := by
  intro s hs
  rw [shortenBack.eq_def] at hs
  split at hs
  · split at hs
    · exact h s hs
    · cases hs
  · exact h s (List.mem_of_mem_drop hs)

theorem isPlain_addSegment (file more : Bool) (segment : List Char) (h : ∀ s ∈ names, IsPlain s) :
    ∀ s ∈ addSegment file names more segment, IsPlain s := by
  have hsegment : IsPlain (Percent.encodeText Percent.path segment) :=
    Percent.isPlain_encodeText Percent.path_of_controls _
  have hempty : ∀ {ss : List String}, (∀ s ∈ ss, IsPlain s) → ∀ s ∈ "" :: ss, IsPlain s :=
    fun hss => List.forall_mem_cons.2 ⟨by decide, hss⟩
  rw [addSegment]
  dsimp only
  split
  · split
    · exact isPlain_shortenBack file h
    · exact hempty (isPlain_shortenBack file h)
  · split
    · split
      · exact h
      · exact hempty h
    · split
      · have hdrive : IsPlain (String.ofList
            ((Percent.encodeText Percent.path segment).toList.take 1)) :=
          isPlain_ofList fun c hc => hsegment c (List.mem_of_mem_take hc)
        exact List.forall_mem_singleton.2 (isPlain_append hdrive (by decide))
      · exact List.forall_mem_cons.2 ⟨hsegment, h⟩

theorem isPlain_addPath (special file : Bool) (segment cs : List Char)
    (h : ∀ s ∈ names, IsPlain s) : ∀ s ∈ addPath special file names segment cs, IsPlain s := by
  induction cs generalizing names segment with
  | nil => exact isPlain_addSegment file false segment.reverse h
  | cons c rest ih =>
    rw [addPath]
    split
    · exact ih [] (isPlain_addSegment file true segment.reverse h)
    · exact ih (c :: segment) h

theorem plain_pathFrom (scheme : String) (cs : List Char) (h : ∀ s ∈ names, IsPlain s) :
    (pathFrom scheme names cs).Plain := by
  have hall : ∀ s ∈ (addPath (isSpecial scheme) (scheme == "file") names.reverse [] cs).reverse,
      IsPlain s := by
    intro s hs
    refine isPlain_addPath _ _ [] cs (fun t ht => ?_) s (List.mem_reverse.1 hs)
    exact h t (List.mem_reverse.1 ht)
  rw [pathFrom]
  split
  · split
    · exact List.forall_mem_singleton.2 (by decide)
    · intro s hs
      exact hall s (List.dropWhile_subset _ hs)
  · exact hall

theorem Plain.withPathFrom (h : u.Plain) (hnames : ∀ s ∈ names, IsPlain s) (cs : List Char) :
    (u.withPathFrom names cs).Plain := by
  have hpath : { u with path := pathFrom u.scheme names (cs.span (!isPathEnd ·)).1 }.Plain :=
    ⟨h.scheme, h.username, h.password, h.host, plain_pathFrom _ _ hnames, h.query, h.fragment⟩
  exact hpath.withTail _

theorem Plain.withPathStart (h : u.Plain) (cs : List Char) : (u.withPathStart cs).Plain := by
  have hnone : ∀ s ∈ ([] : List String), IsPlain s := by simp
  rw [Url.withPathStart.eq_def]
  dsimp only
  split
  · split
    · exact h.withPathFrom hnone _
    · exact h
  · split
    · exact h.withPathFrom hnone _
    · split
      · exact h.withTail _
      · exact h.withPathFrom hnone _

theorem Plain.withFragmentOf (h : base.Plain) (cs : List Char) :
    (base.withFragmentOf cs).Plain := by
  refine ⟨h.scheme, h.username, h.password, h.host, h.path, h.query, fun f hf => ?_⟩
  obtain rfl := Option.some.inj hf
  exact Percent.isPlain_encodeText Percent.fragment_of_controls _

theorem Plain.withoutFragment (h : u.Plain) : u.withoutFragment.Plain := by
  have hnone : ∀ f ∈ (none : Option String), IsPlain f := by simp
  rw [Url.withoutFragment]
  split
  · next s hpath hquery =>
    refine ⟨h.scheme, h.username, h.password, h.host, isPlain_ofList fun c hc => ?_, h.query, hnone⟩
    have hs : IsPlain s := by
      have hplain := h.path
      rw [hpath] at hplain
      exact hplain
    exact hs c (List.mem_reverse.1 (List.dropWhile_subset _ (List.mem_reverse.1 hc)))
  · exact ⟨h.scheme, h.username, h.password, h.host, h.path, h.query, hnone⟩

theorem Plain.segmentsOf (h : base.Plain) : ∀ s ∈ base.segmentsOf, IsPlain s := by
  have hpath := h.path
  rw [Url.segmentsOf]
  split
  · next names hnames =>
    rw [hnames] at hpath
    exact hpath
  · simp

theorem Plain.shorten (h : base.Plain) (file : Bool) :
    ∀ s ∈ shorten file base.segmentsOf, IsPlain s := by
  intro s hs
  refine isPlain_shortenBack file (fun t ht => ?_) s (List.mem_reverse.1 hs)
  exact h.segmentsOf t (List.mem_reverse.1 ht)

/-! #### Authorities and references -/

theorem isPlain_of_readHostPort {scheme : String} {h : Host} {port : Option Nat}
    (hread : readHostPort scheme cs = .ok (h, port)) : IsPlain h.text := by
  simp only [readHostPort, bind, Except.bind, pure, Except.pure, throw, throwThe,
    MonadExceptOf.throw] at hread
  repeat' split at hread
  all_goals first
    | (cases hread; first
        | exact Host.isPlain_of_ofSpecial ‹_›
        | exact Host.isPlain_of_ofOpaque ‹_›)
    | cases hread

theorem isPlain_empty : IsPlain "" := by decide

theorem isPlain_of_mem_some {host : Host} (h : IsPlain host.text) :
    ∀ h' ∈ some host, IsPlain h'.text := by
  intro h' hh'
  obtain rfl := Option.some.inj hh'
  exact h

theorem plain_of_host {scheme username password : String} {host : Option Host} (port : Option Nat)
    (hscheme : IsPlain scheme) (husername : IsPlain username) (hpassword : IsPlain password)
    (hhost : ∀ h ∈ host, IsPlain h.text) :
    ({ scheme, username, password, host, port } : Url).Plain := by
  refine ⟨hscheme, husername, hpassword, hhost, ?_, ?_, ?_⟩
  · intro s hs
    cases hs
  · intro q hq
    cases hq
  · intro f hf
    cases hf

theorem plain_afterSlashes {scheme : String} (hscheme : IsPlain scheme)
    (hread : afterSlashes scheme cs = .ok u) : u.Plain := by
  simp only [afterSlashes, bind, Except.bind, pure, Except.pure, throw, throwThe,
    MonadExceptOf.throw] at hread
  repeat' split at hread
  all_goals cases hread
  · next v hv =>
    have hhost : IsPlain v.1.text := isPlain_of_readHostPort hv
    apply Plain.withPathStart
    exact plain_of_host v.2 hscheme isPlain_empty isPlain_empty (isPlain_of_mem_some hhost)
  · next v hv _ =>
    have hhost : IsPlain v.1.text := isPlain_of_readHostPort hv
    refine (plain_of_host v.2 hscheme ?_ ?_ (isPlain_of_mem_some hhost)).withPathStart _
    · exact Percent.isPlain_encodeText Percent.userinfo_of_controls _
    · exact Percent.isPlain_encodeText Percent.userinfo_of_controls _

theorem Plain.noFragment (h : u.Plain) : ({ u with fragment := none } : Url).Plain := by
  refine ⟨h.scheme, h.username, h.password, h.host, h.path, h.query, fun f hf => ?_⟩
  cases hf

theorem Plain.withHost (h : u.Plain) {host : Option Host} (hhost : ∀ h ∈ host, IsPlain h.text) :
    ({ u with host := host } : Url).Plain :=
  ⟨h.scheme, h.username, h.password, hhost, h.path, h.query, h.fragment⟩

theorem plain_relative (hbase : base.Plain) (hread : relative base cs = .ok u) : u.Plain := by
  have hnone : ∀ s ∈ ([] : List String), IsPlain s := by simp
  rw [relative.eq_def] at hread
  dsimp only at hread
  repeat' split at hread
  all_goals first
    | exact plain_afterSlashes hbase.scheme hread
    | obtain rfl := Except.ok.inj hread
  · exact hbase.noFragment
  · exact hbase.withTail _
  · exact hbase.withFragmentOf _
  · exact hbase.withPathFrom hnone _
  · exact hbase.withPathFrom hnone _
  · exact hbase.withPathFrom (hbase.shorten false) _

theorem plain_bare : ({ scheme := "file", host := some Host.empty } : Url).Plain := by
  refine plain_of_host none (by decide) isPlain_empty isPlain_empty ?_
  exact isPlain_of_mem_some isPlain_empty

theorem plain_fileHost (hread : fileHost cs = .ok u) : u.Plain := by
  have hnone : ∀ s ∈ ([] : List String), IsPlain s := by simp
  have hempty : ∀ h ∈ some Host.empty, IsPlain h.text := plain_bare.host
  have hhost : ∀ {host : Host}, IsPlain host.text → ∀ rest,
      (({ scheme := "file", host := some host } : Url).withPathStart rest).Plain := by
    intro host hplain rest
    exact (plain_bare.withHost (isPlain_of_mem_some hplain)).withPathStart rest
  simp only [fileHost, bind, Except.bind, pure, Except.pure] at hread
  repeat' split at hread
  all_goals cases hread
  · exact plain_bare.withPathFrom hnone _
  · exact plain_bare.withPathStart _
  · exact plain_bare.withPathStart _
  · exact (hhost (Host.isPlain_of_ofSpecial ‹_›) _).withHost hempty
  · exact hhost (Host.isPlain_of_ofSpecial ‹_›) _
  · exact hhost (Host.isPlain_of_ofSpecial ‹_›) _

theorem plain_fromRoot {bare : Url} {from? : Option Url} (hbare : bare.Plain)
    (hfrom : ∀ b ∈ from?, b.Plain) : (fileReference.fromRoot from? bare cs).Plain := by
  have hnone : ∀ s ∈ ([] : List String), IsPlain s := by simp
  rw [fileReference.fromRoot.eq_def]
  split
  · exact hbare.withPathFrom hnone _
  · next b =>
    have hb : b.Plain := hfrom b rfl
    split
    · exact hbare.withPathFrom hnone _
    · split
      · next first others hsegments =>
        have hfirst : IsPlain first := hb.segmentsOf first (hsegments ▸ List.mem_cons_self)
        split
        · exact hbare.withPathFrom (List.forall_mem_singleton.2 hfirst) _
        · exact (hbare.withHost hb.host).withPathFrom hnone _
      · exact (hbare.withHost hb.host).withPathFrom hnone _

theorem plain_fileReference {from? : Option Url} (hfrom : ∀ b ∈ from?, b.Plain)
    (hread : fileReference from? cs = .ok u) : u.Plain := by
  have hnone : ∀ s ∈ ([] : List String), IsPlain s := by simp
  rw [fileReference.eq_def] at hread
  dsimp only at hread
  repeat' split at hread
  all_goals first
    | exact plain_fileHost hread
    | obtain rfl := Except.ok.inj hread
  · exact plain_fromRoot plain_bare hfrom
  · exact plain_fromRoot plain_bare hfrom
  · exact plain_bare.withPathFrom hnone _
  · exact (hfrom _ rfl).withTail _
  · exact (hfrom _ rfl).withFragmentOf _
  · exact plain_bare.withPathFrom hnone _
  · exact (hfrom _ rfl).withPathFrom ((hfrom _ rfl).shorten true) _
  · exact plain_bare.withPathFrom hnone _
  · exact (hfrom _ rfl).noFragment

theorem plain_other {scheme : String} (hscheme : IsPlain scheme)
    (hread : other scheme cs = .ok u) : u.Plain := by
  have hnone : ∀ s ∈ ([] : List String), IsPlain s := by simp
  have hhost : ∀ h ∈ (none : Option Host), IsPlain h.text := by simp
  have hbare := plain_of_host none hscheme isPlain_empty isPlain_empty hhost
  rw [other.eq_def] at hread
  dsimp only at hread
  split at hread
  · exact plain_afterSlashes hscheme hread
  · obtain rfl := Except.ok.inj hread
    exact hbare.withPathFrom hnone _
  · obtain rfl := Except.ok.inj hread
    apply Plain.withTail
    refine ⟨hbare.scheme, hbare.username, hbare.password, hbare.host, ?_, hbare.query,
      hbare.fragment⟩
    exact Percent.isPlain_encodeText (fun _ h => h) _

theorem not_isControl_of_isSchemeChar {c : Char} (h : isSchemeChar c = true) : ¬IsControl c := by
  rw [isSchemeChar, isLetter] at h
  simp only [Bool.or_eq_true, Bool.and_eq_true, decide_eq_true_eq, beq_iff_eq, Char.le_def,
    UInt32.le_iff_toNat_le] at h
  rcases h with ((((⟨hlow, hhigh⟩ | ⟨hlow, hhigh⟩) | hdigit) | rfl) | rfl) | rfl
  · exact not_isControl_of_between (le_trans (by decide) hlow) (lt_of_le_of_lt hhigh (by decide))
  · exact not_isControl_of_between (le_trans (by decide) hlow) (lt_of_le_of_lt hhigh (by decide))
  · obtain ⟨hlow, hhigh⟩ := (Numeral.isDigit_iff c).1 hdigit
    exact not_isControl_of_between (by omega) (by omega)
  · decide
  · decide
  · decide

/-- A capital made small is a letter, and every other character stays. -/
theorem not_isControl_toLower {c : Char} (h : ¬IsControl c) : ¬IsControl c.toLower := by
  delta Char.toLower
  split
  · next hcapital =>
    obtain ⟨hlow, hhigh⟩ := hcapital
    have hval : (c.val + ('a'.val - 'A'.val)).toNat = c.val.toNat + 0x20 := by
      rw [UInt32.le_iff_toNat_le] at hhigh
      have hbound : c.val.toNat ≤ 0x5A := hhigh
      rw [UInt32.toNat_add]
      show (c.val.toNat + 0x20) % 2 ^ 32 = c.val.toNat + 0x20
      omega
    have hlow' : 0x41 ≤ c.val.toNat := UInt32.le_iff_toNat_le.1 hlow
    have hhigh' : c.val.toNat ≤ 0x5A := UInt32.le_iff_toNat_le.1 hhigh
    apply not_isControl_of_between
    · show 0x20 ≤ (c.val + ('a'.val - 'A'.val)).toNat
      omega
    · show (c.val + ('a'.val - 'A'.val)).toNat < 0x7F
      omega
  · exact h

theorem isPlain_scheme_of_cutScheme {scheme : String} {rest : List Char}
    (hcut : cutScheme cs = some (scheme, rest)) : IsPlain scheme := by
  rw [cutScheme.eq_def] at hcut
  split at hcut
  · cases hcut
  · split at hcut
    · split at hcut
      · cases hcut
        intro c hc
        rw [Ascii.lower, String.toList_ofList, List.mem_map] at hc
        obtain ⟨d, hd, rfl⟩ := hc
        rw [String.toList_ofList] at hd
        exact not_isControl_toLower (not_isControl_of_isSchemeChar (List.mem_takeWhile_imp hd))
      · cases hcut
    · cases hcut

theorem plain_withScheme {scheme : String} {from? : Option Url} (hscheme : IsPlain scheme)
    (hfrom : ∀ b ∈ from?, b.Plain) (hread : withScheme from? scheme cs = .ok u) : u.Plain := by
  rw [withScheme] at hread
  dsimp only at hread
  repeat' split at hread
  · refine plain_fileReference (fun b hb => hfrom b ?_) hread
    exact (Option.filter_eq_some_iff.1 hb).1
  · exact plain_relative (hfrom _ rfl) hread
  · exact plain_afterSlashes hscheme hread
  · exact plain_afterSlashes hscheme hread
  · exact plain_other hscheme hread

theorem plain_of_read {from? : Option Url} {s : String} (hfrom : ∀ b ∈ from?, b.Plain)
    (hread : read from? s = .ok u) : u.Plain := by
  rw [read.eq_def] at hread
  dsimp only at hread
  repeat' split at hread
  · exact plain_withScheme (isPlain_scheme_of_cutScheme ‹_›) hfrom hread
  · cases hread
  · obtain rfl := Except.ok.inj hread
    exact (hfrom _ rfl).withFragmentOf _
  · cases hread
  · exact plain_fileReference hfrom hread
  · exact plain_relative (hfrom _ rfl) hread

/-- A URL that is read is plain, -/
theorem plain_of_parse {s : String} (hread : parse s = .ok u) : u.Plain :=
  plain_of_read (by simp) hread

/-- and so is every one that is read against a plain one. -/
theorem plain_of_join {s : String} (hbase : base.Plain) (hread : base.join s = .ok u) : u.Plain :=
  plain_of_read (by simpa using hbase) hread

/-- The URLs there are: those that are read, by themselves or against another. -/
inductive Readable : Url → Prop
  | parse {s : String} {u : Url} (hread : Url.parse s = .ok u) : Readable u
  | join {base : Url} {s : String} {u : Url} (hbase : Readable base)
      (hread : base.join s = .ok u) : Readable u

/-- **Every URL there is is plain.** -/
theorem Readable.plain (h : u.Readable) : u.Plain := by
  induction h with
  | parse hread => exact plain_of_parse hread
  | join _ hread ih => exact plain_of_join ih hread

/-! ### Written out -/

theorem Plain.isPlain_userinfoText (h : u.Plain) : IsPlain u.userinfoText := by
  have hmark : IsPlain "@" := by decide
  rw [userinfoText]
  split
  · split
    · exact isPlain_empty
    · exact isPlain_append h.username hmark
  · exact isPlain_append (isPlain_append (isPlain_append h.username (by decide)) h.password) hmark

theorem isPlain_portText (u : Url) : IsPlain u.portText := by
  rw [portText]
  split
  · exact isPlain_empty
  · exact isPlain_append (by decide) (isPlain_decimal _)

theorem Plain.isPlain_authorityText (h : u.Plain) : IsPlain u.authorityText := by
  rw [authorityText.eq_def]
  split
  · next host hhost =>
    have hplain : IsPlain host.text := h.host host hhost
    exact isPlain_append (isPlain_append (isPlain_append (by decide) h.isPlain_userinfoText) hplain)
      (isPlain_portText u)
  · decide
  · exact isPlain_empty

theorem Plain.isPlain_queryText (h : u.Plain) : IsPlain u.queryText := by
  rw [queryText]
  split
  · exact isPlain_empty
  · next q hq => exact isPlain_append (by decide) (h.query q hq)

theorem Plain.isPlain_baseText (h : u.Plain) : IsPlain u.baseText :=
  isPlain_append (isPlain_append (isPlain_append (isPlain_append h.scheme (by decide))
    h.isPlain_authorityText) (Path.isPlain_text h.path)) h.isPlain_queryText

theorem Plain.isPlain_text (h : u.Plain) : IsPlain u.text := by
  rw [text]
  split
  · exact h.isPlain_baseText
  · next f hf =>
    have hbase : IsPlain (u.baseText ++ "#") := isPlain_append h.isPlain_baseText (by decide)
    exact isPlain_append hbase (h.fragment f hf)

end Url

namespace Outgoing

variable {r : Outgoing}

theorem isPlain_target (h : r.url.Plain) (viaProxy : Bool) : IsPlain (r.target viaProxy) := by
  cases viaProxy with
  | true => exact h.withoutFragment.isPlain_text
  | false =>
    show IsPlain ((if r.url.path.text.isEmpty then "/" else r.url.path.text) ++ r.url.queryText)
    refine isPlain_append ?_ h.isPlain_queryText
    split
    · decide
    · exact Url.Path.isPlain_text h.path

theorem isPlain_authority {a : String} (h : r.url.Plain) (hread : r.authority = .ok a) :
    IsPlain a := by
  rw [authority, host, Url.hostText?] at hread
  cases hhost : r.url.host with
  | none =>
    rw [hhost] at hread
    cases hread
  | some host =>
    rw [hhost] at hread
    dsimp only at hread
    split at hread
    · next name hname =>
      split at hname
      · cases hname
      · obtain rfl := Option.some.inj hname
        obtain rfl := Except.ok.inj hread
        exact isPlain_append (h.host host hhost) (Url.isPlain_portText r.url)
    · cases hread

end Outgoing

end HttpExchange
