import Mathlib.Tactic.FinCases
import HttpExchange.Proofs.Text.Utf8
import HttpExchange.Request.Head

/-!
# The form of a request head

The grammar of a head, as data.  A `HeadForm` is one way to write a head: it holds the parts as they
stand on the wire and the reasons why they may stand there, so that a form which does not fit the
grammar cannot be built.

* `HeadForm.bytes` — what is written;
* `HeadForm.request` — what it says: a field's value is put together from the segments of its lines,
  each without its padding, the empty ones left out.

Nothing here refers to the reader.
-/

namespace HttpExchange.Head

/-! ### Classes of bytes -/

theorem toNat_le_of_isTokenByte {b : UInt8} (h : isTokenByte b = true) : b.toNat ≤ 0x7F := by
  simp only [isTokenByte, Bool.or_eq_true, Bool.and_eq_true, decide_eq_true_eq,
    List.contains_iff_mem] at h
  rcases h with ((⟨-, h⟩ | ⟨-, h⟩) | ⟨-, h⟩) | h
  · exact Nat.le_trans (UInt8.le_iff_toNat_le.1 h) (by decide)
  · exact Nat.le_trans (UInt8.le_iff_toNat_le.1 h) (by decide)
  · exact Nat.le_trans (UInt8.le_iff_toNat_le.1 h) (by decide)
  · fin_cases h <;> decide

theorem isLineEnd_iff {b : UInt8} : isLineEnd b = true ↔ b = cr ∨ b = lf := by
  rw [isLineEnd, Bool.or_eq_true, beq_iff_eq, beq_iff_eq]

theorem ne_of_class {p : UInt8 → Bool} {b c : UInt8} (hb : p b = true) (hc : p c = false) :
    b ≠ c := by
  rintro rfl
  rw [hb] at hc
  cases hc

/-- A byte that may stand in a target. -/
def isTargetByte (b : UInt8) : Bool := b != 0x20 && !isControl b

/-- A byte that may stand in a field value, its padding included. -/
def isValueByte (b : UInt8) : Bool := b == 0x09 || !isControl b

/-! ### Forms -/

/-- The end of a line: CR LF, or LF alone. -/
inductive LineEnd
  | crlf
  | lf
  deriving DecidableEq, Repr

/-- The line end on the wire. -/
def LineEnd.bytes : LineEnd → Bytes
  | crlf => [Head.cr, Head.lf]
  | lf => [Head.lf]

/-- The part of a field value that stands on one line, and the end of that line. -/
structure Segment where
  raw : Bytes
  plain : ∀ b ∈ raw, isValueByte b = true
  lineEnd : LineEnd

namespace Segment

/-- The segment on the wire. -/
def bytes (s : Segment) : Bytes := s.raw ++ s.lineEnd.bytes

/-- What the segment says: the padding at its ends does not count, and ill-formed bytes are
replaced. -/
def text (s : Segment) : String := Utf8.decode (Blank.stripEnds Blank.isPadding s.raw)

end Segment

/-- A line that continues the value of the line before it. -/
structure Fold where
  pad : UInt8
  padding : Blank.isPadding pad = true
  segment : Segment

/-- The continuation on the wire. -/
def Fold.bytes (f : Fold) : Bytes := f.pad :: f.segment.bytes

/-- A field: its name, the first line of its value and the lines that continue it. -/
structure FieldForm where
  name : Bytes
  name_ne_nil : name ≠ []
  name_token : ∀ b ∈ name, isTokenByte b = true
  first : Segment
  folds : List Fold

namespace FieldForm

/-- The field on the wire. -/
def bytes (f : FieldForm) : Bytes :=
  f.name ++ 0x3A :: f.first.bytes ++ f.folds.flatMap Fold.bytes

/-- The segments of the value, line by line. -/
def segments (f : FieldForm) : List Segment := f.first :: f.folds.map Fold.segment

/-- The value: the segments that say something, with one space between them. -/
def value (f : FieldForm) : String :=
  " ".intercalate ((f.segments.map Segment.text).filter (!·.isEmpty))

/-- What the field says. -/
def header (f : FieldForm) : Header := ⟨Utf8.ascii f.name, f.value⟩

end FieldForm

/-- `HTTP/`, a digit, a point and a digit. -/
def versionBytes (major minor : UInt8) : Bytes :=
  [0x48, 0x54, 0x54, 0x50, 0x2F, major, 0x2E, minor]

/-- A request head: stray line ends, the request line, the fields and an empty line. -/
structure HeadForm where
  lead : Bytes
  lead_lineEnds : ∀ b ∈ lead, isLineEnd b = true
  method : Method
  target : Bytes
  target_ne_nil : target ≠ []
  target_plain : ∀ b ∈ target, isTargetByte b = true
  major : UInt8
  major_digit : isDigitByte major = true
  minor : UInt8
  minor_digit : isDigitByte minor = true
  lineEnd : LineEnd
  fields : List FieldForm
  last : LineEnd

namespace HeadForm

/-- The head on the wire. -/
def bytes (h : HeadForm) : Bytes :=
  h.lead ++ (Utf8.encode h.method.name ++ 0x20 :: (h.target ++ 0x20 ::
    (versionBytes h.major h.minor ++ (h.lineEnd.bytes ++
      (h.fields.flatMap FieldForm.bytes ++ h.last.bytes)))))

/-- What the head says. -/
def request (h : HeadForm) : Request :=
  { method := h.method
    target := Utf8.decode h.target
    version := Utf8.ascii (versionBytes h.major h.minor)
    headers := h.fields.map FieldForm.header
    body := [] }

end HeadForm

end HttpExchange.Head
