import Mathlib

/-!
# Bytes and C strings

The program handles every token as a NUL-terminated array of `char`.  `Text`
is the sequence of bytes before the terminator.  `char` is signed on the
platforms the repository is built for by default, so the source's test
`c < '\0'` selects the bytes from `0x80` on.

The character classes at the end of the file are the conditions that the push
parser repeats in its handlers.
-/

namespace Xwbot

/-- One `char`. -/
abbrev Byte := UInt8

/-- The bytes of a C string, without its terminator. -/
abbrev Text := List Byte

/-- The byte of an ASCII character. -/
abbrev ch (c : Char) : Byte :=
  c.toNat.toUInt8

/-- A C string literal. -/
def lit (s : String) : Text :=
  s.toList.map ch

/-! ## The library's character and string functions -/

/-- `x_isupper`. -/
def isUpper (c : Byte) : Bool :=
  ch 'A' ≤ c && c ≤ ch 'Z'

/-- `x_islower`. -/
def isLower (c : Byte) : Bool :=
  ch 'a' ≤ c && c ≤ ch 'z'

/-- `x_isalpha`. -/
def isAlpha (c : Byte) : Bool :=
  isUpper c || isLower c

/-- `x_isdigit`. -/
def isDigit (c : Byte) : Bool :=
  ch '0' ≤ c && c ≤ ch '9'

/-- The test `c < '\0'` on a signed `char`. -/
def isHigh (c : Byte) : Bool :=
  128 ≤ c

/-- `x_strchr`: the suffix from the first occurrence on.  A search for NUL
finds the terminator. -/
def strchr : Text → Byte → Option Text
  | [], c => if c = 0 then some [] else none
  | x :: rest, c => if x = c then some (x :: rest) else strchr rest c

/-- The parser's white-space test `x_strchr("\t\r\n ", c) != NULL`, which the
NUL byte passes as well. -/
def isBlank (c : Byte) : Bool :=
  (strchr (lit "\t\r\n ") c).isSome

/-- `tolower` in the C locale. -/
def toLower (c : Byte) : Byte :=
  if isUpper c then c + 32 else c

/-- The macro `EQ`: equality up to letter case. -/
def eqText (s₁ s₂ : Text) : Bool :=
  s₁.map toLower = s₂.map toLower

/-- The macro `EQN`: `x_strncasecmp(s1, s2, strcspn(s1, "\n\r")) == 0`.  Only
as many bytes as `s1` has before its first line end are compared. -/
def eqnText (s₁ s₂ : Text) : Bool :=
  let n := (s₁.takeWhile fun c => c ≠ ch '\n' && c ≠ ch '\r').length
  (s₁.take n).map toLower = (s₂.take n).map toLower

theorem eqText_refl (s : Text) : eqText s s = true := by
  simp [eqText]

theorem eqnText_refl (s : Text) : eqnText s s = true := by
  simp [eqnText]

theorem eqText_symm {s₁ s₂ : Text} (h : eqText s₁ s₂ = true) : eqText s₂ s₁ = true := by
  simp only [eqText, decide_eq_true_eq] at h ⊢
  exact h.symm

/-! ## Names compared up to a line end -/

/-- The byte ends no line. -/
def inLine (c : Byte) : Bool :=
  c ≠ ch '\n' && c ≠ ch '\r'

/-- What a name is compared by: its bytes up to a line end. -/
def lineOf (t : Text) : Text :=
  t.takeWhile inLine

theorem eqnText_iff {s₁ s₂ : Text} :
    eqnText s₁ s₂ = true ↔ (lineOf s₁).map toLower <+: s₂.map toLower := by
  have own : s₁.take (lineOf s₁).length = lineOf s₁ :=
    (List.prefix_iff_eq_take.mp (List.takeWhile_prefix _)).symm
  rw [eqnText, decide_eq_true_eq]
  change (s₁.take (lineOf s₁).length).map toLower = (s₂.take (lineOf s₁).length).map toLower ↔ _
  rw [own, List.prefix_iff_eq_take, List.length_map, List.map_take]

theorem inLine_toLower : ∀ c : Byte, inLine (toLower c) = inLine c := by
  decide +kernel

/-- A text that begins with a part of a line begins with it before its own first line end. -/
theorem prefix_lineOf {l s : Text} (inside : ∀ c ∈ l, inLine c = true)
    (begins : l <+: s.map toLower) : l <+: (lineOf s).map toLower := by
  induction s generalizing l with
  | nil => exact begins
  | cons c rest ih =>
      cases l with
      | nil => exact List.nil_prefix
      | cons d l =>
          rw [List.map_cons, List.cons_prefix_cons] at begins
          rw [List.forall_mem_cons] at inside
          have goesOn : inLine c = true := by
            rw [← inLine_toLower, ← begins.1]
            exact inside.1
          rw [lineOf, List.takeWhile_cons_of_pos goesOn, List.map_cons, List.cons_prefix_cons]
          exact ⟨begins.1, ih inside.2 begins.2⟩

theorem eqnText_trans {s₁ s₂ s₃ : Text} (first : eqnText s₁ s₂ = true)
    (second : eqnText s₂ s₃ = true) : eqnText s₁ s₃ = true := by
  rw [eqnText_iff] at first second ⊢
  have inside : ∀ c ∈ (lineOf s₁).map toLower, inLine c = true := by
    intro c member
    rcases List.mem_map.mp member with ⟨d, memberD, rfl⟩
    rw [inLine_toLower]
    exact List.mem_takeWhile_imp memberD
  exact (prefix_lineOf inside first).trans second

theorem eqnText_of_eqText {s₁ s₂ : Text} (same : eqText s₁ s₂ = true) : eqnText s₁ s₂ = true := by
  rw [eqText, decide_eq_true_eq] at same
  rw [eqnText_iff, ← same]
  exact (List.takeWhile_prefix _).map _

/-! ## Character classes of the push parser -/

/-- First byte of a name, and first byte of an attribute key. -/
def isNameStart (c : Byte) : Bool :=
  isAlpha c || c = ch '_' || c = ch ':' || isHigh c

/-- Later byte of an element name. -/
def isNameChar (c : Byte) : Bool :=
  isAlpha c || c = ch '-' || isDigit c || c = ch '_' || c = ch '.' || c = ch ':' || isHigh c

/-- Later byte of an attribute key; the same test admits the first byte of an
unquoted value. -/
def isKeyChar (c : Byte) : Bool :=
  isAlpha c || isDigit c || c = ch ':' || c = ch '_' || isHigh c

/-- The apostrophe. -/
abbrev apos : Byte := 0x27

/-- The double quotation mark. -/
abbrev quot : Byte := 0x22

/-- Quotation marks of attribute values. -/
def isQuote (c : Byte) : Bool :=
  c = apos || c = quot

variable {c : Byte}

/-- The white-space test in full. -/
theorem isBlank_iff : isBlank c = true ↔
    c = ch '\t' ∨ c = ch '\r' ∨ c = ch '\n' ∨ c = ch ' ' ∨ c = 0 := by
  constructor
  · intro blank
    have bytes : lit "\t\r\n " = [ch '\t', ch '\r', ch '\n', ch ' '] := rfl
    simp only [isBlank, bytes, strchr] at blank
    grind
  · rintro (rfl | rfl | rfl | rfl | rfl) <;> decide

theorem isKeyChar_of_isNameStart (h : isNameStart c = true) : isKeyChar c = true := by
  simp only [isNameStart, isKeyChar, Bool.or_eq_true] at h ⊢
  tauto

theorem isNameChar_of_isKeyChar (h : isKeyChar c = true) : isNameChar c = true := by
  simp only [isKeyChar, isNameChar, Bool.or_eq_true] at h ⊢
  tauto

theorem isNameChar_of_isBlank (h : isBlank c = true) : isNameChar c = false := by
  rcases isBlank_iff.mp h with rfl | rfl | rfl | rfl | rfl <;> decide

theorem isBlank_of_isNameChar (h : isNameChar c = true) : isBlank c = false := by
  by_contra blank
  rw [isNameChar_of_isBlank (by simpa using blank)] at h
  cases h

theorem isKeyChar_of_isBlank (h : isBlank c = true) : isKeyChar c = false := by
  by_contra key
  have name := isNameChar_of_isKeyChar (by simpa using key)
  rw [isNameChar_of_isBlank h] at name
  cases name

theorem isNameStart_of_isBlank (h : isBlank c = true) : isNameStart c = false := by
  by_contra start
  have key := isKeyChar_of_isNameStart (by simpa using start)
  rw [isKeyChar_of_isBlank h] at key
  cases key

theorem isQuote_iff : isQuote c = true ↔ c = apos ∨ c = quot := by
  simp [isQuote]

/-- None of the bytes that end a name is part of one. -/
theorem ne_of_isNameChar (h : isNameChar c = true) :
    c ≠ ch '>' ∧ c ≠ ch '/' ∧ c ≠ ch '=' ∧ c ≠ ch '<' ∧ isQuote c = false := by
  have notQuote : isQuote c = false := by
    by_contra quoted
    rcases isQuote_iff.mp (by simpa using quoted) with rfl | rfl <;> exact absurd h (by decide)
  refine ⟨?_, ?_, ?_, ?_, notQuote⟩ <;> rintro rfl <;> exact absurd h (by decide)

theorem ne_of_isBlank (h : isBlank c = true) :
    c ≠ ch '>' ∧ c ≠ ch '/' ∧ c ≠ ch '=' ∧ c ≠ ch '<' ∧ isQuote c = false := by
  rcases isBlank_iff.mp h with rfl | rfl | rfl | rfl | rfl <;> decide

theorem isHigh_of_isQuote (h : isQuote c = true) : isHigh c = false ∧ isBlank c = false := by
  rcases isQuote_iff.mp h with rfl | rfl <;> decide

end Xwbot
