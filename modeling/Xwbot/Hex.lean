import Xwbot.Text

/-!
# Bytes as hexadecimal text

`bin2hex` and `hex2bin`.  What is written is read back; what is accepted is
written again in lower case.
-/

namespace Xwbot

/-- `hexcmap` -/
def hexcmap : List Byte :=
  lit "0123456789abcdef"

/-- `bin2hex` -/
def bin2hex (buf : List Byte) : Text :=
  buf.flatMap fun byte : Byte =>
    [hexcmap.getD ((byte >>> 4) &&& 0xf).toNat 0, hexcmap.getD (byte &&& 0xf).toNat 0]

/-- The value of a digit in `hex2bin`. -/
def hexDigit (c : Byte) : Option Byte :=
  if ch 'a' ≤ c ∧ c ≤ ch 'f' then some (10 + (c - ch 'a'))
  else if ch 'A' ≤ c ∧ c ≤ ch 'F' then some (10 + (c - ch 'A'))
  else if ch '0' ≤ c ∧ c ≤ ch '9' then some (c - ch '0')
  else none

/-- The loop of `hex2bin`. -/
def hexPairs : Text → Option (List Byte)
  | [] => some []
  | [_] => none
  | c1 :: c2 :: rest => do
      let c1 ← hexDigit c1
      let c2 ← hexDigit c2
      let bytes ← hexPairs rest
      some ((c1 * 16 + c2) :: bytes)

/-- `hex2bin` -/
def hex2bin (hex : Text) : Option (List Byte) :=
  if hex = [] then none else hexPairs hex

/-- What `hex2bin` stores through `len`, unless it returns before the loop. -/
def hex2binLen (hex : Text) : Option Nat :=
  if hex = [] ∨ hex.length % 2 ≠ 0 then none else some (hex.length / 2)

/-- A byte between `0` and `9`, `a` and `f` or `A` and `F`. -/
def isHexDigit (c : Byte) : Bool :=
  c ∈ lit "0123456789abcdefABCDEF"

/-- The texts that `hex2bin` is for. -/
def HexText (hex : Text) : Prop :=
  hex ≠ [] ∧ hex.length % 2 = 0 ∧ ∀ c ∈ hex, isHexDigit c = true

theorem hexDigit_hexcmap : ∀ byte : Byte,
    hexDigit (hexcmap.getD ((byte >>> 4) &&& 0xf).toNat 0) = some ((byte >>> 4) &&& 0xf) ∧
      hexDigit (hexcmap.getD (byte &&& 0xf).toNat 0) = some (byte &&& 0xf) ∧
      ((byte >>> 4) &&& 0xf) * 16 + (byte &&& 0xf) = byte := by
  decide +kernel

theorem hexPairs_bin2hex (buf : List Byte) : hexPairs (bin2hex buf) = some buf := by
  induction buf with
  | nil => rfl
  | cons byte rest ih =>
      rcases hexDigit_hexcmap byte with ⟨high, low, both⟩
      rw [bin2hex, List.flatMap_cons, List.cons_append, List.cons_append, List.nil_append,
        hexPairs, high, low, ← bin2hex, ih]
      simp [both]

/-- What is written is read back. -/
theorem hex2bin_bin2hex {buf : List Byte} (nonempty : buf ≠ []) :
    hex2bin (bin2hex buf) = some buf := by
  have written : bin2hex buf ≠ [] := by
    cases buf with
    | nil => exact absurd rfl nonempty
    | cons byte rest => exact List.cons_ne_nil _ _
  rw [hex2bin, if_neg written, hexPairs_bin2hex]

/-! ## What is accepted -/

theorem isSome_hexDigit : ∀ c : Byte, (hexDigit c).isSome = isHexDigit c := by
  decide +kernel

/-- The digit that `bin2hex` writes for the value of a digit. -/
theorem hexDigit_spec : ∀ c : Byte,
    (hexDigit c).all fun d => d < 16 && hexcmap.getD d.toNat 0 = toLower c := by
  decide +kernel

theorem of_hexDigit {c d : Byte} (digit : hexDigit c = some d) :
    d < 16 ∧ hexcmap.getD d.toNat 0 = toLower c := by
  have both := hexDigit_spec c
  rw [digit, Option.all_some, Bool.and_eq_true] at both
  exact ⟨of_decide_eq_true both.1, of_decide_eq_true both.2⟩

/-- The two halves of a byte that is put together from them. -/
theorem nibbles_of_lt {high low : Byte} (below : high < 16) (below' : low < 16) :
    ((high * 16 + low) >>> 4) &&& 0xf = high ∧ (high * 16 + low) &&& 0xf = low := by
  rw [UInt8.lt_iff_toNat_lt] at below below'
  change high.toNat < 16 at below
  change low.toNat < 16 at below'
  have sum : (high * 16 + low).toNat = high.toNat * 16 + low.toNat := by
    rw [UInt8.toNat_add, UInt8.toNat_mul]
    change (high.toNat * 16 % 256 + low.toNat) % 256 = _
    omega
  have mask : ∀ n, n &&& 15 = n % 16 := fun n => Nat.and_two_pow_sub_one_eq_mod n 4
  constructor
  · apply UInt8.toNat_inj.mp
    rw [UInt8.toNat_and, UInt8.toNat_shiftRight, sum]
    change (high.toNat * 16 + low.toNat) >>> 4 &&& 15 = _
    rw [mask, Nat.shiftRight_eq_div_pow]
    omega
  · apply UInt8.toNat_inj.mp
    rw [UInt8.toNat_and, sum]
    change (high.toNat * 16 + low.toNat) &&& 15 = _
    rw [mask]
    omega

/-- **The loop of `hex2bin`.**  It accepts pairs of digits, and what it makes of them is written
as these digits in lower case. -/
theorem hexPairs_spec (hex : Text) :
    (hexPairs hex).map bin2hex =
      if hex.length % 2 = 0 ∧ ∀ c ∈ hex, isHexDigit c = true then some (hex.map toLower)
      else none := by
  induction hex using hexPairs.induct with
  | case1 => simp [hexPairs, bin2hex]
  | case2 c =>
      rw [if_neg (by simp)]
      rfl
  | case3 c1 c2 rest ih =>
      have here : ∀ c, (hexDigit c).isSome = true ↔ isHexDigit c = true := fun c => by
        rw [isSome_hexDigit]
      rw [hexPairs]
      cases high : hexDigit c1 with
      | none =>
          have refused : ¬isHexDigit c1 = true := by simp [← here, high]
          rw [if_neg fun all => refused (all.2 c1 List.mem_cons_self)]
          rfl
      | some d1 =>
          cases low : hexDigit c2 with
          | none =>
              have refused : ¬isHexDigit c2 = true := by simp [← here, low]
              rw [if_neg fun all => refused (all.2 c2 (by simp))]
              rfl
          | some d2 =>
              have digit1 : isHexDigit c1 = true := (here c1).mp (by rw [high]; rfl)
              have digit2 : isHexDigit c2 = true := (here c2).mp (by rw [low]; rfl)
              have even : (c1 :: c2 :: rest).length % 2 = rest.length % 2 := by
                rw [List.length_cons, List.length_cons]
                omega
              rw [even]
              simp only [List.forall_mem_cons, digit1, digit2, true_and]
              rcases of_hexDigit high with ⟨below1, written1⟩
              rcases of_hexDigit low with ⟨below2, written2⟩
              rcases nibbles_of_lt below1 below2 with ⟨top, bottom⟩
              cases behind : hexPairs rest with
              | none =>
                  rw [behind] at ih
                  split
                  · next all =>
                      rw [if_pos all] at ih
                      cases ih
                  · rfl
              | some bytes =>
                  rw [behind] at ih
                  split
                  · next all =>
                      rw [if_pos all] at ih
                      change some (bin2hex ((d1 * 16 + d2) :: bytes)) = _
                      rw [bin2hex, List.flatMap_cons, top, bottom, written1, written2, ← bin2hex,
                        Option.some.inj ih]
                      rfl
                  · next all =>
                      rw [if_neg all] at ih
                      cases ih

instance (hex : Text) : Decidable (HexText hex) :=
  inferInstanceAs (Decidable (_ ∧ _))

/-- What is accepted, and how it is written again. -/
theorem map_bin2hex_hex2bin (hex : Text) :
    (hex2bin hex).map bin2hex = if HexText hex then some (hex.map toLower) else none := by
  by_cases empty : hex = []
  · subst empty
    rfl
  · rw [hex2bin, if_neg empty, hexPairs_spec]
    simp only [HexText, ne_eq, empty, not_false_eq_true, true_and]

theorem length_bin2hex (buf : List Byte) : (bin2hex buf).length = 2 * buf.length := by
  induction buf with
  | nil => rfl
  | cons byte rest ih =>
      rw [bin2hex, List.flatMap_cons, List.length_append, ← bin2hex, ih, List.length_cons]
      simp only [List.length_cons, List.length_nil]
      omega

/-- **The hexadecimal code.**  Exactly the non-empty texts of pairs of digits are accepted, and
writing what is read gives the same text in lower case; what is written for a non-empty buffer is
read back with its length. -/
theorem hex_codec :
    (∀ hex, (hex2bin hex).isSome ↔ HexText hex) ∧
    (∀ hex buf, hex2bin hex = some buf → bin2hex buf = hex.map toLower) ∧
    ∀ buf, buf ≠ [] → hex2bin (bin2hex buf) = some buf ∧
      hex2binLen (bin2hex buf) = some buf.length := by
  refine ⟨fun hex => ?_, fun hex buf read => ?_, fun buf nonempty => ⟨hex2bin_bin2hex nonempty, ?_⟩⟩
  · have both := congrArg Option.isSome (map_bin2hex_hex2bin hex)
    rw [Option.isSome_map] at both
    rw [both]
    split
    · next accepted => simp [accepted]
    · next refused => simp [refused]
  · have both := map_bin2hex_hex2bin hex
    rw [read] at both
    split at both
    · exact Option.some.inj both
    · cases both
  · have written : bin2hex buf ≠ [] := by
      intro empty
      have length := length_bin2hex buf
      rw [empty] at length
      exact nonempty (List.length_eq_zero_iff.mp (by simp only [List.length_nil] at length; omega))
    rw [hex2binLen, length_bin2hex, if_neg (by simp [written])]
    simp

end Xwbot
