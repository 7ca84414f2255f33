import Mathlib

/-!
# Shift registers

A register takes bits and shifts them out at its low end, where each bit that is set puts the taps
of the register back in.  The register is linear, and where the highest tap is set nothing is lost.
-/

namespace Xwbot.Registers

variable {w : ℕ} {taps c d : BitVec w} {bits errors : List Bool}

/-- One place down. -/
def shift (taps c : BitVec w) : BitVec w :=
  if c.getLsbD 0 then (c >>> 1) ^^^ taps else c >>> 1

/-- So many places down. -/
def shifts (taps : BitVec w) : ℕ → BitVec w → BitVec w
  | 0, c => c
  | n + 1, c => shifts taps n (shift taps c)

/-- Bits in a word, the first one lowest. -/
def ofBits : List Bool → BitVec w
  | [] => 0#w
  | bit :: rest => (ofBits rest <<< 1) ^^^ (BitVec.ofBool bit).setWidth w

/-- One bit after the other is put in at the low end. -/
def feeds (taps : BitVec w) : BitVec w → List Bool → BitVec w
  | c, [] => c
  | c, bit :: rest => feeds taps (shift taps (c ^^^ (BitVec.ofBool bit).setWidth w)) rest

/-! ## Linearity -/

theorem shift_xor (taps c d : BitVec w) : shift taps (c ^^^ d) = shift taps c ^^^ shift taps d := by
  unfold shift
  rw [BitVec.getLsbD_xor, BitVec.ushiftRight_xor_distrib]
  cases c.getLsbD 0 <;> cases d.getLsbD 0
  · rfl
  · exact BitVec.xor_assoc _ _ _
  · change c >>> 1 ^^^ d >>> 1 ^^^ taps = c >>> 1 ^^^ taps ^^^ d >>> 1
    rw [BitVec.xor_assoc, BitVec.xor_comm (d >>> 1), ← BitVec.xor_assoc]
  · change c >>> 1 ^^^ d >>> 1 = c >>> 1 ^^^ taps ^^^ (d >>> 1 ^^^ taps)
    rw [BitVec.xor_comm (d >>> 1) taps, BitVec.xor_assoc, ← BitVec.xor_assoc taps,
      BitVec.xor_self, BitVec.zero_xor]

theorem shifts_xor (n : ℕ) (c d : BitVec w) :
    shifts taps n (c ^^^ d) = shifts taps n c ^^^ shifts taps n d := by
  induction n generalizing c d with
  | zero => rfl
  | succ n ih => rw [shifts, shift_xor, ih, shifts, shifts]

theorem feeds_append (c : BitVec w) (l l' : List Bool) :
    feeds taps c (l ++ l') = feeds taps (feeds taps c l) l' := by
  induction l generalizing c with
  | nil => rfl
  | cons bit rest ih => exact ih _

/-! ## A word of bits at once -/

/-- The bits of a word are those of the list. -/
theorem getLsbD_ofBits (fits : bits.length ≤ w) (i : ℕ) :
    (ofBits bits : BitVec w).getLsbD i = bits.getD i false := by
  induction bits generalizing i with
  | nil => simp [ofBits]
  | cons bit rest ih =>
      rw [List.length_cons] at fits
      rw [ofBits, BitVec.getLsbD_xor, BitVec.getLsbD_shiftLeft, BitVec.getLsbD_setWidth,
        BitVec.getLsbD_ofBool]
      cases i with
      | zero =>
          have positive : 0 < w := by omega
          simp [positive]
      | succ i =>
          rw [Nat.add_sub_cancel, ih (by omega), List.getD_cons_succ]
          rcases Nat.lt_or_ge (i + 1) w with inside | outside
          · simp [inside]
          · have outer : rest.getD i false = false := by
              rw [List.getD_eq_default]
              omega
            rw [outer, Bool.and_false, Bool.false_xor, decide_eq_false (Nat.not_lt.mpr outside),
              Bool.false_and]

/-- A word whose highest bit is clear comes back from one place up. -/
theorem shift_shiftLeft (clear : c.getLsbD (w - 1) = false) : shift taps (c <<< 1) = c := by
  have low : (c <<< 1).getLsbD 0 = false := by simp
  rw [shift, low, if_neg Bool.false_ne_true]
  apply BitVec.eq_of_getLsbD_eq
  intro i inside
  rw [BitVec.getLsbD_ushiftRight, BitVec.getLsbD_shiftLeft, Nat.add_sub_cancel_left]
  rcases Nat.lt_or_ge (1 + i) w with room | top
  · simp [room]
  · have last : i = w - 1 := by omega
    subst last
    rw [clear, Bool.and_false]

/-- What is put in is shifted out as if it had been there. -/
theorem feeds_eq_shifts (c : BitVec w) (fits : bits.length ≤ w) :
    feeds taps c bits = shifts taps bits.length (c ^^^ ofBits bits) := by
  induction bits generalizing c with
  | nil =>
      rw [ofBits, BitVec.xor_zero]
      rfl
  | cons bit rest ih =>
      rw [List.length_cons] at fits
      have out : shift taps ((ofBits rest : BitVec w) <<< 1) = ofBits rest := by
        apply shift_shiftLeft
        rw [getLsbD_ofBits (by omega), List.getD_eq_default]
        omega
      have split : c ^^^ ofBits (bit :: rest) =
          (c ^^^ (BitVec.ofBool bit).setWidth w) ^^^ (ofBits rest <<< 1) := by
        rw [ofBits]
        ac_rfl
      rw [feeds, ih _ (by omega), List.length_cons, shifts, split, shift_xor taps (c ^^^ _), out]

/-- Bits that are all clear only shift. -/
theorem shifts_of_clear {n : ℕ} (clear : ∀ i < n, c.getLsbD i = false) :
    shifts taps n c = c >>> n := by
  induction n generalizing c with
  | zero => rfl
  | succ n ih =>
      have low : shift taps c = c >>> 1 := by
        rw [shift, clear 0 (Nat.succ_pos n), if_neg Bool.false_ne_true]
      have above : ∀ i < n, (c >>> 1).getLsbD i = false := by
        intro i inside
        rw [BitVec.getLsbD_ushiftRight]
        exact clear _ (by omega)
      rw [shifts, low, ih above, ← BitVec.shiftRight_add, Nat.add_comm]

/-- **Tables.**  The low bits that are shifted out say what the others are changed by. -/
theorem shifts_eq (n : ℕ) (c : BitVec w) {mask : BitVec w}
    (low : ∀ i < w, mask.getLsbD i = decide (i < n)) :
    shifts taps n c = shifts taps n (c &&& mask) ^^^ (c >>> n) := by
  have split : c = (c &&& mask) ^^^ (c &&& ~~~mask) := by
    apply BitVec.eq_of_getLsbD_eq
    intro i inside
    simp only [BitVec.getLsbD_xor, BitVec.getLsbD_and, BitVec.getLsbD_not, inside, decide_true,
      Bool.true_and]
    cases c.getLsbD i <;> cases mask.getLsbD i <;> rfl
  have clear : ∀ i < n, (c &&& ~~~mask).getLsbD i = false := by
    intro i below
    rcases Nat.lt_or_ge i w with inside | outside
    · simp [low i inside, below]
    · exact BitVec.getLsbD_of_ge _ _ outside
  have high : (c &&& ~~~mask) >>> n = c >>> n := by
    apply BitVec.eq_of_getLsbD_eq
    intro i inside
    rw [BitVec.getLsbD_ushiftRight, BitVec.getLsbD_ushiftRight, BitVec.getLsbD_and,
      BitVec.getLsbD_not]
    rcases Nat.lt_or_ge (n + i) w with inside' | outside
    · rw [low _ inside', decide_eq_true inside', decide_eq_false (by omega), Bool.not_false,
        Bool.and_self, Bool.and_true]
    · rw [BitVec.getLsbD_of_ge c _ outside, Bool.false_and]
  conv_lhs => rw [split]
  rw [shifts_xor, shifts_of_clear clear, high]

/-! ## Nothing is lost -/

/-- A register whose highest tap is set is shifted to zero from zero only. -/
theorem eq_zero_of_shift (top : taps.getLsbD (w - 1) = true) (zero : shift taps c = 0#w) :
    c = 0#w := by
  have positive : 0 < w := by
    by_contra none
    rw [BitVec.getLsbD_of_ge _ _ (by omega)] at top
    exact Bool.false_ne_true top
  have bit : ∀ i, (shift taps c).getLsbD i = false := by
    intro i
    rw [zero, BitVec.getLsbD_zero]
  unfold shift at bit
  cases low : c.getLsbD 0 with
  | true =>
      have last := bit (w - 1)
      rw [if_pos low, BitVec.getLsbD_xor, BitVec.getLsbD_ushiftRight, top,
        BitVec.getLsbD_of_ge _ _ (by omega)] at last
      exact absurd last (by decide)
  | false =>
      apply BitVec.eq_of_getLsbD_eq
      intro i inside
      rw [BitVec.getLsbD_zero]
      cases i with
      | zero => exact low
      | succ i =>
          have next := bit i
          rw [low, if_neg Bool.false_ne_true, BitVec.getLsbD_ushiftRight, Nat.add_comm] at next
          exact next

theorem shift_injective (top : taps.getLsbD (w - 1) = true) : Function.Injective (shift taps) := by
  intro c d same
  apply BitVec.xor_eq_zero_iff.mp
  apply eq_zero_of_shift top
  rw [shift_xor, same, BitVec.xor_self]

theorem shifts_injective (top : taps.getLsbD (w - 1) = true) (n : ℕ) :
    Function.Injective (shifts taps n) := by
  induction n with
  | zero => exact Function.injective_id
  | succ n ih => exact ih.comp (shift_injective top)

/-- Registers that differ stay different. -/
theorem feeds_injective (top : taps.getLsbD (w - 1) = true) (bits : List Bool) :
    Function.Injective fun c => feeds taps c bits := by
  induction bits with
  | nil => exact Function.injective_id
  | cons bit rest ih =>
      intro c d same
      exact (BitVec.xor_left_inj _).mp (shift_injective top (ih same))

theorem ofBits_injective {bits bits' : List Bool} (length : bits.length = bits'.length)
    (fits : bits.length ≤ w) (same : (ofBits bits : BitVec w) = ofBits bits') : bits = bits' := by
  apply List.ext_getElem length
  intro i inside inside'
  have bit := congrArg (fun c => c.getLsbD i) same
  rw [getLsbD_ofBits fits, getLsbD_ofBits (by omega), List.getD_eq_getElem _ _ inside,
    List.getD_eq_getElem _ _ inside'] at bit
  exact bit

/-- **Bursts.**  Two inputs that differ within as many bits as the register has leave different
registers. -/
theorem feeds_ne (top : taps.getLsbD (w - 1) = true) (front back : List Bool)
    {burst burst' : List Bool} (length : burst.length = burst'.length) (fits : burst.length ≤ w)
    (differ : burst ≠ burst') :
    feeds taps c (front ++ (burst ++ back)) ≠ feeds taps c (front ++ (burst' ++ back)) := by
  intro same
  rw [feeds_append, feeds_append, feeds_append, feeds_append] at same
  have middle := feeds_injective top back same
  have shifted : ∀ part : List Bool, part.length ≤ w → feeds taps (feeds taps c front) part =
      shifts taps part.length (feeds taps c front ^^^ ofBits part) :=
    fun _ fits => feeds_eq_shifts _ fits
  rw [shifted burst fits, shifted burst' (length.symm.trans_le fits), ← length] at middle
  have words := (BitVec.xor_right_inj _).mp (shifts_injective top _ middle)
  exact differ (ofBits_injective length fits words)

end Xwbot.Registers
