import Xwbot.Ice.IoStream

/-!
# Decimal numbers

What `%d` writes is a decimal number, and `atoi` reads its value back.
-/

namespace Xwbot.Ice

/-- The value of a text of digits. -/
def digitsValue (t : Text) : Nat :=
  Nat.ofDigits 10 (t.reverse.map fun c => (c - ch '0').toNat)

/-- The text is a decimal number that is not above the bound. -/
def IsNumber (bound : Nat) (t : Text) (n : Nat) : Prop :=
  t ≠ [] ∧ (∀ c ∈ t, isDigit c = true) ∧ digitsValue t = n ∧ n ≤ bound

theorem not_isSpace_of_isDigit {c : Byte} (digit : isDigit c = true) :
    isSpace c = false ∧ c ≠ ch '-' ∧ c ≠ ch '+' := by
  have all : ∀ c : Byte, isDigit c = true → isSpace c = false ∧ c ≠ ch '-' ∧ c ≠ ch '+' := by
    decide +kernel
  exact all c digit

theorem atoiDigits_eq {t : Text} (all : ∀ c ∈ t, isDigit c = true) (acc : Nat) :
    atoiDigits acc t = acc * 10 ^ t.length + digitsValue t := by
  induction t generalizing acc with
  | nil => simp [atoiDigits, digitsValue]
  | cons c rest ih =>
      rw [List.forall_mem_cons] at all
      rw [atoiDigits, if_pos all.1, ih all.2, digitsValue, digitsValue, List.reverse_cons,
        List.map_append, Nat.ofDigits_append, List.length_map, List.length_reverse,
        List.length_cons, List.map_singleton, Nat.ofDigits_singleton]
      ring

section Numbers

variable {bound n : Nat} {t : Text}

theorem IsNumber.exists_cons (number : IsNumber bound t n) :
    ∃ c more, t = c :: more ∧ isDigit c = true := by
  rcases List.exists_cons_of_ne_nil number.1 with ⟨c, more, rfl⟩
  exact ⟨c, more, rfl, number.2.1 c List.mem_cons_self⟩

theorem IsNumber.atoi (number : IsNumber bound t n) : atoi t = n := by
  rcases number.exists_cons with ⟨c, more, rfl, digit⟩
  rcases not_isSpace_of_isDigit digit with ⟨notSpace, notMinus, notPlus⟩
  rw [Ice.atoi, List.dropWhile_cons_of_neg (by simp [notSpace])]
  simp only [if_neg notMinus, if_neg notPlus]
  rw [atoiDigits_eq number.2.1, number.2.2.1, Nat.zero_mul, Nat.zero_add]

end Numbers

/-! ## What is written -/

/-- The last digit of a number is that of its remainder. -/
theorem decimal_eq (n : Nat) : decimal n =
    (if n < 10 then [] else decimal (n / 10)) ++ [ch (Nat.digitChar (n % 10))] := by
  rw [decimal, Nat.toDigits_eq_if (by decide)]
  split
  · next small => rw [Nat.mod_eq_of_lt small]; rfl
  · rw [List.map_append]
    rfl

theorem digitChar_spec : ∀ d < 10, isDigit (ch (Nat.digitChar d)) = true ∧
    (ch (Nat.digitChar d) - ch '0').toNat = d := by
  decide

theorem digitsValue_concat (t : Text) (c : Byte) :
    digitsValue (t ++ [c]) = 10 * digitsValue t + (c - ch '0').toNat := by
  rw [digitsValue, digitsValue, List.reverse_append, List.reverse_singleton, List.map_append,
    List.map_singleton, List.singleton_append, Nat.ofDigits_cons]
  exact Nat.add_comm _ _

/-- A number is written in digits, and they have its value. -/
theorem isNumber_decimal (n : Nat) : IsNumber n (decimal n) n := by
  refine ⟨by rw [decimal_eq]; simp, ?_, ?_, le_rfl⟩
  · induction n using Nat.strong_induction_on with
    | h n ih =>
        have last := (digitChar_spec (n % 10) (Nat.mod_lt n (by decide))).1
        intro c member
        rw [decimal_eq] at member
        rcases List.mem_append.mp member with front | back
        · split at front
          · cases front
          · exact ih (n / 10) (by omega) c front
        · rw [List.mem_singleton.mp back]
          exact last
  · induction n using Nat.strong_induction_on with
    | h n ih =>
        have last := (digitChar_spec (n % 10) (Nat.mod_lt n (by decide))).2
        rw [decimal_eq, digitsValue_concat, last]
        split
        · next small =>
            have nothing : digitsValue [] = 0 := rfl
            rw [nothing, Nat.mod_eq_of_lt small]
            omega
        · next large =>
            rw [ih (n / 10) (by omega)]
            omega

theorem atoi_decimal (n : Nat) : atoi (decimal n) = n :=
  (isNumber_decimal n).atoi

/-- The format `%d`, or `%u` for a number that is not negative. -/
def counterText (v : Int) : Text :=
  if v < 0 then ch '-' :: decimal v.natAbs else decimal v.natAbs

/-- What a counter is written as is read back as its value. -/
theorem atoi_counterText (v : Int) : atoi (counterText v) = v := by
  unfold counterText
  split
  · next negative =>
      rcases isNumber_decimal v.natAbs with ⟨-, all, value, -⟩
      have minus : ¬isSpace (ch '-') = true := by decide
      rw [atoi, List.dropWhile_cons_of_neg minus]
      simp only [if_pos]
      rw [atoiDigits_eq all, value]
      omega
  · rw [atoi_decimal]
    omega

end Xwbot.Ice
