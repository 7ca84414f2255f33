import Xwbot.Text

/-!
# Bytes as Base64

`x_base64_encode` and `base64_decode`.  The decoder collects characters of its alphabet in
quartets and passes over the others.  At the first padding character it translates what it has
collected of a quartet, and its table says how many bytes that makes: three when nothing has been
collected, and one for a single character.
-/

namespace Xwbot

/-- `b64dict` -/
def b64dict : Text :=
  lit "ABCDEFGHIJKLMNOPQRSTUVWXYZabcdefghijklmnopqrstuvwxyz0123456789+/"

/-- A character of `b64dict`, for the lowest six bits. -/
def b64char (bits : Byte) : Byte :=
  b64dict.getD (bits &&& 0x3F).toNat 0

/-- `x_base64_encode`. -/
def base64Encode : List Byte → Text
  | a :: b :: c :: rest =>
      b64char (a >>> 2) :: b64char (a <<< 4 ||| b >>> 4) :: b64char (b <<< 2 ||| c >>> 6) ::
        b64char c :: base64Encode rest
  | [a, b] => [b64char (a >>> 2), b64char (a <<< 4 ||| b >>> 4), b64char (b <<< 2), ch '=']
  | [a] => [b64char (a >>> 2), b64char (a <<< 4), ch '=', ch '=']
  | [] => []

/-- The size of the block that `x_base64_encode` allocates. -/
def base64Size (len : Nat) : Nat :=
  ((len + 2 - (len + 2) % 3) / 3 * 4 + 3) / 4 * 4 + 1

/-- `nbytes` -/
def nbytes : List Nat :=
  [3, 1, 1, 2]

/-- `xlate`: the bytes of `out` that its result says to take. -/
def xlate (in_ : Nat → Byte) (phase : Nat) : List Byte :=
  [in_ 0 <<< 2 ||| in_ 1 >>> 4, in_ 1 <<< 4 ||| in_ 2 >>> 2, in_ 2 <<< 6 ||| in_ 3 >>> 0].take
    (nbytes.getD phase 0)

/-- The variables of `base64_decode`. -/
structure B64Decoder where
  in_ : Nat → Byte
  phase : Nat
  ret : List Byte

namespace B64Decoder

/-- A character of the alphabet, and the translation of a quartet that it completes. -/
def push (d : B64Decoder) (v : Byte) : B64Decoder :=
  let in_ := Function.update d.in_ d.phase v
  let phase := (d.phase + 1) % 4
  if phase = 0 then ⟨fun _ => 0, phase, d.ret ++ xlate in_ phase⟩ else ⟨in_, phase, d.ret⟩

/-- The padding character. -/
def flush (d : B64Decoder) : B64Decoder :=
  { d with ret := d.ret ++ xlate d.in_ d.phase }

/-- The loop of `base64_decode`.  `strchr` finds the terminator of `b64dict` as well. -/
def read (d : B64Decoder) : Text → B64Decoder
  | [] => d
  | c :: rest =>
      if c = ch '=' then d.flush
      else
        match (b64dict ++ [0]).findIdx? (· = c) with
        | some p => (d.push p.toUInt8).read rest
        | none => d.read rest

end B64Decoder

/-- `base64_decode`.  The array `in` begins with what the stack holds. -/
def base64Decode (stack : Nat → Byte) (str : Text) : List Byte :=
  (B64Decoder.read ⟨stack, 0, []⟩ str).ret

/-- What is encoded fits its block together with the terminator. -/
theorem length_base64Encode : ∀ x : List Byte,
    (base64Encode x).length + 1 = base64Size x.length
  | [] => rfl
  | [_] | [_, _] => by simp [base64Encode, base64Size]
  | a :: b :: c :: rest => by
      have behind := length_base64Encode rest
      simp only [base64Encode, List.length_cons, base64Size] at behind ⊢
      omega

/-! ## What a text encodes -/

/-- The lowest bits of a byte, from the most significant on. -/
def bitsOf (n : Nat) (byte : Byte) : List Bool :=
  (List.range n).reverse.map byte.toNat.testBit

/-- The byte with these bits. -/
def octet (bits : List Bool) : Byte :=
  (bits.foldl (fun (n : Nat) (bit : Bool) => 2 * n + bit.toNat) 0).toUInt8

/-- The whole bytes at the beginning of some bits. -/
def octets : List Bool → List Byte
  | b7 :: b6 :: b5 :: b4 :: b3 :: b2 :: b1 :: b0 :: rest =>
      octet [b7, b6, b5, b4, b3, b2, b1, b0] :: octets rest
  | _ => []

/-- The six bits that a character stands for. -/
def b64value (c : Byte) : Option Byte :=
  (b64dict.findIdx? (· = c)).map Nat.toUInt8

/-- What the characters of the alphabet before the first padding character stand for. -/
def sextets (str : Text) : List Byte :=
  (str.takeWhile (· ≠ ch '=')).filterMap b64value

/-- The decoder makes the whole bytes that the characters before the first padding encode, and
no others. -/
def Decodes (stack : Nat → Byte) (str : Text) : Prop :=
  base64Decode stack str = octets ((sextets str).flatMap (bitsOf 6))

/-- Padding comes behind two or three characters of a quartet; without padding, at most one
character is left behind the last quartet. -/
def Padded (str : Text) : Prop :=
  if ch '=' ∈ str then 2 ≤ (sextets str).length % 4 else (sextets str).length % 4 ≤ 1

instance (str : Text) : Decidable (Padded str) := by
  unfold Padded
  infer_instance

/-- The character belongs to an encoded text. -/
def inEncoding (c : Byte) : Bool :=
  c = ch '=' || (b64value c).isSome

theorem octets_append {bits : List Bool} (eight : bits.length = 8) (rest : List Bool) :
    octets (bits ++ rest) = octet bits :: octets rest := by
  match bits, eight with
  | [_, _, _, _, _, _, _, _], _ => rfl

theorem length_octets (bits : List Bool) : (octets bits).length = bits.length / 8 := by
  induction bits using octets.induct with
  | case1 b7 b6 b5 b4 b3 b2 b1 b0 rest ih =>
      rw [octets, List.length_cons, ih]
      simp only [List.length_cons]
      omega
  | case2 bits short =>
      have few : bits.length < 8 := by
        match bits, short with
        | [], _ | [_], _ | [_, _], _ | [_, _, _], _ | [_, _, _, _], _ | [_, _, _, _, _], _
        | [_, _, _, _, _, _], _ | [_, _, _, _, _, _, _], _ => simp
        | b7 :: b6 :: b5 :: b4 :: b3 :: b2 :: b1 :: b0 :: rest, short =>
            exact absurd rfl (short b7 b6 b5 b4 b3 b2 b1 b0 rest)
      have nothing : octets bits = [] := by
        rw [octets]
        exact short
      rw [nothing, List.length_nil]
      omega

@[simp]
theorem length_bitsOf (n : Nat) (byte : Byte) : (bitsOf n byte).length = n := by
  simp [bitsOf]

theorem length_flatMap_bitsOf (n : Nat) (l : List Byte) :
    (l.flatMap (bitsOf n)).length = l.length * n := by
  induction l with
  | nil => simp
  | cons v rest ih =>
      rw [List.flatMap_cons, List.length_append, ih, length_bitsOf, List.length_cons]
      ring

/-! ## The loop -/

theorem length_b64dict : b64dict.length = 64 := by
  decide

/-- The terminator is found for NUL only. -/
theorem toUInt8_of_findIdx {c : Byte} (noNul : c ≠ 0) :
    ((b64dict ++ [0]).findIdx? (· = c)).map Nat.toUInt8 = b64value c := by
  have terminator : [(0 : Byte)].findIdx? (· = c) = none := by simp [Ne.symm noNul]
  rw [List.findIdx?_append, terminator, Option.map_none, Option.or_none, b64value]

theorem b64value_lt {c v : Byte} (value : b64value c = some v) : v < 64 := by
  rcases Option.map_eq_some_iff.mp value with ⟨i, found, rfl⟩
  have below : i < 64 := length_b64dict ▸ (List.findIdx?_eq_some_iff_getElem.mp found).1
  rw [UInt8.lt_iff_toNat_lt, Nat.toUInt8_eq, UInt8.toNat_ofNat']
  exact lt_of_le_of_lt (Nat.mod_le _ _) below

theorem sextets_lt {str : Text} : ∀ v ∈ sextets str, v < 64 := by
  intro v member
  rcases List.mem_filterMap.mp member with ⟨c, -, value⟩
  exact b64value_lt value

theorem sextets_cons {c : Byte} (other : c ≠ ch '=') (rest : Text) :
    sextets (c :: rest) = (b64value c).toList ++ sextets rest := by
  rw [sextets, List.takeWhile_cons_of_pos (by exact decide_eq_true other), List.filterMap_cons]
  cases b64value c <;> rfl

namespace B64Decoder

/-- The loop pushes what the characters before the padding stand for, and flushes at the
padding. -/
theorem read_eq {str : Text} (noNul : 0 ∉ str) (d : B64Decoder) :
    d.read str = if ch '=' ∈ str then ((sextets str).foldl push d).flush
      else (sextets str).foldl push d := by
  induction str generalizing d with
  | nil => rfl
  | cons c rest ih =>
      rw [List.mem_cons, not_or] at noNul
      rw [read]
      by_cases padding : c = ch '='
      · rw [if_pos padding, if_pos (padding ▸ List.mem_cons_self), sextets,
          List.takeWhile_cons_of_neg (by simp [padding])]
        rfl
      · have member : ch '=' ∈ c :: rest ↔ ch '=' ∈ rest := by
          rw [List.mem_cons, or_iff_right (Ne.symm padding)]
        have index := toUInt8_of_findIdx (Ne.symm noNul.1)
        rw [if_neg padding, if_congr member rfl rfl, sextets_cons padding, ← index]
        cases (b64dict ++ [0]).findIdx? (· = c) with
        | none => exact ih noNul.2 d
        | some p => exact ih noNul.2 (d.push p.toUInt8)

/-- A quartet from the first phase on. -/
theorem foldl_push_quartet (in_ : Nat → Byte) (ret : List Byte) (a b c d : Byte)
    (rest : List Byte) :
    (a :: b :: c :: d :: rest).foldl push ⟨in_, 0, ret⟩ =
      rest.foldl push ⟨fun _ => 0, 0,
        ret ++ [a <<< 2 ||| b >>> 4, b <<< 4 ||| c >>> 2, c <<< 6 ||| d >>> 0]⟩ := by
  have quartet : [a, b, c, d].foldl push ⟨in_, 0, ret⟩ = ⟨fun _ => 0, 0,
      ret ++ [a <<< 2 ||| b >>> 4, b <<< 4 ||| c >>> 2, c <<< 6 ||| d >>> 0]⟩ := by
    simp [push, xlate, nbytes]
  rw [← quartet, ← List.foldl_append, List.cons_append, List.cons_append, List.cons_append,
    List.cons_append, List.nil_append]

end B64Decoder

theorem octet_bitsOf : ∀ byte : Byte, octet (bitsOf 8 byte) = byte := by
  decide +kernel

theorem testBit_eq_false {v : Byte} (small : v < 64) {i : Nat} (high : 6 ≤ i) :
    v.toNat.testBit i = false :=
  Nat.testBit_lt_two_pow <|
    lt_of_lt_of_le (UInt8.lt_iff_toNat_lt.mp small) (Nat.pow_le_pow_right Nat.two_pos high)

/-- A bit of a byte that was shifted to the left. -/
theorem testBit_shiftLeft_mod (n k i : Nat) :
    (n <<< k % 256).testBit i = (decide (i < 8) && (decide (k ≤ i) && n.testBit (i - k))) := by
  rw [show 256 = 2 ^ 8 from rfl, Nat.testBit_mod_two_pow, Nat.testBit_shiftLeft]

section Quartet

variable {a b c d : Byte}

theorem octet_first (small : b < 64) :
    octet (bitsOf 6 a ++ (bitsOf 6 b).take 2) = a <<< 2 ||| b >>> 4 := by
  have bits : bitsOf 8 (a <<< 2 ||| b >>> 4) = bitsOf 6 a ++ (bitsOf 6 b).take 2 := by
    simp [bitsOf, List.range_succ, testBit_shiftLeft_mod, testBit_eq_false small]
  rw [← bits, octet_bitsOf]

theorem octet_second (small : c < 64) :
    octet ((bitsOf 6 b).drop 2 ++ (bitsOf 6 c).take 4) = b <<< 4 ||| c >>> 2 := by
  have bits : bitsOf 8 (b <<< 4 ||| c >>> 2) = (bitsOf 6 b).drop 2 ++ (bitsOf 6 c).take 4 := by
    simp [bitsOf, List.range_succ, testBit_shiftLeft_mod, testBit_eq_false small]
  rw [← bits, octet_bitsOf]

theorem octet_third (small : d < 64) :
    octet ((bitsOf 6 c).drop 4 ++ bitsOf 6 d) = c <<< 6 ||| d >>> 0 := by
  have bits : bitsOf 8 (c <<< 6 ||| d >>> 0) = (bitsOf 6 c).drop 4 ++ bitsOf 6 d := by
    simp [bitsOf, List.range_succ, testBit_shiftLeft_mod, testBit_eq_false small]
  rw [← bits, octet_bitsOf]

/-- The bits of a quartet are those of the bytes that it is translated to. -/
theorem octets_quartet (smallB : b < 64) (smallC : c < 64) (smallD : d < 64) (rest : List Bool) :
    octets (bitsOf 6 a ++ (bitsOf 6 b ++ (bitsOf 6 c ++ (bitsOf 6 d ++ rest)))) =
      (a <<< 2 ||| b >>> 4) :: (b <<< 4 ||| c >>> 2) :: (c <<< 6 ||| d >>> 0) ::
        octets rest := by
  rw [← octet_first smallB, ← octet_second smallC, ← octet_third smallD]
  rfl

end Quartet

namespace B64Decoder

/-- The quartets of some values: what the loop has made of them. -/
theorem ret_foldl_push (in_ : Nat → Byte) (ret : List Byte) :
    ∀ l : List Byte, (∀ v ∈ l, v < 64) → (l.foldl push ⟨in_, 0, ret⟩).ret =
      ret ++ (octets (l.flatMap (bitsOf 6))).take (3 * (l.length / 4))
  | [], _ | [_], _ | [_, _], _ | [_, _, _], _ => by simp [push]
  | a :: b :: c :: d :: rest, small => by
      simp only [List.forall_mem_cons] at small
      rcases small with ⟨-, smallB, smallC, smallD, small⟩
      have quartets : 3 * ((rest.length + 1 + 1 + 1 + 1) / 4) = 3 * (rest.length / 4) + 3 := by
        omega
      rw [foldl_push_quartet, ret_foldl_push _ _ rest small]
      simp only [List.flatMap_cons, octets_quartet smallB smallC smallD, List.length_cons, quartets]
      rw [List.append_assoc]
      rfl

/-- Padding behind two or three values: what the loop has made of all of them. -/
theorem ret_flush (in_ : Nat → Byte) (ret : List Byte) :
    ∀ l : List Byte, (∀ v ∈ l, v < 64) → 2 ≤ l.length % 4 →
      (l.foldl push ⟨in_, 0, ret⟩).flush.ret = ret ++ octets (l.flatMap (bitsOf 6))
  | [], _, longer | [_], _, longer => by simp at longer
  | [a, b], small, _ => by
      simp only [List.forall_mem_cons] at small
      have made : ([a, b].foldl push ⟨in_, 0, ret⟩).flush.ret = ret ++ [a <<< 2 ||| b >>> 4] := by
        simp [push, flush, xlate, nbytes]
      rw [made, ← octet_first small.2.1]
      rfl
  | [a, b, c], small, _ => by
      simp only [List.forall_mem_cons] at small
      have made : ([a, b, c].foldl push ⟨in_, 0, ret⟩).flush.ret =
          ret ++ [a <<< 2 ||| b >>> 4, b <<< 4 ||| c >>> 2] := by
        simp [push, flush, xlate, nbytes]
      rw [made, ← octet_first small.2.1, ← octet_second small.2.2.1]
      rfl
  | a :: b :: c :: d :: rest, small, longer => by
      simp only [List.forall_mem_cons] at small
      rcases small with ⟨-, smallB, smallC, smallD, small⟩
      have longer' : 2 ≤ rest.length % 4 := by
        simp only [List.length_cons] at longer
        omega
      rw [foldl_push_quartet, ret_flush _ _ rest small longer']
      simp only [List.flatMap_cons, octets_quartet smallB smallC smallD]
      rw [List.append_assoc]
      rfl

/-- How many bytes there are after padding behind any number of values. -/
theorem length_ret_flush (in_ : Nat → Byte) (ret : List Byte) :
    ∀ l : List Byte, (l.foldl push ⟨in_, 0, ret⟩).flush.ret.length =
      ret.length + 3 * (l.length / 4) + nbytes.getD (l.length % 4) 0
  | [] | [_] | [_, _] | [_, _, _] => by simp [push, flush, xlate, nbytes]
  | a :: b :: c :: d :: rest => by
      have quartets : (rest.length + 1 + 1 + 1 + 1) / 4 = rest.length / 4 + 1 := by omega
      have phase : (rest.length + 1 + 1 + 1 + 1) % 4 = rest.length % 4 := by omega
      rw [foldl_push_quartet, length_ret_flush _ _ rest]
      simp only [List.length_append, List.length_cons, List.length_nil, quartets, phase]
      ring

end B64Decoder

variable {stack : Nat → Byte} {str : Text}

/-- How many whole bytes the characters encode. -/
theorem length_octets_sextets (str : Text) :
    (octets ((sextets str).flatMap (bitsOf 6))).length = 6 * (sextets str).length / 8 := by
  rw [length_octets, length_flatMap_bitsOf, Nat.mul_comm]

/-- Exactly the padded texts are decoded as they should be. -/
theorem decodes_iff (noNul : 0 ∉ str) : Decodes stack str ↔ Padded str := by
  have all := length_octets_sextets str
  unfold Decodes Padded base64Decode
  rw [B64Decoder.read_eq noNul]
  split
  · constructor
    · intro same
      have lengths := congrArg List.length same
      rw [B64Decoder.length_ret_flush, all, List.length_nil] at lengths
      have phase : (sextets str).length % 4 < 4 := Nat.mod_lt _ (by decide)
      generalize (sextets str).length = n at lengths phase ⊢
      by_contra few
      rcases (by omega : n % 4 = 0 ∨ n % 4 = 1) with here | here <;>
        · simp only [here, nbytes, List.getD_cons_zero, List.getD_cons_succ] at lengths
          omega
    · intro longer
      exact B64Decoder.ret_flush stack [] (sextets str) sextets_lt longer
  · rw [B64Decoder.ret_foldl_push stack [] (sextets str) sextets_lt, List.nil_append,
      List.take_eq_self_iff, all]
    omega

/-! ## What is encoded -/

/-- The bytes that belong to no encoded text are passed over. -/
theorem sextets_filter (str : Text) : sextets (str.filter inEncoding) = sextets str := by
  induction str with
  | nil => rfl
  | cons c rest ih =>
      by_cases padding : c = ch '='
      · have kept : inEncoding c = true := by simp [inEncoding, padding]
        rw [List.filter_cons_of_pos kept, sextets, sextets,
          List.takeWhile_cons_of_neg (by simp [padding]),
          List.takeWhile_cons_of_neg (by simp [padding])]
      · rw [sextets_cons padding]
        cases value : b64value c with
        | none =>
            have dropped : ¬inEncoding c = true := by
              simp only [inEncoding, padding, value]
              decide
            rw [List.filter_cons_of_neg dropped, ih]
            rfl
        | some v =>
            have kept : inEncoding c = true := by simp [inEncoding, value]
            rw [List.filter_cons_of_pos kept, sextets_cons padding, ih, value]

theorem padding_mem_filter : ch '=' ∈ str.filter inEncoding ↔ ch '=' ∈ str := by
  rw [List.mem_filter]
  exact and_iff_left (by decide)

theorem b64value_b64char (v : Byte) : b64value (b64char v) = some (v &&& 0x3F) := by
  have below : (v &&& 0x3F).toNat < b64dict.length := by
    rw [length_b64dict, UInt8.toNat_and]
    exact Nat.lt_succ_of_le Nat.and_le_right
  have nodup : b64dict.Nodup := by decide +kernel
  have found : b64dict.findIdx? (· = b64char v) = some (v &&& 0x3F).toNat := by
    rw [List.findIdx?_eq_some_iff_getElem]
    refine ⟨below, ?_, fun j before => ?_⟩
    · rw [b64char, List.getD_eq_getElem _ _ below]
      exact decide_eq_true rfl
    · rw [b64char, List.getD_eq_getElem _ _ below, decide_eq_true_eq]
      exact fun same => absurd ((nodup.getElem_inj_iff).mp same) before.ne
  rw [b64value, found, Option.map_some, Nat.toUInt8_eq, UInt8.ofNat_toNat]

theorem b64char_ne_padding (v : Byte) : b64char v ≠ ch '=' := by
  intro same
  have value := b64value_b64char v
  rw [same, show b64value (ch '=') = none by decide] at value
  cases value

theorem sextets_b64char (v : Byte) (rest : Text) :
    sextets (b64char v :: rest) = (v &&& 0x3F) :: sextets rest := by
  rw [sextets_cons (b64char_ne_padding v), b64value_b64char]
  rfl

theorem sextets_padding (rest : Text) : sextets (ch '=' :: rest) = [] := by
  rw [sextets, List.takeWhile_cons_of_neg (by simp)]
  rfl

/-- The six lowest bits are those of the value that is looked up. -/
theorem bitsOf_mask (v : Byte) : bitsOf 6 (v &&& 0x3F) = bitsOf 6 v := by
  have mask : ∀ i, Nat.testBit 63 i = decide (i < 6) := fun i => by
    rw [show 63 = 2 ^ 6 - 1 from rfl, Nat.testBit_two_pow_sub_one]
  simp [bitsOf, List.range_succ, mask]

section Triple

variable (a b c : Byte)

theorem testBit_above {i : Nat} (high : 8 ≤ i) : a.toNat.testBit i = false :=
  Nat.testBit_lt_two_pow (lt_of_lt_of_le a.toNat_lt (Nat.pow_le_pow_right Nat.two_pos high))

theorem bitsOf_first : bitsOf 6 (a >>> 2) = (bitsOf 8 a).take 6 := by
  simp [bitsOf, List.range_succ]

theorem bitsOf_second :
    bitsOf 6 (a <<< 4 ||| b >>> 4) = (bitsOf 8 a).drop 6 ++ (bitsOf 8 b).take 4 := by
  simp [bitsOf, List.range_succ, testBit_shiftLeft_mod, testBit_above]

theorem bitsOf_third :
    bitsOf 6 (b <<< 2 ||| c >>> 6) = (bitsOf 8 b).drop 4 ++ (bitsOf 8 c).take 2 := by
  simp [bitsOf, List.range_succ, testBit_shiftLeft_mod, testBit_above]

theorem bitsOf_fourth : bitsOf 6 c = (bitsOf 8 c).drop 2 := by
  simp [bitsOf, List.range_succ]

theorem bitsOf_second_last :
    bitsOf 6 (a <<< 4) = (bitsOf 8 a).drop 6 ++ List.replicate 4 false := by
  simp [bitsOf, List.range_succ, testBit_shiftLeft_mod]

theorem bitsOf_third_last : bitsOf 6 (b <<< 2) = (bitsOf 8 b).drop 4 ++ List.replicate 2 false := by
  simp [bitsOf, List.range_succ, testBit_shiftLeft_mod]

end Triple

/-- The two parts of a list in front of another. -/
theorem take_append_drop_append (n : Nat) (l m : List Bool) :
    l.take n ++ (l.drop n ++ m) = l ++ m := by
  rw [← List.append_assoc, List.take_append_drop]

/-- The characters of an encoded text stand for the bits of the bytes, and a few more. -/
theorem flatMap_sextets_base64Encode : ∀ x : List Byte, ∃ more : List Bool, more.length < 8 ∧
    (sextets (base64Encode x)).flatMap (bitsOf 6) = x.flatMap (bitsOf 8) ++ more
  | [] => ⟨[], by decide, rfl⟩
  | [a] => by
      refine ⟨List.replicate 4 false, by decide, ?_⟩
      rw [base64Encode, sextets_b64char, sextets_b64char, sextets_padding]
      simp only [List.flatMap_cons, List.flatMap_nil, List.append_nil, bitsOf_mask, bitsOf_first,
        bitsOf_second_last, take_append_drop_append]
  | [a, b] => by
      refine ⟨List.replicate 2 false, by decide, ?_⟩
      rw [base64Encode, sextets_b64char, sextets_b64char, sextets_b64char, sextets_padding]
      simp only [List.flatMap_cons, List.flatMap_nil, List.append_nil, bitsOf_mask, bitsOf_first,
        bitsOf_second, bitsOf_third_last, List.append_assoc, take_append_drop_append]
  | a :: b :: c :: rest => by
      rcases flatMap_sextets_base64Encode rest with ⟨more, few, behind⟩
      refine ⟨more, few, ?_⟩
      rw [base64Encode, sextets_b64char, sextets_b64char, sextets_b64char, sextets_b64char]
      simp only [List.flatMap_cons, bitsOf_mask, bitsOf_first, bitsOf_second, bitsOf_third, behind]
      rw [bitsOf_fourth]
      simp only [List.append_assoc, take_append_drop_append]

/-- The padding of an encoded text is where it should be. -/
theorem padded_base64Encode : ∀ x : List Byte, Padded (base64Encode x)
  | [] => by decide
  | [a] => by
      rw [base64Encode, Padded, if_pos (by simp), sextets_b64char, sextets_b64char,
        sextets_padding]
      exact Nat.le_refl 2
  | [a, b] => by
      rw [base64Encode, Padded, if_pos (by simp), sextets_b64char, sextets_b64char,
        sextets_b64char, sextets_padding]
      exact Nat.le_succ 2
  | a :: b :: c :: rest => by
      have behind := padded_base64Encode rest
      have member : ch '=' ∈ base64Encode (a :: b :: c :: rest) ↔ ch '=' ∈ base64Encode rest := by
        have other : ∀ v, ch '=' ≠ b64char v := fun v => (b64char_ne_padding v).symm
        simp only [base64Encode, List.mem_cons, other, false_or]
      have length : (sextets (base64Encode (a :: b :: c :: rest))).length % 4 =
          (sextets (base64Encode rest)).length % 4 := by
        rw [base64Encode, sextets_b64char, sextets_b64char, sextets_b64char, sextets_b64char]
        simp only [List.length_cons]
        omega
      unfold Padded at behind ⊢
      rw [if_congr member rfl rfl, length]
      exact behind

theorem octets_flatMap_bitsOf (x : List Byte) {more : List Bool} (few : more.length < 8) :
    octets (x.flatMap (bitsOf 8) ++ more) = x := by
  induction x with
  | nil =>
      apply List.length_eq_zero_iff.mp
      rw [List.flatMap_nil, List.nil_append, length_octets, Nat.div_eq_of_lt few]
  | cons a rest ih =>
      rw [List.flatMap_cons, List.append_assoc, octets_append (length_bitsOf 8 a), octet_bitsOf, ih]

/-- Bytes that belong to no encoded text may stand anywhere in one. -/
theorem base64Decode_of_filter (noNul : 0 ∉ str) {x : List Byte}
    (encoded : str.filter inEncoding = base64Encode x) : base64Decode stack str = x := by
  have padded : Padded str := by
    have own := padded_base64Encode x
    rw [← encoded] at own
    unfold Padded at own ⊢
    rwa [if_congr padding_mem_filter rfl rfl, sextets_filter] at own
  rcases flatMap_sextets_base64Encode x with ⟨more, few, bits⟩
  have decoded : base64Decode stack str = _ := (decodes_iff noNul).mpr padded
  rw [decoded, ← sextets_filter, encoded, bits, octets_flatMap_bitsOf x few]

theorem inEncoding_of_mem_base64Encode {c : Byte} :
    ∀ {x : List Byte}, c ∈ base64Encode x → inEncoding c = true
  | [], member => by cases member
  | [_], member | [_, _], member => by
      simp only [base64Encode, List.mem_cons, List.not_mem_nil, or_false] at member
      rcases member with rfl | rfl | rfl | rfl <;> simp [inEncoding, b64value_b64char]
  | _ :: _ :: _ :: rest, member => by
      simp only [base64Encode, List.mem_cons] at member
      rcases member with rfl | rfl | rfl | rfl | behind
      case inr.inr.inr.inr => exact inEncoding_of_mem_base64Encode behind
      all_goals simp [inEncoding, b64value_b64char]

/-- What is encoded is decoded. -/
theorem base64Decode_base64Encode (stack : Nat → Byte) (x : List Byte) :
    base64Decode stack (base64Encode x) = x := by
  have noNul : 0 ∉ base64Encode x := fun member =>
    absurd (inEncoding_of_mem_base64Encode member) (by decide)
  apply base64Decode_of_filter noNul
  exact List.filter_eq_self.mpr fun _ member => inEncoding_of_mem_base64Encode member

/-- **Base64.**  An encoded text is decoded to the bytes it was made from, whatever bytes other
than NUL and padding stand in between, and the whole bytes that the characters before the first
padding encode are what any text is decoded to, exactly if its padding is where it should be. -/
theorem base64_iff (stack : Nat → Byte) {str : Text} (noNul : 0 ∉ str) :
    (∀ x, str.filter inEncoding = base64Encode x → base64Decode stack str = x) ∧
      (Decodes stack str ↔ Padded str) :=
  ⟨fun _ encoded => base64Decode_of_filter noNul encoded, decodes_iff noNul⟩

/-- An encoded text with a line end in it. -/
theorem base64_iff_broken :
    (∀ x, (lit "QUI\nC").filter inEncoding = base64Encode x →
        base64Decode (fun _ => 0) (lit "QUI\nC") = x) ∧
      (Decodes (fun _ => 0) (lit "QUI\nC") ↔ Padded (lit "QUI\nC")) :=
  base64_iff (fun _ => 0) (by decide)

/-- Behind a whole quartet, padding makes three bytes of nothing. -/
theorem not_decodes_padded_quartet :
    base64Decode (fun _ => 0) (lit "QUJD=") = lit "ABC" ++ [0, 0, 0] ∧
      ¬Decodes (fun _ => 0) (lit "QUJD=") := by
  have bytes : base64Decode (fun _ => 0) (lit "QUJD=") = lit "ABC" ++ [0, 0, 0] := by
    decide +kernel
  refine ⟨bytes, ?_⟩
  rw [Decodes, bytes]
  decide +kernel

end Xwbot
