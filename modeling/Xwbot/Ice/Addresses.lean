import Xwbot.Ice.Decimal
import Xwbot.Ice.Pairing

/-!
# Addresses of candidates

The address of a candidate is the text of an attribute, which `x_inet_aton` takes apart with
`sscanf`, and its port is what `atoi` makes of another one.  The scanner passes over blanks and
signs, does not look at what is behind the fourth number, and nobody looks at the size of the
numbers.
-/

namespace Xwbot.Ice

open IoStream

/-! ## The scanner -/

/-- A number that does not fit `long` is cut off at its ends. -/
def clampLong (n : Int) : Int :=
  max (-2 ^ 63) (min n (2 ^ 63 - 1))

/-- The sign in front of a number, and what is behind it. -/
def scanSign : Text → Int × Text
  | [] => (1, [])
  | c :: rest =>
      if c = ch '-' then (-1, rest) else if c = ch '+' then (1, rest) else (1, c :: rest)

/-- The conversion `%d`: the number, and what is behind it. -/
def scanInt (t : Text) : Option (Int × Text) :=
  let (sign, rest) := scanSign (t.dropWhile isSpace)
  let digits := rest.takeWhile isDigit
  if digits = [] then none
  else some (clampLong (sign * atoiDigits 0 digits), rest.dropWhile isDigit)

/-- The `.` of the format. -/
def scanDot : Text → Option Text
  | [] => none
  | c :: rest => if c = ch '.' then some rest else none

/-- `sscanf(addr, "%d.%d.%d.%d", ...)`, if all four numbers are converted. -/
def scanQuad (addr : Text) : Option (Int × Int × Int × Int) := do
  let (a0, t) ← scanInt addr
  let t ← scanDot t
  let (a1, t) ← scanInt t
  let t ← scanDot t
  let (a2, t) ← scanInt t
  let t ← scanDot t
  let (a3, _) ← scanInt t
  some (a0, a1, a2, a3)

/-- The low 32 bits of a number. -/
def lowBits (a : Int) : Nat :=
  (a % 2 ^ 32).toNat

/-- `a[0] | a[1] << 8 | a[2] << 16 | a[3] << 24` -/
def sAddr (a0 a1 a2 a3 : Int) : Nat :=
  (lowBits a0 ||| lowBits a1 <<< 8 ||| lowBits a2 <<< 16 ||| lowBits a3 <<< 24) % 2 ^ 32

/-- The address in host order on a machine that stores the low bytes first. -/
def ntohl (s : Nat) : UInt32 :=
  (s % 256 * 2 ^ 24 + s / 2 ^ 8 % 256 * 2 ^ 16 + s / 2 ^ 16 % 256 * 2 ^ 8 + s / 2 ^ 24).toUInt32

/-- `x_inet_aton` -/
def xInetAton (addr : Text) : Option UInt32 :=
  (scanQuad addr).map fun (a0, a1, a2, a3) => ntohl (sAddr a0 a1 a2 a3)

/-- A platform without a function `inet_aton` of its own. -/
def Platform.withXInetAton (p : Platform) : Platform :=
  { p with inetAton := xInetAton }

/-! ## Addresses as they are written -/

/-- The text is four numbers below 256 with single dots between them. -/
def IsAddress (t : Text) (a0 a1 a2 a3 : Nat) : Prop :=
  ∃ t0 t1 t2 t3, t = t0 ++ ch '.' :: (t1 ++ ch '.' :: (t2 ++ ch '.' :: t3)) ∧
    IsNumber 255 t0 a0 ∧ IsNumber 255 t1 a1 ∧ IsNumber 255 t2 a2 ∧ IsNumber 255 t3 a3

/-- The texts are an address and a port. -/
structure Denotes (ip port : Text) (a0 a1 a2 a3 n : Nat) : Prop where
  address : IsAddress ip a0 a1 a2 a3
  port : IsNumber 65535 port n

/-- The socket address of four bytes and a port. -/
def sockAddrOf (a0 a1 a2 a3 n : Nat) : SockAddr :=
  ⟨n.toUInt16, (a0 * 2 ^ 24 + a1 * 2 ^ 16 + a2 * 2 ^ 8 + a3).toUInt32⟩

/-- A candidate with these texts has the address that they denote, which is formatted as they
are up to zeros in front; texts that denote none are rejected, and no candidate is inserted. -/
structure ParsesExactly (p : Platform) (attrs : AttrList) (ip port : Text) : Prop where
  parsed : ∀ addr, xobjToSockaddrIn p attrs = some addr ↔
    ∃ a0 a1 a2 a3 n, Denotes ip port a0 a1 a2 a3 n ∧ addr = sockAddrOf a0 a1 a2 a3 n
  formatted : ∀ a0 a1 a2 a3 n, Denotes ip port a0 a1 a2 a3 n →
    inetNtop (sockAddrOf a0 a1 a2 a3 n).addr = decimal a0 ++ lit "." ++ decimal a1 ++ lit "." ++
      decimal a2 ++ lit "." ++ decimal a3 ∧
    (sockAddrOf a0 a1 a2 a3 n).port.toNat = n
  rejected : (¬∃ a0 a1 a2 a3 n, Denotes ip port a0 a1 a2 a3 n) →
    ∀ ice name, onChildAppend p ice name attrs = .ok (ice, [])

/-- What `%d` takes: blanks, perhaps a sign, and digits. -/
def IsPiece (t : Text) : Prop :=
  ∃ blanks sign digits, t = blanks ++ (sign ++ digits) ∧ (∀ c ∈ blanks, isSpace c = true) ∧
    (sign = [] ∨ sign = [ch '-'] ∨ sign = [ch '+']) ∧ digits ≠ [] ∧
    ∀ c ∈ digits, isDigit c = true

/-- The text begins with four such pieces with dots between them. -/
def Scans (t : Text) : Prop :=
  ∃ t0 t1 t2 t3 rest, t = t0 ++ ch '.' :: (t1 ++ ch '.' :: (t2 ++ ch '.' :: (t3 ++ rest))) ∧
    IsPiece t0 ∧ IsPiece t1 ∧ IsPiece t2 ∧ IsPiece t3

/-! ## What the scanner takes -/

/-- The text does not begin with a digit. -/
def NoDigit (rest : Text) : Prop :=
  ∀ c, rest.head? = some c → isDigit c = false

theorem noDigit_dot (rest : Text) : NoDigit (ch '.' :: rest) := by
  rintro c ⟨⟩
  decide

/-- The digits in front of something else. -/
theorem digits_append {digits rest : Text} (all : ∀ c ∈ digits, isDigit c = true)
    (ends : NoDigit rest) :
    (digits ++ rest).takeWhile isDigit = digits ∧ (digits ++ rest).dropWhile isDigit = rest := by
  rw [List.takeWhile_append_of_pos all, List.dropWhile_append_of_pos all]
  cases rest with
  | nil => simp
  | cons c rest =>
      have other := ends c rfl
      rw [List.takeWhile_cons_of_neg (by simp [other]), List.dropWhile_cons_of_neg
        (by simp [other]),
        List.append_nil]
      exact ⟨rfl, rfl⟩

/-- Blanks in front of something else. -/
theorem dropBlanks {blanks t : Text} (all : ∀ c ∈ blanks, isSpace c = true)
    (begins : ∀ c, t.head? = some c → isSpace c = false) :
    (blanks ++ t).dropWhile isSpace = t := by
  rw [List.dropWhile_append_of_pos all]
  cases t with
  | nil => rfl
  | cons c t => rw [List.dropWhile_cons_of_neg (by simp [begins c rfl])]

theorem scanSign_digits {c : Byte} {rest : Text} (digit : isDigit c = true) :
    scanSign (c :: rest) = (1, c :: rest) := by
  rcases not_isSpace_of_isDigit digit with ⟨-, notMinus, notPlus⟩
  rw [scanSign, if_neg notMinus, if_neg notPlus]

/-- A piece is taken as a whole. -/
theorem scanInt_of_piece {t : Text} (piece : IsPiece t) :
    ∃ v, ∀ rest, NoDigit rest → scanInt (t ++ rest) = some (v, rest) := by
  rcases piece with ⟨blanks, sign, digits, rfl, allBlank, signs, nonempty, all⟩
  rcases List.exists_cons_of_ne_nil nonempty with ⟨d, more, rfl⟩
  have first := all d List.mem_cons_self
  have cut : ∃ s : Int, ∀ rest, scanSign ((blanks ++ (sign ++ d :: more) ++
    rest).dropWhile isSpace) =
      (s, d :: more ++ rest) := by
    rcases signs with rfl | rfl | rfl
    · refine ⟨1, fun rest => ?_⟩
      rw [List.append_assoc, dropBlanks allBlank]
      · exact scanSign_digits first
      · rintro c ⟨⟩
        exact (not_isSpace_of_isDigit first).1
    · refine ⟨-1, fun rest => ?_⟩
      rw [List.append_assoc, dropBlanks allBlank]
      · rfl
      · rintro c ⟨⟩
        decide
    · refine ⟨1, fun rest => ?_⟩
      rw [List.append_assoc, dropBlanks allBlank]
      · rfl
      · rintro c ⟨⟩
        decide
  rcases cut with ⟨s, cut⟩
  refine ⟨clampLong (s * atoiDigits 0 (d :: more)), fun rest ends => ?_⟩
  rcases digits_append all ends with ⟨taken, left⟩
  simp only [scanInt, cut, taken, left]
  rw [if_neg (List.cons_ne_nil _ _)]

/-- A piece at the end may be followed by anything. -/
theorem scanInt_isSome_of_piece {t : Text} (piece : IsPiece t) (rest : Text) :
    (scanInt (t ++ rest)).isSome := by
  have longer : IsPiece (t ++ rest.takeWhile isDigit) := by
    rcases piece with ⟨blanks, sign, digits, rfl, allBlank, signs, nonempty, all⟩
    refine ⟨blanks, sign, digits ++ rest.takeWhile isDigit, by simp, allBlank, signs,
      by simp [nonempty], ?_⟩
    intro c member
    rcases List.mem_append.mp member with member | member
    · exact all c member
    · exact List.mem_takeWhile_imp member
  have ends : NoDigit (rest.dropWhile isDigit) := by
    intro c head
    have stops := List.head?_dropWhile_not isDigit rest
    rw [head] at stops
    simpa using stops
  rcases scanInt_of_piece longer with ⟨v, taken⟩
  have result := taken _ ends
  rw [List.append_assoc, List.takeWhile_append_dropWhile] at result
  rw [result]
  rfl

/-- What is taken is a piece. -/
theorem piece_of_scanInt {t rest : Text} {v : Int} (result : scanInt t = some (v, rest)) :
    ∃ piece, t = piece ++ rest ∧ IsPiece piece := by
  have split : ∃ sign, (sign = [] ∨ sign = [ch '-'] ∨ sign = [ch '+']) ∧
      t.dropWhile isSpace = sign ++ (scanSign (t.dropWhile isSpace)).2 := by
    cases t.dropWhile isSpace with
    | nil => exact ⟨[], .inl rfl, rfl⟩
    | cons c later =>
        rw [scanSign]
        split
        · next minus => exact ⟨[c], .inr (.inl (by rw [minus])), rfl⟩
        · split
          · next plus => exact ⟨[c], .inr (.inr (by rw [plus])), rfl⟩
          · exact ⟨[], .inl rfl, rfl⟩
  rcases split with ⟨sign, signs, behind⟩
  simp only [scanInt] at result
  split at result
  · cases result
  · next nonempty =>
      cases result
      refine ⟨t.takeWhile isSpace ++ (sign ++ (scanSign (t.dropWhile isSpace)).2.takeWhile isDigit),
        ?_, t.takeWhile isSpace, sign, _, rfl, fun c => List.mem_takeWhile_imp, signs, nonempty,
        fun c => List.mem_takeWhile_imp⟩
      rw [List.append_assoc, List.append_assoc, List.takeWhile_append_dropWhile, ← behind,
        List.takeWhile_append_dropWhile]

theorem scanDot_eq_some_iff {t rest : Text} : scanDot t = some rest ↔ t = ch '.' :: rest := by
  cases t with
  | nil => simp [scanDot]
  | cons c t => by_cases dot : c = ch '.' <;> simp [scanDot, dot]

/-- **The scanner** converts all four numbers if and only if the text begins with four pieces. -/
theorem scanQuad_isSome_iff (t : Text) : (scanQuad t).isSome ↔ Scans t := by
  constructor
  · intro scanned
    rcases Option.isSome_iff_exists.mp scanned with ⟨quad, result⟩
    simp only [scanQuad, Option.bind_eq_bind, Option.bind_eq_some_iff, Prod.exists,
      scanDot_eq_some_iff] at result
    rcases result with ⟨a0, _, first, u0, rfl, a1, _, second, u1, rfl, a2, _, third, u2, rfl, a3,
      rest, fourth, -⟩
    rcases piece_of_scanInt first with ⟨t0, rfl, piece0⟩
    rcases piece_of_scanInt second with ⟨t1, rfl, piece1⟩
    rcases piece_of_scanInt third with ⟨t2, rfl, piece2⟩
    rcases piece_of_scanInt fourth with ⟨t3, rfl, piece3⟩
    exact ⟨t0, t1, t2, t3, rest, rfl, piece0, piece1, piece2, piece3⟩
  · rintro ⟨t0, t1, t2, t3, rest, rfl, piece0, piece1, piece2, piece3⟩
    rcases scanInt_of_piece piece0 with ⟨a0, first⟩
    rcases scanInt_of_piece piece1 with ⟨a1, second⟩
    rcases scanInt_of_piece piece2 with ⟨a2, third⟩
    rcases Option.isSome_iff_exists.mp (scanInt_isSome_of_piece piece3 rest) with
      ⟨⟨a3, left⟩, fourth⟩
    simp only [scanQuad, first _ (noDigit_dot _), second _ (noDigit_dot _),
      third _ (noDigit_dot _), fourth, scanDot, if_true, Option.bind_eq_bind, Option.bind_some,
      Option.isSome_some]

/-! ## Numbers -/

section Numbers

variable {bound n : Nat} {t rest : Text}

theorem IsNumber.piece (number : IsNumber bound t n) : IsPiece t :=
  ⟨[], [], t, rfl, by simp, .inl rfl, number.1, number.2.1⟩

theorem clampLong_of_lt (small : n < 2 ^ 63) : clampLong (1 * n) = n := by
  simp only [clampLong]
  omega

/-- A number below the bound is converted as it is. -/
theorem IsNumber.scanInt (number : IsNumber bound t n) (small : bound < 2 ^ 63)
    (ends : NoDigit rest) : scanInt (t ++ rest) = some ((n : Int), rest) := by
  rcases number.exists_cons with ⟨c, more, rfl, digit⟩
  rcases number with ⟨nonempty, all, value, le⟩
  have converted : atoiDigits 0 (c :: more) = n := by
    rw [atoiDigits_eq all, value, Nat.zero_mul, Nat.zero_add]
  rcases digits_append all ends with ⟨taken, left⟩
  have start : (c :: more ++ rest).dropWhile isSpace = c :: more ++ rest := by
    rw [List.cons_append, List.dropWhile_cons_of_neg]
    simp [(not_isSpace_of_isDigit digit).1]
  have unsigned : scanSign (c :: more ++ rest) = (1, c :: more ++ rest) := scanSign_digits digit
  simp only [Ice.scanInt, start, unsigned, taken, left, converted]
  rw [if_neg nonempty, clampLong_of_lt (Nat.lt_of_le_of_lt le small)]

end Numbers

section Bytes

variable {a0 a1 a2 a3 : Nat}

theorem lowBits_of_le {a : Nat} (le : a ≤ 255) : lowBits a = a := by
  simp only [lowBits]
  omega

/-- Four bytes do not meet when they are combined. -/
theorem sAddr_of_le (le0 : a0 ≤ 255) (le1 : a1 ≤ 255) (le2 : a2 ≤ 255) (le3 : a3 ≤ 255) :
    sAddr a0 a1 a2 a3 = a0 + a1 * 2 ^ 8 + a2 * 2 ^ 16 + a3 * 2 ^ 24 := by
  have first : a0 ||| a1 <<< 8 = a1 * 2 ^ 8 + a0 := by
    rw [Nat.or_comm, ← Nat.shiftLeft_add_eq_or_of_lt (by omega), Nat.shiftLeft_eq]
  have second : (a1 * 2 ^ 8 + a0) ||| a2 <<< 16 = a2 * 2 ^ 16 + (a1 * 2 ^ 8 + a0) := by
    rw [Nat.or_comm, ← Nat.shiftLeft_add_eq_or_of_lt (by omega), Nat.shiftLeft_eq]
  have third : (a2 * 2 ^ 16 + (a1 * 2 ^ 8 + a0)) ||| a3 <<< 24 =
      a3 * 2 ^ 24 + (a2 * 2 ^ 16 + (a1 * 2 ^ 8 + a0)) := by
    rw [Nat.or_comm, ← Nat.shiftLeft_add_eq_or_of_lt (by omega), Nat.shiftLeft_eq]
  rw [sAddr, lowBits_of_le le0, lowBits_of_le le1, lowBits_of_le le2, lowBits_of_le le3, first,
    second, third]
  omega

theorem ntohl_of_le (le0 : a0 ≤ 255) (le1 : a1 ≤ 255) (le2 : a2 ≤ 255) :
    ntohl (a0 + a1 * 2 ^ 8 + a2 * 2 ^ 16 + a3 * 2 ^ 24) =
      (a0 * 2 ^ 24 + a1 * 2 ^ 16 + a2 * 2 ^ 8 + a3).toUInt32 := by
  have turned : (a0 + a1 * 2 ^ 8 + a2 * 2 ^ 16 + a3 * 2 ^ 24) % 256 * 2 ^ 24 +
      (a0 + a1 * 2 ^ 8 + a2 * 2 ^ 16 + a3 * 2 ^ 24) / 2 ^ 8 % 256 * 2 ^ 16 +
      (a0 + a1 * 2 ^ 8 + a2 * 2 ^ 16 + a3 * 2 ^ 24) / 2 ^ 16 % 256 * 2 ^ 8 +
      (a0 + a1 * 2 ^ 8 + a2 * 2 ^ 16 + a3 * 2 ^ 24) / 2 ^ 24 =
      a0 * 2 ^ 24 + a1 * 2 ^ 16 + a2 * 2 ^ 8 + a3 := by
    omega
  rw [ntohl, turned]

/-- An address is formatted byte by byte. -/
theorem inetNtop_of_le (le0 : a0 ≤ 255) (le1 : a1 ≤ 255) (le2 : a2 ≤ 255) (le3 : a3 ≤ 255) :
    inetNtop (a0 * 2 ^ 24 + a1 * 2 ^ 16 + a2 * 2 ^ 8 + a3).toUInt32 =
      decimal a0 ++ lit "." ++ decimal a1 ++ lit "." ++ decimal a2 ++ lit "." ++ decimal a3 := by
  have whole : (a0 * 2 ^ 24 + a1 * 2 ^ 16 + a2 * 2 ^ 8 + a3).toUInt32.toNat =
      a0 * 2 ^ 24 + a1 * 2 ^ 16 + a2 * 2 ^ 8 + a3 :=
    UInt32.toNat_ofNat_of_lt' (by simp only [UInt32.size]; omega)
  have b0 : (a0 * 2 ^ 24 + a1 * 2 ^ 16 + a2 * 2 ^ 8 + a3) / 0x1000000 % 256 = a0 := by omega
  have b1 : (a0 * 2 ^ 24 + a1 * 2 ^ 16 + a2 * 2 ^ 8 + a3) / 0x10000 % 256 = a1 := by omega
  have b2 : (a0 * 2 ^ 24 + a1 * 2 ^ 16 + a2 * 2 ^ 8 + a3) / 0x100 % 256 = a2 := by omega
  have b3 : (a0 * 2 ^ 24 + a1 * 2 ^ 16 + a2 * 2 ^ 8 + a3) / 1 % 256 = a3 := by omega
  simp only [inetNtop, whole, b0, b1, b2, b3]

end Bytes

/-- An address is converted as it is written. -/
theorem xInetAton_of_isAddress {t : Text} {a0 a1 a2 a3 : Nat} (address : IsAddress t a0 a1 a2 a3) :
    xInetAton t = some (a0 * 2 ^ 24 + a1 * 2 ^ 16 + a2 * 2 ^ 8 + a3).toUInt32 := by
  rcases address with ⟨t0, t1, t2, t3, rfl, number0, number1, number2, number3⟩
  have small : 255 < 2 ^ 63 := by decide
  have first := number0.scanInt small (noDigit_dot (t1 ++ ch '.' :: (t2 ++ ch '.' :: t3)))
  have second := number1.scanInt small (noDigit_dot (t2 ++ ch '.' :: t3))
  have third := number2.scanInt small (noDigit_dot t3)
  have fourth : scanInt t3 = some ((a3 : Int), []) := by
    rw [← List.append_nil t3]
    exact number3.scanInt small (by rintro c ⟨⟩)
  have quad : scanQuad (t0 ++ ch '.' :: (t1 ++ ch '.' :: (t2 ++ ch '.' :: t3))) =
      some ((a0 : Int), (a1 : Int), (a2 : Int), (a3 : Int)) := by
    simp only [scanQuad, first, second, third, fourth, scanDot, if_true, Option.bind_eq_bind,
      Option.bind_some]
  have le0 := number0.2.2.2
  have le1 := number1.2.2.2
  have le2 := number2.2.2.2
  have le3 := number3.2.2.2
  rw [xInetAton, quad, Option.map_some]
  simp only
  rw [sAddr_of_le le0 le1 le2 le3, ntohl_of_le le0 le1 le2]

theorem isAddress_inetNtop (addr : UInt32) :
    IsAddress (inetNtop addr) (addr.toNat / 0x1000000 % 256) (addr.toNat / 0x10000 % 256)
      (addr.toNat / 0x100 % 256) (addr.toNat % 256) := by
  have number : ∀ n, IsNumber 255 (decimal (n % 256)) (n % 256) := by
    intro n
    rcases isNumber_decimal (n % 256) with ⟨nonempty, digits, value, -⟩
    exact ⟨nonempty, digits, value, by omega⟩
  refine ⟨_, _, _, _, ?_, number _, number _, number _, number _⟩
  simp only [inetNtop, Nat.div_one, List.append_assoc]
  rfl

/-- An address is read back from what it is written as. -/
theorem xInetAton_inetNtop (addr : UInt32) : xInetAton (inetNtop addr) = some addr := by
  have whole : addr.toNat / 0x1000000 % 256 * 2 ^ 24 + addr.toNat / 0x10000 % 256 * 2 ^ 16 +
      addr.toNat / 0x100 % 256 * 2 ^ 8 + addr.toNat % 256 = addr.toNat := by
    have below := addr.toNat_lt
    omega
  rw [xInetAton_of_isAddress (isAddress_inetNtop addr), whole]
  exact congrArg some UInt32.ofNat_toNat

theorem IsAddress.scans {t : Text} {a0 a1 a2 a3 : Nat} (address : IsAddress t a0 a1 a2 a3) :
    Scans t := by
  rcases address with ⟨t0, t1, t2, t3, rfl, number0, number1, number2, number3⟩
  exact ⟨t0, t1, t2, t3, [], by rw [List.append_nil], number0.piece, number1.piece, number2.piece,
    number3.piece⟩

/-! ## Candidates -/

section Candidates

variable {p : Platform} {attrs : AttrList} {ip port : Text}

/-- What a candidate with two texts gets for an address. -/
theorem xobjToSockaddrIn_eq (hasPort : getattr (lit "port") attrs = some port)
    (hasIp : (getattr (lit "ip") attrs).or (getattr (lit "address") attrs) = some ip) :
    xobjToSockaddrIn p.withXInetAton attrs =
      (xInetAton ip).map fun addr => ⟨(atoi port % 65536).toNat.toUInt16, addr⟩ := by
  simp only [xobjToSockaddrIn, hasPort, hasIp]
  rfl

theorem xobjToSockaddrIn_of_denotes (hasPort : getattr (lit "port") attrs = some port)
    (hasIp : (getattr (lit "ip") attrs).or (getattr (lit "address") attrs) = some ip)
    {a0 a1 a2 a3 n : Nat} (denotes : Denotes ip port a0 a1 a2 a3 n) :
    xobjToSockaddrIn p.withXInetAton attrs = some (sockAddrOf a0 a1 a2 a3 n) := by
  have le := denotes.port.2.2.2
  have number : (atoi port % 65536).toNat = n := by
    rw [denotes.port.atoi]
    omega
  rw [xobjToSockaddrIn_eq hasPort hasIp, xInetAton_of_isAddress denotes.address, Option.map_some,
    number, sockAddrOf]

/-- A candidate without an address is not inserted. -/
theorem onChildAppend_of_none (none : xobjToSockaddrIn p attrs = none) (ice : IoStream)
    (name : Text) : onChildAppend p ice name attrs = .ok (ice, []) := by
  simp only [onChildAppend, onLocalCandidate, onRemoteCandidate, none]
  split
  · rfl
  · split <;> rfl

/-- **Parsing of candidate addresses** is exact if and only if the texts are an address and a port,
or the first of them does not begin with four pieces that the scanner takes. -/
theorem parsesExactly_iff (hasPort : getattr (lit "port") attrs = some port)
    (hasIp : (getattr (lit "ip") attrs).or (getattr (lit "address") attrs) = some ip) :
    ParsesExactly p.withXInetAton attrs ip port ↔
      (∃ a0 a1 a2 a3 n, Denotes ip port a0 a1 a2 a3 n) ∨ ¬Scans ip := by
  constructor
  · intro exact
    by_cases scans : Scans ip
    · have scanned := (scanQuad_isSome_iff ip).mpr scans
      rcases Option.isSome_iff_exists.mp scanned with ⟨quad, converted⟩
      have result := xobjToSockaddrIn_eq (p := p) hasPort hasIp
      rw [xInetAton, converted, Option.map_some, Option.map_some] at result
      rcases (exact.parsed _).mp result with ⟨a0, a1, a2, a3, n, denotes, -⟩
      exact .inl ⟨a0, a1, a2, a3, n, denotes⟩
    · exact .inr scans
  · intro good
    have failed : ¬Scans ip → xobjToSockaddrIn p.withXInetAton attrs = none := by
      intro stops
      have nothing : scanQuad ip = none :=
        Option.not_isSome_iff_eq_none.mp (mt (scanQuad_isSome_iff ip).mp stops)
      rw [xobjToSockaddrIn_eq hasPort hasIp, xInetAton, nothing]
      rfl
    constructor
    case parsed =>
      intro addr
      constructor
      · intro result
        rcases good with ⟨a0, a1, a2, a3, n, denotes⟩ | stops
        · rw [xobjToSockaddrIn_of_denotes hasPort hasIp denotes, Option.some.injEq] at result
          exact ⟨a0, a1, a2, a3, n, denotes, result.symm⟩
        · rw [failed stops] at result
          cases result
      · rintro ⟨a0, a1, a2, a3, n, denotes, rfl⟩
        exact xobjToSockaddrIn_of_denotes hasPort hasIp denotes
    case formatted =>
      rintro a0 a1 a2 a3 n ⟨⟨t0, t1, t2, t3, -, number0, number1, number2, number3⟩, number⟩
      have le := number.2.2.2
      exact ⟨inetNtop_of_le number0.2.2.2 number1.2.2.2 number2.2.2.2 number3.2.2.2,
        UInt16.toNat_ofNat_of_lt' (by simp only [UInt16.size]; omega)⟩
    case rejected =>
      intro none ice name
      rcases good with denotes | stops
      · exact absurd denotes none
      · exact onChildAppend_of_none (failed stops) ice name

/-- The attributes of a candidate with an address and a port. -/
def candidateTexts (ip port : String) : AttrList :=
  [(lit "ip", lit ip), (lit "port", lit port)]

/-- The scanner does not get through a name. -/
theorem parsesExactly_iff_name :
    getattr (lit "port") (candidateTexts "localhost" "5004") = some (lit "5004") ∧
      (getattr (lit "ip") (candidateTexts "localhost" "5004")).or
        (getattr (lit "address") (candidateTexts "localhost" "5004")) = some (lit "localhost") ∧
      ParsesExactly host.withXInetAton (candidateTexts "localhost" "5004") (lit "localhost")
        (lit "5004") := by
  refine ⟨by decide, by decide, (parsesExactly_iff (by decide) (by decide)).mpr (.inr ?_)⟩
  rw [← scanQuad_isSome_iff]
  decide

/-- Text behind the fourth number is not looked at. -/
theorem not_parsesExactly_tail :
    ¬∀ (p : Platform) (attrs : AttrList) (ip port : Text),
      getattr (lit "port") attrs = some port →
      (getattr (lit "ip") attrs).or (getattr (lit "address") attrs) = some ip →
      ParsesExactly p.withXInetAton attrs ip port := by
  intro claimed
  have exact := claimed host (candidateTexts "10.0.0.1x" "5004") _ _ rfl rfl
  have result : xobjToSockaddrIn host.withXInetAton (candidateTexts "10.0.0.1x" "5004") =
      some ⟨5004, 0x0A000001⟩ := by
    decide
  rcases (exact.parsed _).mp result with
    ⟨a0, a1, a2, a3, n, ⟨⟨t0, t1, t2, t3, whole, -, -, -, number⟩, -⟩, -⟩
  have last : (t0 ++ ch '.' :: (t1 ++ ch '.' :: (t2 ++ ch '.' :: t3))).getLast? = t3.getLast? := by
    rcases List.exists_cons_of_ne_nil number.1 with ⟨c, more, rfl⟩
    simp [List.getLast?_append, List.getLast?_cons]
  have ends : t3.getLast? = some (ch 'x') := by
    rw [← last, ← whole]
    decide
  exact absurd (number.2.1 _ (List.mem_of_getLast? ends)) (by decide)

end Candidates

end Xwbot.Ice
