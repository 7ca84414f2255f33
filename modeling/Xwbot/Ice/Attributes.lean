import Xwbot.Ice.Stun

/-!
# What STUN packets are parsed

`Attrs` is the grammar of the attributes of a packet that lie inside the bytes
it was received in.  The parser succeeds exactly on the packets that follow it
and whose copies fit the array on the stack, and the same goes for the
responder.
-/

namespace Xwbot.Ice

variable {hmac : HmacSha1} {crcTab : CrcTab} {heap : Nat → Byte} {key : Option Text}
  {d pkt : List Byte} {stop ptr next fuel n : Nat} {l : List (Nat × StunAttr)} {attr : StunAttr}
  {attrs : List StunAttr}

/-! ## Attributes inside a packet -/

/-- The attributes from `ptr` to `stop`, each with its offset.  All of them lie inside the
bytes; the last one may reach behind `stop`. -/
inductive Attrs (d : List Byte) (stop : Nat) : Nat → List (Nat × StunAttr) → Prop where
  | done {ptr : Nat} (reached : stop ≤ ptr) : Attrs d stop ptr []
  | attr {ptr : Nat} {rest : List (Nat × StunAttr)} (here : ptr < stop)
      (inside : ptr + 4 + be16 d (ptr + 2) ≤ d.length)
      (later : Attrs d stop (ptr + 4 + addrlenAlign (be16 d (ptr + 2))) rest) :
      Attrs d stop ptr
        ((ptr, ⟨be16 d ptr, slice d (ptr + 4) (be16 d (ptr + 2))⟩) :: rest)

/-- What precedes a MESSAGE-INTEGRITY attribute fits the array that it is copied to. -/
def Copied (key : Option Text) (l : List (Nat × StunAttr)) : Prop :=
  key.isSome → ∀ a ∈ l, a.2.type = stunMsgIntegrity → a.1 ≤ tdataSize

theorem le_addrlenAlign (n : Nat) : n ≤ addrlenAlign n := by
  unfold addrlenAlign
  omega

theorem addrlenAlign_le (n : Nat) : addrlenAlign n ≤ n + 3 := by
  unfold addrlenAlign
  omega

/-- The bytes determine the attributes. -/
theorem Attrs.unique {l' : List (Nat × StunAttr)} (first : Attrs d stop ptr l)
    (second : Attrs d stop ptr l') : l = l' := by
  induction first generalizing l' with
  | done reached =>
      cases second with
      | done => rfl
      | attr here => exact absurd here (Nat.not_lt.mpr reached)
  | attr here inside later ih =>
      cases second with
      | done reached => exact absurd here (Nat.not_lt.mpr reached)
      | attr _ _ later' => rw [ih later']

/-- Every value is part of the bytes. -/
theorem Attrs.isInfix (attributes : Attrs d stop ptr l) : ∀ a ∈ l, a.2.data <:+: d := by
  induction attributes with
  | done => simp
  | attr here inside later ih =>
      intro a member
      rcases List.mem_cons.mp member with rfl | member
      · exact slice_isInfix d _ _
      · exact ih a member

/-- Only the filling of the last value may lie behind the bytes. -/
theorem Attrs.stop_le (attributes : Attrs d stop ptr l) :
    stop ≤ ptr ∨ stop ≤ d.length + 3 := by
  induction attributes with
  | done reached => exact .inl reached
  | attr here inside later ih =>
      rename_i ptr rest
      have := addrlenAlign_le (be16 d (ptr + 2))
      omega

/-! ## The parser -/

theorem copyTdata_eq_ok_iff {bytes : List Byte} :
    copyTdata pkt n = .ok bytes ↔ n ≤ tdataSize ∧ n ≤ pkt.length ∧ bytes = pkt.take n := by
  unfold copyTdata
  split
  · rename_i fits
    rw [readBytes_eq_ok_iff, Nat.zero_add]
    simp [fits, slice]
  · rename_i large
    simp [large]

theorem checkIntegrity_eq_ok_iff (inside : ptr ≤ d.length) :
    checkIntegrity hmac key d n ptr = .ok () ↔
      (key.isSome → n = stunMsgIntegrity → ptr ≤ tdataSize) := by
  unfold checkIntegrity
  split
  · rename_i integrity
    rw [bind_eq_ok_iff]
    constructor
    · rintro ⟨tdata, copied, -⟩ _ _
      exact (copyTdata_eq_ok_iff.mp copied).1
    · intro fits
      exact ⟨_, copyTdata_eq_ok_iff.mpr ⟨fits integrity.2 integrity.1, inside, rfl⟩, rfl⟩
  · rename_i other
    simp only [true_iff]
    intro keyed integrity
    exact absurd ⟨integrity, keyed⟩ other

theorem parseAttr_eq_ok_iff :
    parseAttr hmac key d ptr = .ok (attr, next) ↔
      ptr + 4 + be16 d (ptr + 2) ≤ d.length ∧
      (key.isSome → be16 d ptr = stunMsgIntegrity → ptr ≤ tdataSize) ∧
      attr = ⟨be16 d ptr, slice d (ptr + 4) (be16 d (ptr + 2))⟩ ∧
      next = ptr + 4 + addrlenAlign (be16 d (ptr + 2)) := by
  unfold parseAttr
  constructor
  · intro result
    obtain ⟨type, typeRead, result⟩ := bind_eq_ok_iff.mp result
    obtain ⟨start, rfl⟩ := readU16_eq_ok_iff.mp typeRead
    obtain ⟨⟨⟩, checked, result⟩ := bind_eq_ok_iff.mp result
    obtain ⟨len, lenRead, result⟩ := bind_eq_ok_iff.mp result
    obtain ⟨-, rfl⟩ := readU16_eq_ok_iff.mp lenRead
    obtain ⟨data, dataRead, result⟩ := bind_eq_ok_iff.mp result
    obtain ⟨inside, rfl⟩ := readBytes_eq_ok_iff.mp dataRead
    cases result
    exact ⟨inside, (checkIntegrity_eq_ok_iff (by omega)).mp checked, rfl, rfl⟩
  · rintro ⟨inside, copied, rfl, rfl⟩
    have typeRead : readU16 d ptr = .ok (be16 d ptr) :=
      readU16_eq_ok_iff.mpr ⟨by omega, rfl⟩
    have lenRead : readU16 d (ptr + 2) = .ok (be16 d (ptr + 2)) :=
      readU16_eq_ok_iff.mpr ⟨by omega, rfl⟩
    have dataRead := readBytes_eq_ok_iff.mpr ⟨inside, rfl⟩
    have start : ptr ≤ d.length := by omega
    have checked : checkIntegrity hmac key d (be16 d ptr) ptr = .ok () :=
      (checkIntegrity_eq_ok_iff start).mpr copied
    rw [typeRead, ok_bind, checked, ok_bind, lenRead, ok_bind, dataRead, ok_bind]

/-- The loop succeeds exactly if all attributes lie inside the bytes. -/
theorem parseAttrs_eq_ok_iff (some_fuel : 0 < fuel) (enough : d.length < fuel + ptr) :
    parseAttrs hmac key d stop fuel ptr = .ok attrs ↔
      ∃ l, Attrs d stop ptr l ∧ Copied key l ∧ l.map Prod.snd = attrs := by
  induction fuel generalizing ptr attrs with
  | zero => exact absurd some_fuel (Nat.lt_irrefl 0)
  | succ fuel ih =>
      rw [parseAttrs]
      split
      · rename_i here
        constructor
        · intro result
          obtain ⟨⟨attr, next⟩, parsed, result⟩ := bind_eq_ok_iff.mp result
          obtain ⟨inside, copied, rfl, rfl⟩ := parseAttr_eq_ok_iff.mp parsed
          obtain ⟨rest, parsed, result⟩ := bind_eq_ok_iff.mp result
          obtain ⟨l, later, more, rfl⟩ := (ih (by omega) (by omega)).mp parsed
          cases result
          refine ⟨_, .attr here inside later, ?_, rfl⟩
          intro keyed a member integrity
          rcases List.mem_cons.mp member with rfl | member
          · exact copied keyed integrity
          · exact more keyed a member integrity
        · rintro ⟨l, attributes, copied, rfl⟩
          cases attributes with
          | done reached => exact absurd here (Nat.not_lt.mpr reached)
          | attr _ inside later =>
              have parsed := @parseAttr_eq_ok_iff hmac key d ptr _ _ |>.mpr
                ⟨inside, fun keyed integrity => copied keyed _ List.mem_cons_self integrity,
                  rfl, rfl⟩
              have rest := (ih (by omega) (by omega)).mpr
                ⟨_, later, fun keyed a member => copied keyed a (List.mem_cons_of_mem _ member),
                  rfl⟩
              rw [parsed, ok_bind]
              dsimp only
              rw [rest, ok_bind, List.map_cons]
      · rename_i reached
        constructor
        · intro result
          cases result
          exact ⟨[], .done (Nat.not_lt.mp reached), by simp [Copied], rfl⟩
        · rintro ⟨l, attributes, -, rfl⟩
          cases attributes with
          | done => rfl
          | attr here => exact absurd here reached

theorem stunGetFingerprint_isOk_iff :
    (∃ crc, stunGetFingerprint crcTab pkt = .ok crc) ↔
      4 ≤ pkt.length ∧ 8 ≤ (be16 pkt 2 + hdrSize) % 65536 ∧
      (be16 pkt 2 + hdrSize) % 65536 ≤ tdataSize + 8 ∧
      (be16 pkt 2 + hdrSize) % 65536 ≤ pkt.length + 8 := by
  constructor
  · rintro ⟨crc, result⟩
    rw [stunGetFingerprint] at result
    obtain ⟨field, fieldRead, result⟩ := bind_eq_ok_iff.mp result
    obtain ⟨inside, rfl⟩ := readU16_eq_ok_iff.mp fieldRead
    dsimp only at result
    split at result
    · cases result
    · obtain ⟨tdata, copied, -⟩ := bind_eq_ok_iff.mp result
      obtain ⟨fits, within, -⟩ := copyTdata_eq_ok_iff.mp copied
      omega
  · rintro ⟨inside, large, fits, within⟩
    have fieldRead : readU16 pkt 2 = .ok (be16 pkt 2) := readU16_eq_ok_iff.mpr ⟨inside, rfl⟩
    have copied : copyTdata pkt ((be16 pkt 2 + hdrSize) % 65536 - 8) = .ok _ :=
      copyTdata_eq_ok_iff.mpr ⟨by omega, by omega, rfl⟩
    rw [stunGetFingerprint, fieldRead, ok_bind]
    dsimp only
    rw [if_neg (Nat.not_lt.mpr large), copied, ok_bind]
    exact ⟨_, rfl⟩

/-- The datagrams that are parsed without leaving them. -/
def Parsable (req : Datagram) (key : Option Text) (l : List (Nat × StunAttr)) : Prop :=
  12 ≤ req.bytes.length ∧ be16 req.bytes 2 ≤ tdataSize - 12 ∧
    Attrs req.bytes (hdrSize + be16 req.bytes 2) hdrSize l ∧ Copied key l

theorem stunPacketFromHdr_eq_ok_iff {req : Datagram} {packet : StunPacket} :
    stunPacketFromHdr hmac crcTab req key = .ok packet ↔
      ∃ l, Parsable req key l ∧ packet = ⟨hdrSize + be16 req.bytes 2, l.map Prod.snd⟩ := by
  have fits := req.fits
  have small := be16_lt req.bytes 2
  constructor
  · intro result
    rw [stunPacketFromHdr] at result
    obtain ⟨mlen, mlenRead, result⟩ := bind_eq_ok_iff.mp result
    obtain ⟨-, rfl⟩ := readU16_eq_ok_iff.mp mlenRead
    obtain ⟨attrs, parsed, result⟩ := bind_eq_ok_iff.mp result
    obtain ⟨crc, summed, result⟩ := bind_eq_ok_iff.mp result
    obtain ⟨l, attributes, copied, rfl⟩ :=
      (parseAttrs_eq_ok_iff (Nat.succ_pos _) (by omega)).mp parsed
    obtain ⟨-, -, copy, within⟩ := stunGetFingerprint_isOk_iff.mp ⟨crc, summed⟩
    have stops := attributes.stop_le
    cases result
    simp only [hdrSize, tdataSize] at copy within stops ⊢
    refine ⟨l, ⟨?_, ?_, attributes, copied⟩, rfl⟩
    · omega
    · rw [tdataSize]
      omega
  · rintro ⟨l, ⟨header, short, attributes, copied⟩, rfl⟩
    have stops := attributes.stop_le
    simp only [hdrSize, tdataSize] at short stops
    have mlenRead : readU16 req.bytes 2 = .ok (be16 req.bytes 2) :=
      readU16_eq_ok_iff.mpr ⟨by omega, rfl⟩
    have parsed : parseAttrs hmac key req.bytes (hdrSize + be16 req.bytes 2)
        (req.bytes.length + 1) hdrSize = .ok (l.map Prod.snd) :=
      (parseAttrs_eq_ok_iff (Nat.succ_pos _) (by omega)).mpr ⟨l, attributes, copied, rfl⟩
    have summed : ∃ crc, stunGetFingerprint crcTab req.bytes = .ok crc := by
      apply stunGetFingerprint_isOk_iff.mpr
      simp only [hdrSize, tdataSize]
      omega
    obtain ⟨crc, summed⟩ := summed
    rw [stunPacketFromHdr, mlenRead, ok_bind, parsed, ok_bind, summed, ok_bind]

end Xwbot.Ice
