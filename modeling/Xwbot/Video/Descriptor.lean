import Xwbot.Video.Reassembly

/-!
# The payload descriptor

`parse_vp8_packet` on a buffer of any length, and what it makes of the bytes that
`pack_vp8_descriptor` wrote.  The picture id is written in groups of seven bits, but read without
shifting them into place, and a picture id of zero is announced and not written.
-/

namespace Xwbot.Video

/-- `vp8_descriptor_t`, whose flags are bytes. -/
structure RawDescriptor where
  nonReferenceFrame : Byte
  fragmentationInfo : Byte
  frameBeginning : Byte
  pictureId : UInt32
  deriving DecidableEq, Repr

/-- A descriptor with flags of one and two bits. -/
def Vp8Descriptor.raw (d : Vp8Descriptor) : RawDescriptor :=
  ⟨bit d.nonReferenceFrame, d.fragmentationInfo.bits, bit d.frameBeginning, d.pictureId⟩

namespace RawDescriptor

/-- `pack_vp8_descriptor` -/
def pack (d : RawDescriptor) : Nat → List Byte
  | 0 => []
  | room + 1 =>
      (bit (d.pictureId ≠ noPictureId) <<< 4 ||| d.nonReferenceFrame <<< 3 |||
        (d.fragmentationInfo &&& 0x3) <<< 1 ||| d.frameBeginning) ::
      if d.pictureId = noPictureId then [] else packPictureId room d.pictureId.toNat

/-- The turns of the loop of `get_vp8_descriptor_size`. -/
def sizeLoop (pictureId : Nat) : Nat :=
  if 0 < pictureId then sizeLoop (pictureId / 128) + 1 else 0
termination_by pictureId

/-- `get_vp8_descriptor_size` -/
def getSize (d : RawDescriptor) : Nat :=
  if d.pictureId = noPictureId then 1 else 2 + sizeLoop (d.pictureId.toNat / 128)

/-- The loop of `parse_vp8_packet` from a position on. -/
def parseLoop (buffer : List Byte) (pictureId : UInt32) (pos : Nat) :
    Except Fault (Option (UInt32 × Nat)) :=
  if pos < buffer.length then do
    let byte ← readU8 buffer pos
    let pictureId := pictureId ||| (byte &&& 0x7F).toUInt32
    if byte &&& 0x80 ≠ 0 then parseLoop buffer pictureId (pos + 1)
    else .ok (some (pictureId, pos + 1))
  else .ok none
termination_by buffer.length - pos

/-- `parse_vp8_packet`: the descriptor and the position behind it, or nothing for `-1`. -/
def parse (buffer : List Byte) : Except Fault (Option (RawDescriptor × Nat)) :=
  if buffer.length = 0 then .ok none
  else do
    let byte ← readU8 buffer 0
    let d : RawDescriptor := ⟨if extractBits byte 1 3 ≠ 0 then 1 else 0, extractBits byte 2 1,
      if extractBits byte 1 0 ≠ 0 then 1 else 0, noPictureId⟩
    if extractBits byte 1 4 = 0 then .ok (some (d, 1))
    else do
      let parsed ← parseLoop buffer 0 1
      .ok (parsed.map fun parsed => ({ d with pictureId := parsed.1 }, parsed.2))

/-- What was written in front of any payload is read back, and has the size that was promised. -/
def RoundTrips (d : RawDescriptor) : Prop :=
  ∀ room, 6 ≤ room → ∀ payload,
    parse (d.pack room ++ payload) = .ok (some (d, (d.pack room).length)) ∧
      (d.pack room).length = d.getSize

/-- The flags fit their bits, and the picture id is absent or takes one byte. -/
def Narrow (d : RawDescriptor) : Prop :=
  d.nonReferenceFrame ≤ 1 ∧ d.fragmentationInfo ≤ 3 ∧ d.frameBeginning ≤ 1 ∧
    (d.pictureId = noPictureId ∨ 0 < d.pictureId ∧ d.pictureId < 128)

variable {d : RawDescriptor} {buffer : List Byte}

theorem pack_raw (d : Vp8Descriptor) (room : Nat) : d.raw.pack room = packVp8Descriptor d room := by
  cases room <;> rfl

/-- The loop reads no byte behind the buffer. -/
theorem parseLoop_eq (buffer : List Byte) (pictureId : UInt32) (pos : Nat) :
    parseLoop buffer pictureId pos =
      .ok ((parsePictureId pictureId (buffer.drop pos)).map fun parsed =>
        (parsed.1, pos + parsed.2)) := by
  induction pictureId, pos using parseLoop.induct buffer with
  | case1 pictureId pos before ih =>
      have read : readU8 buffer pos = .ok buffer[pos] :=
        readU8_eq_ok_iff.mpr (List.getElem?_eq_getElem before)
      rw [parseLoop, if_pos before, read, ok_bind, List.drop_eq_getElem_cons before,
        parsePictureId]
      dsimp only
      split
      · have behind := ih buffer[pos]
        dsimp only at behind
        rw [behind, Option.map_map]
        congr 3
        funext parsed
        rw [Function.comp_apply, Nat.add_right_comm, Nat.add_assoc]
      · rfl
  | case2 pictureId pos behind =>
      rw [parseLoop, if_neg behind, List.drop_of_length_le (Nat.not_lt.mp behind)]
      rfl

/-- The flags that are read from a first byte. -/
def ofByte (byte : Byte) (pictureId : UInt32) : RawDescriptor :=
  ⟨if extractBits byte 1 3 ≠ 0 then 1 else 0, extractBits byte 2 1,
    if extractBits byte 1 0 ≠ 0 then 1 else 0, pictureId⟩

theorem parse_cons (byte : Byte) (rest : List Byte) : parse (byte :: rest) =
    .ok (if extractBits byte 1 4 = 0 then some (ofByte byte noPictureId, 1)
      else (parsePictureId 0 rest).map fun parsed => (ofByte byte parsed.1, 1 + parsed.2)) := by
  have read : readU8 (byte :: rest) 0 = .ok byte := rfl
  rw [parse, List.length_cons, if_neg (Nat.add_one_ne_zero _), read, ok_bind]
  dsimp only
  split
  · rfl
  · rw [parseLoop_eq, ok_bind, List.drop_succ_cons, List.drop_zero, Option.map_map]
    rfl

theorem bits_fragInfo : ∀ byte : Byte, (fragInfo byte).bits = extractBits byte 2 1 := by
  decide +kernel

/-- The parser on the positions of a buffer is the one on its bytes. -/
theorem parse_eq (buffer : List Byte) :
    parse buffer = .ok ((parseVp8Packet buffer).map fun parsed => (parsed.1.raw, parsed.2)) := by
  cases buffer with
  | nil => rfl
  | cons byte rest =>
      have flags : ∀ pictureId, ofByte byte pictureId =
          (⟨extractBits byte 1 3 ≠ 0, fragInfo byte, extractBits byte 1 0 ≠ 0, pictureId⟩ :
            Vp8Descriptor).raw := fun pictureId => by
        simp only [ofByte, Vp8Descriptor.raw, bits_fragInfo, bit, decide_eq_true_eq]
      rw [parse_cons, parseVp8Packet]
      dsimp only
      by_cases announced : extractBits byte 1 4 = 0
      · rw [if_pos announced, if_neg (not_not_intro announced), flags]
        rfl
      · rw [if_neg announced, if_pos announced, Option.map_map]
        congr 2
        funext parsed
        rw [flags, Function.comp_apply, Nat.add_comm]

/-- **Every read is inside the buffer.** -/
theorem exists_parse (buffer : List Byte) : ∃ result, parse buffer = .ok result :=
  ⟨_, parse_eq buffer⟩

/-- Groups of seven bits that are not shifted make a small number. -/
theorem parsePictureId_lt {start pictureId : UInt32} {size : Nat} {bytes : List Byte}
    (small : start < 128) (parsed : parsePictureId start bytes = some (pictureId, size)) :
    pictureId < 128 := by
  induction bytes generalizing start pictureId size with
  | nil => cases parsed
  | cons byte rest ih =>
      have next : start ||| (byte &&& 0x7F).toUInt32 < 128 := by
        have low : (byte &&& 0x7F).toUInt32.toNat < 2 ^ 7 := by
          rw [UInt8.toNat_toUInt32, UInt8.toNat_and]
          exact @Nat.and_lt_two_pow byte.toNat 127 7 (by decide)
        rw [UInt32.lt_iff_toNat_lt, UInt32.toNat_or]
        exact Nat.or_lt_two_pow (UInt32.lt_iff_toNat_lt.mp small) low
      rw [parsePictureId] at parsed
      split at parsed
      · rcases Option.map_eq_some_iff.mp parsed with ⟨⟨inner, size'⟩, found, same⟩
        cases same
        exact ih next found
      · cases parsed
        exact next

theorem ofByte_of_bits : ∀ present : Bool, ∀ n < 2, ∀ f < 4, ∀ b < 2,
    let byte : Byte := bit present <<< 4 ||| n.toUInt8 <<< 3 ||| (f.toUInt8 &&& 0x3) <<< 1 |||
      b.toUInt8
    ofByte byte 0 = ⟨n.toUInt8, f.toUInt8, b.toUInt8, 0⟩ ∧
      (extractBits byte 1 4 = 0 ↔ present = false) := by
  decide +kernel

/-- The first byte of flags that fit, as it is read. -/
theorem Narrow.ofByte (narrow : d.Narrow) (present : Bool) (pictureId : UInt32) :
    let byte := bit present <<< 4 ||| d.nonReferenceFrame <<< 3 |||
      (d.fragmentationInfo &&& 0x3) <<< 1 ||| d.frameBeginning
    ofByte byte pictureId = { d with pictureId := pictureId } ∧
      (extractBits byte 1 4 = 0 ↔ present = false) := by
  rcases narrow with ⟨nonReference, fragmentation, beginning, -⟩
  have bits := ofByte_of_bits present
    d.nonReferenceFrame.toNat (Nat.lt_succ_of_le (UInt8.le_iff_toNat_le.mp nonReference))
    d.fragmentationInfo.toNat (Nat.lt_succ_of_le (UInt8.le_iff_toNat_le.mp fragmentation))
    d.frameBeginning.toNat (Nat.lt_succ_of_le (UInt8.le_iff_toNat_le.mp beginning))
  simp only [Nat.toUInt8_eq, UInt8.ofNat_toNat] at bits
  refine ⟨?_, bits.2⟩
  rcases RawDescriptor.mk.inj bits.1 with ⟨flag, info, first, -⟩
  rw [RawDescriptor.ofByte, flag, info, first]

/-- Flags that were read fit their bits. -/
theorem ofByte_fits (byte : Byte) (pictureId : UInt32) :
    (ofByte byte pictureId).nonReferenceFrame ≤ 1 ∧ (ofByte byte pictureId).fragmentationInfo ≤ 3 ∧
      (ofByte byte pictureId).frameBeginning ≤ 1 := by
  have info : ∀ byte : Byte, extractBits byte 2 1 ≤ 3 := by decide +kernel
  refine ⟨?_, info byte, ?_⟩
  · change (if extractBits byte 1 3 ≠ 0 then (1 : Byte) else 0) ≤ 1
    split <;> decide
  · change (if extractBits byte 1 0 ≠ 0 then (1 : Byte) else 0) ≤ 1
    split <;> decide

theorem sizeLoop_zero : sizeLoop 0 = 0 := by
  rw [sizeLoop, if_neg (Nat.lt_irrefl 0)]

/-- A picture id of one byte. -/
theorem packPictureId_small {n : Nat} (positive : 0 < n) (small : n < 128) (room : Nat) :
    packPictureId (room + 1) n = [n.toUInt8] := by
  have last : packPictureId room 0 = [] := by cases room <;> rfl
  rw [packPictureId, if_pos positive, Nat.div_eq_of_lt small, Nat.mod_eq_of_lt small, last]
  rfl

theorem parsePictureId_one {pictureId : UInt32} (small : pictureId < 128) (payload : List Byte) :
    parsePictureId 0 (pictureId.toNat.toUInt8 :: payload) = some (pictureId, 1) := by
  have bits : ∀ n < 128, n.toUInt8 &&& 0x80 = 0 ∧
      (0 ||| (n.toUInt8 &&& 0x7F).toUInt32) = n.toUInt32 := by
    decide +kernel
  rcases bits pictureId.toNat (UInt32.lt_iff_toNat_lt.mp small) with ⟨ends, value⟩
  rw [parsePictureId, if_neg (by rw [ends]; decide), value, Nat.toUInt32_eq, UInt32.ofNat_toNat]

theorem Narrow.roundTrips (narrow : d.Narrow) : d.RoundTrips := by
  intro room six payload
  obtain ⟨more, rfl⟩ : ∃ more, room = more + 1 + 1 := ⟨room - 2, by omega⟩
  rcases narrow.2.2.2 with absent | ⟨positive, small⟩
  · rcases narrow.ofByte false noPictureId with ⟨flags, announced⟩
    have packed : d.pack (more + 1 + 1) = [bit false <<< 4 ||| d.nonReferenceFrame <<< 3 |||
        (d.fragmentationInfo &&& 0x3) <<< 1 ||| d.frameBeginning] := by
      simp [pack, absent]
    rw [packed, List.singleton_append, parse_cons, if_pos (announced.mpr rfl), flags, ← absent,
      getSize, if_pos absent]
    exact ⟨rfl, rfl⟩
  · have present : d.pictureId ≠ noPictureId := by
      intro absent
      rw [absent] at small
      exact absurd small (by decide)
    rcases narrow.ofByte true d.pictureId with ⟨flags, announced⟩
    have packed : d.pack (more + 1 + 1) = [bit true <<< 4 ||| d.nonReferenceFrame <<< 3 |||
        (d.fragmentationInfo &&& 0x3) <<< 1 ||| d.frameBeginning, d.pictureId.toNat.toUInt8] := by
      rw [pack, if_neg present, packPictureId_small (UInt32.lt_iff_toNat_lt.mp positive)
        (UInt32.lt_iff_toNat_lt.mp small)]
      simp [present]
    have size : d.getSize = 2 := by
      have below : d.pictureId.toNat < 128 := UInt32.lt_iff_toNat_lt.mp small
      rw [getSize, if_neg present, Nat.div_eq_of_lt below, sizeLoop_zero]
    rw [packed, size, List.cons_append, List.singleton_append, parse_cons,
      if_neg fun zero => Bool.noConfusion (announced.mp zero), parsePictureId_one small,
      Option.map_some, flags]
    exact ⟨rfl, rfl⟩

theorem RoundTrips.narrow (roundTrips : d.RoundTrips) : d.Narrow := by
  have read := (roundTrips 6 (Nat.le_refl 6) []).1
  rw [List.append_nil, pack, parse_cons, Except.ok.injEq] at read
  split at read
  · rcases Prod.mk.inj (Option.some.inj read) with ⟨same, -⟩
    rcases ofByte_fits (bit (d.pictureId ≠ noPictureId) <<< 4 ||| d.nonReferenceFrame <<< 3 |||
      (d.fragmentationInfo &&& 0x3) <<< 1 ||| d.frameBeginning) noPictureId with
      ⟨flag, info, first⟩
    rw [same] at flag info first
    have absent := congrArg pictureId same
    exact ⟨flag, info, first, .inl absent.symm⟩
  · rcases Option.map_eq_some_iff.mp read with ⟨⟨pictureId, size⟩, parsed, both⟩
    rcases Prod.mk.inj both with ⟨same, -⟩
    rcases ofByte_fits (bit (d.pictureId ≠ noPictureId) <<< 4 ||| d.nonReferenceFrame <<< 3 |||
      (d.fragmentationInfo &&& 0x3) <<< 1 ||| d.frameBeginning) pictureId with
      ⟨flag, info, first⟩
    rw [same] at flag info first
    have own : pictureId = d.pictureId := congrArg RawDescriptor.pictureId same
    subst own
    refine ⟨flag, info, first, .inr ⟨?_, parsePictureId_lt (by decide) parsed⟩⟩
    rw [UInt32.lt_iff_toNat_lt]
    refine Nat.pos_of_ne_zero fun zero => ?_
    -- a picture id of zero is not written
    have nothing : packPictureId 5 d.pictureId.toNat = [] := by rw [zero]; rfl
    rw [nothing, ite_self] at parsed
    cases parsed

/-- **The payload descriptor.**  The parser stays inside every buffer, and a descriptor is read
back with the size it was written in exactly if its flags fit and its picture id is absent or
between 1 and 127. -/
theorem descriptor_iff (d : RawDescriptor) :
    (∀ buffer, ∃ result, parse buffer = .ok result) ∧ (d.RoundTrips ↔ d.Narrow) :=
  ⟨exists_parse, RoundTrips.narrow, Narrow.roundTrips⟩

/-- The picture id 300 is read as 46, and the picture id 0 is not read at all. -/
theorem not_roundTrips_wide :
    parse ((⟨0, 0, 1, 300⟩ : RawDescriptor).pack 6) = .ok (some (⟨0, 0, 1, 46⟩, 3)) ∧
      parse ((⟨0, 0, 1, 0⟩ : RawDescriptor).pack 6) = .ok none ∧
      ¬(⟨0, 0, 1, 300⟩ : RawDescriptor).RoundTrips ∧
        ¬(⟨0, 0, 1, 0⟩ : RawDescriptor).RoundTrips := by
  refine ⟨?_, ?_, fun all => ?_, fun all => ?_⟩
  · rw [pack, parse_cons]
    decide +kernel
  · rw [pack, parse_cons]
    decide +kernel
  · exact absurd all.narrow.2.2.2 (by decide)
  · exact absurd all.narrow.2.2.2 (by decide)

end RawDescriptor

end Xwbot.Video
