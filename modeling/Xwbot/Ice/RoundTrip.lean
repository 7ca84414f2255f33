import Xwbot.Ice.Response

/-!
# Building a packet and parsing it

`stun_hdr_from_packet` grows a block by one attribute after the other and keeps
its length in 16 bits.  A packet that stays below the limit is what the
encoding of its attributes says, and the parser gives the attributes back.
-/

namespace Xwbot.Ice

/-- The block of `stun_hdr_from_packet` and its two local lengths in 16 bits. -/
structure HdrBlock where
  hdr : List Byte
  mlen : Nat
  deriving DecidableEq, Repr

namespace HdrBlock

/-- One iteration of the loop over the attributes. -/
def addAttr (heap : Nat → Byte) (b : HdrBlock) (attr : StunAttr) : Except Fault HdrBlock := do
  let alen := addrlenAlign attr.data.length % 65536
  let hdr := realloc heap b.hdr (b.mlen + alen + 4)
  let hdr ← copyTo hdr b.mlen (htons attr.type)
  let hdr ← copyTo hdr (b.mlen + 2) (htons attr.data.length)
  let hdr ← copyTo hdr (b.mlen + 4) attr.data
  .ok { hdr, mlen := (b.mlen + (alen + 4)) % 65536 }

/-- The loop. -/
def addAttrs (heap : Nat → Byte) (b : HdrBlock) (attrs : List StunAttr) : Except Fault HdrBlock :=
  attrs.foldlM (addAttr heap) b

/-- The header before the loop. -/
def start : HdrBlock where
  hdr := List.replicate hdrSize 0
  mlen := hdrSize

/-- `stun_hdr_from_packet`: the block that it returns. -/
def stunHdrFromPacket (heap : Nat → Byte) (attrs : List StunAttr) : Except Fault (List Byte) := do
  let b ← start.addAttrs heap attrs
  copyTo b.hdr 2 (htons ((b.mlen + (65536 - hdrSize)) % 65536))

end HdrBlock

/-- `stun_packet_from_hdr(req, NULL)` without the fingerprint at its end. -/
def parsePacket (hmac : HmacSha1) (req : List Byte) : Except Fault StunPacket := do
  let mlen ← readU16 req 2
  let attrs ← parseAttrs hmac none req (hdrSize + mlen) (req.length + 1) hdrSize
  .ok ⟨hdrSize + mlen, attrs⟩

variable {heap : Nat → Byte} {attrs : List StunAttr} {attr : StunAttr} {b : HdrBlock}
  {hmac : HmacSha1} {hdr payload : List Byte}

theorem addrlenAlign_small (room : 4 + addrlenAlign attr.data.length < 65536) :
    addrlenAlign attr.data.length % 65536 = addrlenAlign attr.data.length :=
  Nat.mod_eq_of_lt (by omega)

namespace HdrBlock

/-- **Step lemma.**  An attribute that leaves the block below the limit is encoded at its end. -/
theorem addAttr_spec (heap : Nat → Byte) (attr : StunAttr) (length : b.mlen = b.hdr.length)
    (room : b.mlen + (4 + addrlenAlign attr.data.length) < 65536) :
    ∃ fresh, attr.data.length + fresh.length = addrlenAlign attr.data.length ∧
      b.addAttr heap attr = .ok
        { hdr := b.hdr ++ (htons attr.type ++ (htons attr.data.length ++ (attr.data ++ fresh)))
          mlen := b.mlen + (4 + addrlenAlign attr.data.length) } := by
  have fits := le_addrlenAlign attr.data.length
  have larger : b.hdr.length ≤ b.mlen + addrlenAlign attr.data.length + 4 := by
    omega
  rcases realloc_eq_append heap larger with ⟨new, grown⟩
  have size := length_realloc heap b.hdr (b.mlen + addrlenAlign attr.data.length + 4)
  rw [grown, List.length_append] at size
  have two : (htons attr.type).length ≤ new.length := by
    rw [length_htons]
    omega
  have four : (htons attr.data.length).length ≤ (new.drop 2).length := by
    rw [length_htons, List.length_drop]
    omega
  have value : attr.data.length ≤ ((new.drop 2).drop 2).length := by
    rw [List.length_drop, List.length_drop]
    omega
  have typed := copyTo_append b.hdr _ two
  have sized := copyTo_append (b.hdr ++ htons attr.type) _ four
  have valued := copyTo_append (b.hdr ++ htons attr.type ++ htons attr.data.length) _ value
  simp only [length_htons, List.length_append, List.append_assoc] at typed sized valued
  refine ⟨((new.drop 2).drop 2).drop attr.data.length, ?_, ?_⟩
  · simp only [List.length_drop]
    omega
  · rw [addAttr, addrlenAlign_small (by omega), length]
    rw [length] at grown
    rw [grown, typed, ok_bind, sized, ok_bind, valued, ok_bind]
    congr 2
    omega

/-- **Run lemma.**  The loop appends an encoding of the attributes. -/
theorem addAttrs_spec (heap : Nat → Byte) (length : b.mlen = b.hdr.length)
    (room : b.mlen + attrsSize attrs < 65536) :
    ∃ payload, Encodes attrs payload ∧
      b.addAttrs heap attrs = .ok ⟨b.hdr ++ payload, b.mlen + attrsSize attrs⟩ := by
  induction attrs generalizing b with
  | nil =>
      refine ⟨[], .nil, ?_⟩
      rw [List.append_nil]
      rfl
  | cons attr rest ih =>
      have total : attrsSize (attr :: rest) =
          4 + addrlenAlign attr.data.length + attrsSize rest := by
        simp only [attrsSize, List.map_cons, List.sum_cons]
      rw [total] at room ⊢
      rcases addAttr_spec heap attr length (by omega) with
        ⟨fresh, filled, added⟩
      rcases ih (b := ⟨b.hdr ++ (htons attr.type ++ (htons attr.data.length ++
          (attr.data ++ fresh))), b.mlen + (4 + addrlenAlign attr.data.length)⟩)
        (by
          simp only [List.length_append, length_htons]
          omega)
        (by
          dsimp only
          omega) with ⟨bytes, encodes, looped⟩
      refine ⟨_, .cons filled encodes, ?_⟩
      rw [addAttrs, List.foldlM_cons, added, ok_bind]
      unfold addAttrs at looped
      rw [looped]
      simp only [List.append_assoc, Nat.add_assoc]

/-- The message is a header of 20 bytes and the encoding of the attributes, and its length
field is the size of the encoding. -/
theorem stunHdrFromPacket_spec (heap : Nat → Byte) (room : hdrSize + attrsSize attrs < 65536) :
    ∃ payload, Encodes attrs payload ∧ stunHdrFromPacket heap attrs =
      .ok ([0, 0] ++ htons payload.length ++ List.replicate 16 0 ++ payload) := by
  rcases @addAttrs_spec attrs start heap rfl room with ⟨payload, encodes, looped⟩
  refine ⟨payload, encodes, ?_⟩
  have field : ((hdrSize + attrsSize attrs) + (65536 - hdrSize)) % 65536 = payload.length := by
    rw [encodes.length_eq]
    unfold hdrSize at room ⊢
    omega
  have fits : (htons payload.length).length ≤ (List.replicate 18 0 ++ payload).length := by
    simp
  have announced := copyTo_append [0, 0] _ fits
  rw [stunHdrFromPacket, looped, ok_bind]
  dsimp only [start]
  rw [field]
  exact announced

end HdrBlock

/-- **Round trip.**  A packet that is not larger than the limit is built, its length field is
the number of bytes behind the header, and the parser gives back its attributes. -/
theorem parsePacket_stunHdrFromPacket (types : ∀ attr ∈ attrs, attr.type < 65536)
    (room : hdrSize + attrsSize attrs ≤ 65532) :
    ∃ msg, HdrBlock.stunHdrFromPacket heap attrs = .ok msg ∧
      hdrSize + be16 msg 2 = msg.length ∧ parsePacket hmac msg = .ok ⟨msg.length, attrs⟩ := by
  rcases HdrBlock.stunHdrFromPacket_spec heap (Nat.lt_of_le_of_lt room (by decide)) with
    ⟨payload, encodes, built⟩
  have size := encodes.length_eq
  set before : List Byte := [0, 0] ++ htons payload.length ++ List.replicate 16 0 with header
  have headerSize : before.length = hdrSize := by
    simp [header, hdrSize]
  have field : be16 (before ++ payload) 2 = payload.length := by
    have announced := be16_append [0, 0] (n := payload.length) (by omega)
      (List.replicate 16 0 ++ payload)
    rw [header]
    exact announced
  have small : ∀ attr ∈ attrs, attr.type < 65536 ∧ attr.data.length < 65536 := by
    intro attr member
    refine ⟨types attr member, ?_⟩
    have part : 4 + addrlenAlign attr.data.length ≤ attrsSize attrs :=
      List.le_sum_of_mem (List.mem_map_of_mem member)
    have fits := le_addrlenAlign attr.data.length
    omega
  rcases encodes.read before small with ⟨l, read, values⟩
  rw [headerSize] at read
  refine ⟨before ++ payload, built, ?_, ?_⟩
  · rw [field, List.length_append, headerSize]
  · have looped : parseAttrs hmac none (before ++ payload) (hdrSize + payload.length)
        ((before ++ payload).length + 1) hdrSize = .ok attrs :=
      (parseAttrs_eq_ok_iff (Nat.succ_pos _) (by omega)).mpr ⟨l, read, by simp [Copied], values⟩
    have fieldRead : readU16 (before ++ payload) 2 = .ok payload.length := by
      apply readU16_eq_ok_iff.mpr
      refine ⟨?_, field.symm⟩
      rw [List.length_append, headerSize, hdrSize]
      omega
    rw [parsePacket, fieldRead, ok_bind, looped, ok_bind, List.length_append, headerSize]

/-- A value that is filled up, an empty one and one of four bytes. -/
theorem parsePacket_stunHdrFromPacket_three :
    ∃ msg, HdrBlock.stunHdrFromPacket (fun _ => 0x5A)
        [⟨stunUsername, [1, 2, 3, 4, 5]⟩, ⟨0x24, []⟩, ⟨0x8029, [6, 7, 8, 9]⟩] = .ok msg ∧
      hdrSize + be16 msg 2 = msg.length ∧
      parsePacket zeroHmac msg = .ok ⟨msg.length,
        [⟨stunUsername, [1, 2, 3, 4, 5]⟩, ⟨0x24, []⟩, ⟨0x8029, [6, 7, 8, 9]⟩]⟩ :=
  parsePacket_stunHdrFromPacket (by decide) (by decide)

end Xwbot.Ice
