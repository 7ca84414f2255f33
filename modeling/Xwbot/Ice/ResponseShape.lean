import Xwbot.Ice.Response

/-!
# The shape of a response

The responder writes the length field three times: behind the first attributes,
for the signature and for the fingerprint.  The two sums are taken in between,
and a peer that checks them has to put back the length that the field had.
-/

namespace Xwbot.Ice

/-- `ntohl(*(uint32_t *) (buf + i))` -/
def readU32 (l : List Byte) (i : Nat) : Except Fault Nat :=
  if i + 4 ≤ l.length then .ok (be32 l i) else .error .overread

/-- `stun_from_x_mapped`: the fields of `*dst`. -/
def stunFromXMapped (src : List Byte) : Except Fault SockAddr := do
  let port ← readU16 src 2
  let ip ← readU32 src 4
  .ok ⟨port.toUInt16 ^^^ 0x2112, ip.toUInt32 ^^^ stunMCookie⟩

/-- The size of the response to a request with these attributes. -/
def responseSize (saddr : SockAddr) (attrs : List StunAttr) : Nat :=
  hdrSize + attrsSize (responseAttrs saddr attrs) + 24 + 8

/-- The message is a response as a peer reads it: the header with its length, and the
attributes in their order.  The signature is the digest of what precedes it, under the length
that ends behind it, and the fingerprint is the sum of what precedes it. -/
structure Shaped (hmac : HmacSha1) (crcTab : CrcTab) (stunKey : Text) (req : List Byte)
    (saddr : SockAddr) (username : Option StunAttr) (msg : List Byte) : Prop where
  type : be16 msg 0 = stunResp
  size : hdrSize + be16 msg 2 = msg.length
  cookie : be32 msg 4 = stunMCookie.toNat
  transId : slice msg 8 12 = slice req 8 12
  attributes : ∃ ptr mapped l, Attrs msg msg.length hdrSize
      (l ++ [(ptr, ⟨stunMsgIntegrity,
          (hmac stunKey (setMlen (msg.take ptr) (ptr + 24 - hdrSize))).bytes⟩),
        (ptr + 24, ⟨stunFingerprint,
          htonl (chksumCrc32 crcTab (msg.take (ptr + 24)) ^^^ stunFingerprintXor).toNat⟩)]) ∧
    l.map Prod.snd = ⟨stunXMappedAddress, mapped⟩ :: username.toList ∧
    stunFromXMapped mapped = .ok saddr

variable {hmac : HmacSha1} {crcTab : CrcTab} {heap : Nat → Byte} {stunKey : Text}
  {req : Datagram} {saddr : SockAddr} {hdr hdr' : StunHdr} {attrs : List StunAttr}
  {l : List (Nat × StunAttr)} {pkt : List Byte} {crc : UInt32}

/-! ## The mapped address -/

theorem htonl_eq (n : Nat) : htonl n = htons (n / 65536) ++ htons (n % 65536) := by
  have byte : ∀ a b : Nat, a % 256 = b % 256 → a.toUInt8 = b.toUInt8 := by
    intro a b same
    apply UInt8.toNat_inj.mp
    simp only [Nat.toUInt8_eq, UInt8.toNat_ofNat']
    exact same
  simp only [htonl, htons, List.cons_append, List.nil_append]
  rw [byte (n / 65536 / 256) (n / 16777216) (by omega), byte (n % 65536 / 256) (n / 256) (by omega),
    byte (n % 65536) n (by omega)]

theorem be32_append (before : List Byte) {n : Nat} (small : n < 4294967296) (behind : List Byte) :
    be32 (before ++ (htonl n ++ behind)) before.length = n := by
  have high := be16_append before (n := n / 65536) (by omega) (htons (n % 65536) ++ behind)
  have low := be16_append (before ++ htons (n / 65536)) (n := n % 65536) (by omega) behind
  rw [List.length_append, length_htons, List.append_assoc] at low
  rw [htonl_eq, List.append_assoc, be32, high, low]
  omega

/-- The address that is mapped is read back. -/
theorem stunFromXMapped_stunXMapped : stunFromXMapped (stunXMapped saddr) = .ok saddr := by
  have port : readU16 (stunXMapped saddr) 2 = .ok (saddr.port ^^^ 0x2112).toNat := by
    apply readU16_eq_ok_iff.mpr
    refine ⟨by simp [stunXMapped], ?_⟩
    have read := be16_append [0, 1] (saddr.port ^^^ 0x2112).toNat_lt
      (htonl (saddr.addr ^^^ stunMCookie).toNat)
    rw [stunXMapped, List.append_assoc]
    exact read.symm
  have ip : readU32 (stunXMapped saddr) 4 = .ok (saddr.addr ^^^ stunMCookie).toNat := by
    have read := be32_append ([0, 1] ++ htons (saddr.port ^^^ 0x2112).toNat)
      (saddr.addr ^^^ stunMCookie).toNat_lt []
    rw [List.append_nil] at read
    rw [readU32, if_pos (by simp [stunXMapped]), stunXMapped]
    exact congrArg Except.ok read
  rw [stunFromXMapped, port, ok_bind, ip, ok_bind]
  simp only [Nat.toUInt16_eq, Nat.toUInt32_eq, UInt16.ofNat_toNat, UInt32.ofNat_toNat,
    UInt16.xor_assoc, UInt32.xor_assoc, UInt16.xor_self, UInt32.xor_self, UInt16.xor_zero,
    UInt32.xor_zero]

/-! ## What is signed, and under which length -/

theorem StunHdr.setMlen_bytes (mlen : Nat) :
    setMlen hdr.bytes mlen = ({ hdr with mlen } : StunHdr).bytes := by
  simp [setMlen, bytes, htons]

/-- The signature is the digest of the whole message before it. -/
theorem stunAddIntegrity_eq (sized : hdr.Sized)
    (result : stunAddIntegrity hmac hdr stunKey = .ok hdr') :
    hdr' = { hdr with
      mlen := hdr.mlen + 24
      payload := hdr.payload ++ (htons stunMsgIntegrity ++ (htons 20 ++
        (hmac stunKey ({ hdr with mlen := hdr.mlen + 24 } : StunHdr).bytes).bytes)) } := by
  rcases bind_eq_ok_iff.mp result with ⟨tdata, copied, built⟩
  have announced : hdr.mlen + hdrSize + 24 - hdrSize = hdr.mlen + 24 := by
    omega
  rcases copyTdata_eq_ok_iff.mp copied with ⟨-, -, rfl⟩
  rw [announced] at built
  have whole : ({ hdr with mlen := hdr.mlen + 24 } : StunHdr).bytes.length ≤
      hdr.mlen + hdrSize := by
    have length : ({ hdr with mlen := hdr.mlen + 24 } : StunHdr).bytes.length =
        hdrSize + hdr.payload.length :=
      StunHdr.length_bytes sized.transId
    rw [length, sized.mlen, Nat.add_comm]
  rw [List.take_of_length_le whole] at built
  cases built
  simp only [List.append_assoc]

theorem stunGetFingerprint_eq (result : stunGetFingerprint crcTab pkt = .ok crc) :
    crc = chksumCrc32 crcTab (pkt.take ((be16 pkt 2 + hdrSize) % 65536 - 8)) := by
  rw [stunGetFingerprint] at result
  rcases bind_eq_ok_iff.mp result with ⟨field, fieldRead, result⟩
  rcases readU16_eq_ok_iff.mp fieldRead with ⟨-, rfl⟩
  dsimp only at result
  split at result
  · cases result
  · rcases bind_eq_ok_iff.mp result with ⟨tdata, copied, summed⟩
    rcases copyTdata_eq_ok_iff.mp copied with ⟨-, -, rfl⟩
    cases summed
    rfl

/-- The fingerprint is the sum of the whole message before it, under the final length. -/
theorem addFingerprint_eq (sized : hdr.Sized) (small : hdr.mlen + 8 + hdrSize < 65536)
    (result : addFingerprint crcTab hdr = .ok hdr') :
    hdr' = { hdr with
      mlen := hdr.mlen + 8
      payload := hdr.payload ++ (htons stunFingerprint ++ (htons 4 ++
        htonl (chksumCrc32 crcTab ({ hdr with mlen := hdr.mlen + 8 } : StunHdr).bytes ^^^
          stunFingerprintXor).toNat)) } := by
  rcases bind_eq_ok_iff.mp result with ⟨crc, summed, built⟩
  have field : be16 ({ hdr with mlen := hdr.mlen + 8 } : StunHdr).bytes 2 = hdr.mlen + 8 := by
    apply StunHdr.be16_mlen
    dsimp only
    omega
  have whole : ({ hdr with mlen := hdr.mlen + 8 } : StunHdr).bytes.length ≤
      (hdr.mlen + 8 + hdrSize) % 65536 - 8 := by
    have length : ({ hdr with mlen := hdr.mlen + 8 } : StunHdr).bytes.length =
        hdrSize + hdr.payload.length :=
      StunHdr.length_bytes sized.transId
    rw [length, Nat.mod_eq_of_lt small, sized.mlen]
    omega
  have sum := stunGetFingerprint_eq summed
  rw [field, List.take_of_length_le whole] at sum
  cases built
  rw [sum]
  simp only [List.append_assoc]

/-! ## The message -/

/-- The last two attributes of a message. -/
def trailer (integrity : Digest) (fingerprint : UInt32) : List Byte :=
  htons stunMsgIntegrity ++ (htons 20 ++ (integrity.bytes ++
    (htons stunFingerprint ++ (htons 4 ++ htonl fingerprint.toNat))))

theorem length_trailer (integrity : Digest) (fingerprint : UInt32) :
    (trailer integrity fingerprint).length = 32 := by
  simp [trailer, integrity.sized]

/-- They are read behind whatever precedes them. -/
theorem attrs_trailer (before : List Byte) (integrity : Digest) (fingerprint : UInt32) :
    Attrs (before ++ trailer integrity fingerprint) (before.length + 32) before.length
      [(before.length, ⟨stunMsgIntegrity, integrity.bytes⟩),
        (before.length + 24, ⟨stunFingerprint, htonl fingerprint.toNat⟩)] := by
  have size := integrity.sized
  have mark : Attrs (before ++ trailer integrity fingerprint) (before.length + 32)
      (before.length + 24) [(before.length + 24, ⟨stunFingerprint, htonl fingerprint.toNat⟩)] := by
    have place : (before ++ htons stunMsgIntegrity ++ htons 20 ++ integrity.bytes).length =
        before.length + 24 := by
      simp only [List.length_append, length_htons, size]
    have whole : before ++ trailer integrity fingerprint =
        before ++ htons stunMsgIntegrity ++ htons 20 ++ integrity.bytes ++
          (htons stunFingerprint ++ (htons (htonl fingerprint.toNat).length ++
            (htonl fingerprint.toNat ++ ([] ++ [])))) := by
      simp only [trailer, List.append_assoc, length_htonl, List.append_nil]
    have encoded : Attrs (before ++ trailer integrity fingerprint) (before.length + 32)
        (before ++ htons stunMsgIntegrity ++ htons 20 ++ integrity.bytes).length
        [((before ++ htons stunMsgIntegrity ++ htons 20 ++ integrity.bytes).length,
          ⟨stunFingerprint, htonl fingerprint.toNat⟩)] := by
      apply Attrs.encoded (by simp [stunFingerprint]) (by rw [length_htonl]; decide) whole
      · rw [place]
        omega
      · apply Attrs.done
        rw [place, length_htonl, addrlenAlign]
    rw [place] at encoded
    exact encoded
  have whole : before ++ trailer integrity fingerprint = before ++ (htons stunMsgIntegrity ++
      (htons integrity.bytes.length ++ (integrity.bytes ++ ([] ++ (htons stunFingerprint ++
        (htons 4 ++ htonl fingerprint.toNat)))))) := by
    simp only [trailer, size, List.nil_append]
  apply Attrs.encoded (by simp [stunMsgIntegrity]) (by rw [size]; decide) whole
  · omega
  · rw [size]
    exact mark

/-- What is returned: the header, the first attributes and the last two. -/
theorem marked_bytes {signed marked : StunHdr} (sized : hdr.Sized)
    (short : hdr.mlen + 32 + hdrSize < 65536)
    (signs : stunAddIntegrity hmac hdr stunKey = .ok signed)
    (marks : addFingerprint crcTab signed = .ok marked) :
    ∃ integrity fingerprint,
      marked.bytes = ({ hdr with mlen := hdr.mlen + 32 } : StunHdr).bytes ++
        trailer integrity fingerprint ∧
      integrity = hmac stunKey ({ hdr with mlen := hdr.mlen + 24 } : StunHdr).bytes ∧
      fingerprint = chksumCrc32 crcTab (({ hdr with mlen := hdr.mlen + 32 } : StunHdr).bytes ++
        (htons stunMsgIntegrity ++ (htons 20 ++ integrity.bytes))) ^^^ stunFingerprintXor := by
  have sized' := (stunAddIntegrity_sized sized signs).1
  have signed_eq := stunAddIntegrity_eq sized signs
  have grown : signed.mlen = hdr.mlen + 24 := by
    rw [signed_eq]
  have marked_eq := addFingerprint_eq sized' (by omega) marks
  refine ⟨_, _, ?_, rfl, rfl⟩
  rw [marked_eq, signed_eq]
  simp only [StunHdr.bytes, trailer, List.append_assoc]

/-- A packet that was signed and marked has the shape, if its first attributes have it. -/
theorem shaped_of_marked {signed marked : StunHdr} {mapped : List Byte}
    {username : Option StunAttr} (sized : hdr.Sized) (short : hdr.mlen + 32 + hdrSize < 65536)
    (type : hdr.verType = stunResp) (cookie : hdr.mcookie = stunMCookie)
    (transId : hdr.transId = slice req.bytes 8 12) (encodes : Encodes attrs hdr.payload)
    (small : ∀ attr ∈ attrs, attr.type < 65536 ∧ attr.data.length < 65536)
    (listed : attrs = ⟨stunXMappedAddress, mapped⟩ :: username.toList)
    (address : stunFromXMapped mapped = .ok saddr)
    (signs : stunAddIntegrity hmac hdr stunKey = .ok signed)
    (marks : addFingerprint crcTab signed = .ok marked) :
    Shaped hmac crcTab stunKey req.bytes saddr username marked.bytes ∧
      marked.bytes.length = hdrSize + hdr.payload.length + 32 := by
  rcases marked_bytes sized short signs marks with
    ⟨integrity, fingerprint, bytes, digest, sum⟩
  set front := ({ hdr with mlen := hdr.mlen + 32 } : StunHdr).bytes with front_eq
  have frontSize : front.length = hdrSize + hdr.payload.length :=
    @StunHdr.length_bytes { hdr with mlen := hdr.mlen + 32 } sized.transId
  have length : marked.bytes.length = front.length + 32 := by
    rw [bytes, List.length_append, length_trailer]
  -- the fields of the header, one after the other
  have fields : marked.bytes = htons stunResp ++ (htons (hdr.mlen + 32) ++
      (htonl stunMCookie.toNat ++ (slice req.bytes 8 12 ++
        (hdr.payload ++ trailer integrity fingerprint)))) := by
    rw [bytes, front_eq]
    simp only [StunHdr.bytes, type, cookie, transId, List.append_assoc]
  have field := be16_append (htons stunResp) (n := hdr.mlen + 32) (by omega)
    (htonl stunMCookie.toNat ++ (slice req.bytes 8 12 ++
      (hdr.payload ++ trailer integrity fingerprint)))
  rw [← fields, length_htons] at field
  refine ⟨?_, by rw [length, frontSize]⟩
  constructor
  · rw [fields]
    exact be16_append [] (by decide) _
  · rw [field, length, frontSize, sized.mlen]
    omega
  · have read := be32_append (htons stunResp ++ htons (hdr.mlen + 32)) stunMCookie.toNat_lt
      (slice req.bytes 8 12 ++ (hdr.payload ++ trailer integrity fingerprint))
    rw [List.append_assoc, ← fields] at read
    exact read
  · have read := slice_append (htons stunResp ++ htons (hdr.mlen + 32) ++
      htonl stunMCookie.toNat) (slice req.bytes 8 12)
      (hdr.payload ++ trailer integrity fingerprint)
    rw [List.append_assoc, List.append_assoc, ← fields, ← transId, sized.transId] at read
    rw [← transId]
    exact read
  · -- the signature covers `front`, the fingerprint `front` and the signature
    have before : marked.bytes.take front.length = front := by
      rw [bytes, List.take_left]
    have covered : marked.bytes.take (front.length + 24) =
        front ++ (htons stunMsgIntegrity ++ (htons 20 ++ integrity.bytes)) := by
      have parts : marked.bytes = (front ++ (htons stunMsgIntegrity ++ (htons 20 ++
          integrity.bytes))) ++ (htons stunFingerprint ++ (htons 4 ++
            htonl fingerprint.toNat)) := by
        rw [bytes, trailer]
        simp only [List.append_assoc]
      have size : (front ++ (htons stunMsgIntegrity ++ (htons 20 ++ integrity.bytes))).length =
          front.length + 24 := by
        simp only [List.length_append, length_htons, integrity.sized]
      rw [parts, ← size, List.take_left]
    have announced : setMlen front (front.length + 24 - hdrSize) =
        ({ hdr with mlen := hdr.mlen + 24 } : StunHdr).bytes := by
      have mlen : front.length + 24 - hdrSize = hdr.mlen + 24 := by
        rw [frontSize, sized.mlen]
        omega
      rw [mlen, front_eq, StunHdr.setMlen_bytes]
    have tail := attrs_trailer front integrity fingerprint
    rw [← bytes, ← length] at tail
    have place : (htons stunResp ++ htons (hdr.mlen + 32) ++ htonl stunMCookie.toNat ++
        slice req.bytes 8 12).length = hdrSize := by
      simp only [List.length_append, length_htons, length_htonl, ← transId, sized.transId,
        hdrSize]
    have whole : marked.bytes = htons stunResp ++ htons (hdr.mlen + 32) ++
        htonl stunMCookie.toNat ++ slice req.bytes 8 12 ++
          (hdr.payload ++ trailer integrity fingerprint) := by
      rw [fields]
      simp only [List.append_assoc]
    rw [frontSize, ← place] at tail
    rcases encodes.read_append small (trailer integrity fingerprint) whole
      (by rw [place, length, frontSize]; omega) tail with ⟨l, read, values⟩
    rw [place, ← frontSize] at read
    refine ⟨front.length, mapped, l, ?_, by rw [values, listed], address⟩
    rw [before, announced, ← digest, covered, ← sum]
    exact read

/-- **Shape of a response.**  What is returned for a request that was parsed has the shape of a
response.  A request that has a whole header is answered if the answer has 128 bytes at most. -/
theorem stunGetResponse_shaped {packet : StunPacket}
    (parsed : stunPacketFromHdr hmac crcTab req (some stunKey) = .ok packet) :
    (∀ resp, stunGetResponse hmac crcTab heap (some stunKey) req saddr = .ok resp →
      ∃ hdr, resp = some hdr ∧ hdr.bytes.length = responseSize saddr packet.attrs ∧
        Shaped hmac crcTab stunKey req.bytes saddr (stunAttrId packet.attrs stunUsername)
          hdr.bytes) ∧
      (hdrSize ≤ req.bytes.length → responseSize saddr packet.attrs ≤ 128 →
        ∃ hdr, stunGetResponse hmac crcTab heap (some stunKey) req saddr = .ok (some hdr)) := by
  rcases stunPacketFromHdr_eq_ok_iff.mp parsed with ⟨l, parsable, rfl⟩
  constructor
  · intro resp result
    rcases stunGetResponse_eq_ok_iff.mp result with
      ⟨l', parsable', inside, signed, signs, marked, marks, rfl⟩
    cases parsable'.2.2.1.unique parsable.2.2.1
    have sized : (unsigned heap req saddr l).Sized := unsigned_sized inside
    have fits := (stunAddIntegrity_isOk_iff sized).mp ⟨signed, signs⟩
    have encodes : Encodes (responseAttrs saddr (l.map Prod.snd))
        (unsigned heap req saddr l).payload :=
      encodes_attrBytes
    have listed : responseAttrs saddr (l.map Prod.snd) =
        ⟨stunXMappedAddress, stunXMapped saddr⟩ ::
          (stunAttrId (l.map Prod.snd) stunUsername).toList := by
      unfold responseAttrs
      cases found : stunAttrId (l.map Prod.snd) stunUsername with
      | none => rfl
      | some username =>
          have type : username.type = stunUsername := by
            simpa using List.find?_some found
          simp [stunSetAttrD, ← type]
    have small : ∀ attr ∈ responseAttrs saddr (l.map Prod.snd), attr.type < 65536 ∧
        attr.data.length < 65536 :=
      responseAttrs_small parsable
    have short : (unsigned heap req saddr l).mlen + 32 + hdrSize < 65536 := by
      rw [sized.mlen]
      simp only [hdrSize, tdataSize] at fits ⊢
      omega
    have transId : (unsigned heap req saddr l).transId = slice req.bytes 8 12 :=
      rfl
    rcases shaped_of_marked sized short rfl rfl transId encodes small listed
      stunFromXMapped_stunXMapped signs marks with ⟨shaped, length⟩
    refine ⟨marked, rfl, ?_, shaped⟩
    rw [length, encodes.length_eq, responseSize]
  · intro inside short
    have answerable : Answerable req stunKey l := by
      refine ⟨parsable, inside, fun username found => ?_⟩
      rw [responseSize, attrsSize_responseAttrs, found, Option.map_some, Option.getD_some,
        hdrSize] at short
      omega
    rcases stunGetResponse_isOk_iff.mpr ⟨l, answerable⟩ with ⟨resp, result⟩
    rcases Option.isSome_iff_exists.mp (stunGetResponse_isSome result) with ⟨hdr, rfl⟩
    exact ⟨hdr, result⟩

/-- A request with a user name of two bytes. -/
def named : Datagram where
  bytes := [0x00, 0x01, 0x00, 0x08, 0x21, 0x12, 0xA4, 0x42] ++ List.replicate 12 7 ++
    [0x00, 0x06, 0x00, 0x02, 0x61, 0x62, 0x00, 0x00]
  fits := by decide

theorem stunGetResponse_shaped_named :
    ∃ hdr, stunGetResponse zeroHmac (fun _ => 0) (fun _ => 0) (some (lit "pwd")) named
        ⟨5004, 0x0A000001⟩ = .ok (some hdr) ∧
      Shaped zeroHmac (fun _ => 0) (lit "pwd") named.bytes ⟨5004, 0x0A000001⟩
        (some ⟨stunUsername, [0x61, 0x62]⟩) hdr.bytes := by
  have parsed : stunPacketFromHdr zeroHmac (fun _ => 0) named (some (lit "pwd")) =
      .ok ⟨28, [⟨stunUsername, [0x61, 0x62]⟩]⟩ := by
    decide +kernel
  have shape := @stunGetResponse_shaped _ _ (fun _ => 0) _ _ ⟨5004, 0x0A000001⟩ _ parsed
  rcases shape.2 (by decide) (by decide) with ⟨hdr, result⟩
  rcases shape.1 (some hdr) result with ⟨hdr', same, -, shaped⟩
  cases same
  exact ⟨hdr, result, shaped⟩

end Xwbot.Ice
