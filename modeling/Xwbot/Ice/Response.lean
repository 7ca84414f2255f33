import Xwbot.Ice.Attributes

/-!
# Which requests are answered, and with what

The responder goes through on the requests whose attributes lie inside the
datagram and whose answer fits its arrays.  On all of them it answers, whatever
their MESSAGE-INTEGRITY says.
-/

namespace Xwbot.Ice

variable {hmac : HmacSha1} {crcTab : CrcTab} {heap : Nat → Byte} {key : Option Text}
  {stunKey : Text} {req : Datagram} {saddr : SockAddr} {hdr hdr' : StunHdr}
  {attrs : List StunAttr} {l : List (Nat × StunAttr)} {d : List Byte} {stop : Nat}

/-! ## Packets that are built -/

/-- The bytes that attributes take in a packet. -/
def attrsSize (attrs : List StunAttr) : Nat :=
  (attrs.map fun attr => 4 + addrlenAlign attr.data.length).sum

/-- The bytes are the attributes one after the other, each value filled up to four bytes with
whatever it may be. -/
inductive Encodes : List StunAttr → List Byte → Prop where
  | nil : Encodes [] []
  | cons {attr : StunAttr} {fresh bytes : List Byte} {rest : List StunAttr}
      (filled : attr.data.length + fresh.length = addrlenAlign attr.data.length)
      (later : Encodes rest bytes) :
      Encodes (attr :: rest) (htons attr.type ++ (htons attr.data.length ++
        (attr.data ++ (fresh ++ bytes))))

theorem encodes_attrBytes : Encodes attrs (attrBytes heap attrs) := by
  induction attrs with
  | nil => exact .nil
  | cons attr rest ih =>
      obtain ⟨fresh, filled⟩ := realloc_eq_append heap (le_addrlenAlign attr.data.length)
      have room := length_realloc heap attr.data (addrlenAlign attr.data.length)
      rw [attrBytes]
      rw [filled, List.length_append] at room
      rw [filled]
      simp only [List.append_assoc]
      exact .cons room ih

theorem Encodes.length_eq {payload : List Byte} (encodes : Encodes attrs payload) :
    payload.length = attrsSize attrs := by
  induction encodes with
  | nil => rfl
  | cons filled later ih =>
      simp only [attrsSize, List.map_cons, List.sum_cons, List.length_append, length_htons] at ih ⊢
      omega

theorem length_attrBytes : (attrBytes heap attrs).length = attrsSize attrs :=
  encodes_attrBytes.length_eq

/-- The header of a packet that is built describes its payload. -/
structure StunHdr.Sized (hdr : StunHdr) : Prop where
  transId : hdr.transId.length = 12
  mlen : hdr.mlen = hdr.payload.length

theorem attrBytes_append (attrs attrs' : List StunAttr) :
    attrBytes heap (attrs ++ attrs') = attrBytes heap attrs ++ attrBytes heap attrs' := by
  induction attrs with
  | nil => rfl
  | cons attr rest ih => simp only [List.cons_append, attrBytes, ih, List.append_assoc]

/-- An attribute in its place is read back. -/
theorem Attrs.encoded {attr : StunAttr} {before fresh behind : List Byte}
    (typeSmall : attr.type < 65536) (lenSmall : attr.data.length < 65536)
    (whole : d = before ++ (htons attr.type ++ (htons attr.data.length ++
      (attr.data ++ (fresh ++ behind)))))
    (here : before.length < stop)
    (later : Attrs d stop (before.length + 4 + addrlenAlign attr.data.length) l) :
    Attrs d stop before.length ((before.length, attr) :: l) := by
  have type : be16 d before.length = attr.type := by
    rw [whole]
    exact be16_append before typeSmall _
  have len : be16 d (before.length + 2) = attr.data.length := by
    have read := be16_append (before ++ htons attr.type) lenSmall (attr.data ++ (fresh ++ behind))
    rw [List.length_append, length_htons, List.append_assoc, ← whole] at read
    exact read
  have data : slice d (before.length + 4) attr.data.length = attr.data := by
    have read := slice_append (before ++ htons attr.type ++ htons attr.data.length) attr.data
      (fresh ++ behind)
    rw [List.length_append, List.length_append, length_htons, length_htons, List.append_assoc,
      List.append_assoc, ← whole] at read
    exact read
  have inside : before.length + 4 + attr.data.length ≤ d.length := by
    rw [whole]
    simp only [List.length_append, length_htons]
    omega
  have first := Attrs.attr (d := d) here (by rw [len]; exact inside) (by rw [len]; exact later)
  rw [type, len, data] at first
  exact first

/-- Encoded attributes are read back in front of what else is read. -/
theorem Encodes.read_append {payload before : List Byte} (encodes : Encodes attrs payload)
    (small : ∀ attr ∈ attrs, attr.type < 65536 ∧ attr.data.length < 65536)
    (behind : List Byte) (whole : d = before ++ (payload ++ behind))
    (within : before.length + payload.length ≤ stop)
    (later : Attrs d stop (before.length + payload.length) l) :
    ∃ l', Attrs d stop before.length (l' ++ l) ∧ l'.map Prod.snd = attrs := by
  induction encodes generalizing before with
  | nil => exact ⟨[], later, rfl⟩
  | cons filled encodes ih =>
      rename_i attr fresh bytes rest
      obtain ⟨typeSmall, lenSmall⟩ := small attr List.mem_cons_self
      simp only [List.length_append, length_htons, List.append_assoc] at whole within later
      have whole' : d = before ++ htons attr.type ++ htons attr.data.length ++ attr.data ++
          fresh ++ (bytes ++ behind) := by
        simp only [List.append_assoc]
        exact whole
      obtain ⟨l', read, values⟩ := ih
        (fun attr' member => small attr' (List.mem_cons_of_mem _ member)) whole'
        (by simp only [List.length_append, length_htons]; omega)
        (by
          simp only [List.length_append, length_htons]
          convert later using 1
          omega)
      refine ⟨(before.length, attr) :: l', ?_, by rw [List.map_cons, values]⟩
      rw [List.cons_append]
      apply Attrs.encoded typeSmall lenSmall whole (by omega)
      simp only [List.length_append, length_htons] at read
      convert read using 1
      omega

/-- Encoded attributes are read back. -/
theorem Encodes.read {payload : List Byte} (encodes : Encodes attrs payload)
    (before : List Byte)
    (small : ∀ attr ∈ attrs, attr.type < 65536 ∧ attr.data.length < 65536) :
    ∃ l, Attrs (before ++ payload) (before.length + payload.length) before.length l ∧
      l.map Prod.snd = attrs := by
  obtain ⟨l, read, values⟩ := encodes.read_append (d := before ++ payload) (l := []) small []
    (by rw [List.append_nil]) (Nat.le_refl _) (.done (Nat.le_refl _))
  rw [List.append_nil] at read
  exact ⟨l, read, values⟩

/-- A packet is read back as the attributes it was built from. -/
theorem attrs_attrBytes (before : List Byte)
    (small : ∀ attr ∈ attrs, attr.type < 65536 ∧ attr.data.length < 65536) :
    ∃ l, Attrs (before ++ attrBytes heap attrs) (before.length + (attrBytes heap attrs).length)
      before.length l ∧ l.map Prod.snd = attrs :=
  encodes_attrBytes.read before small

theorem StunHdr.length_bytes (transId : hdr.transId.length = 12) :
    hdr.bytes.length = hdrSize + hdr.payload.length := by
  simp only [bytes, List.length_append, length_htons, length_htonl, transId, hdrSize]

theorem StunHdr.be16_mlen (small : hdr.mlen < 65536) : be16 hdr.bytes 2 = hdr.mlen := by
  have split : hdr.bytes = htons hdr.verType ++
      (htons hdr.mlen ++ (htonl hdr.mcookie.toNat ++ hdr.transId ++ hdr.payload)) := by
    simp [bytes]
  rw [split]
  exact be16_append (htons hdr.verType) small _

/-- The signature fits if the packet before it fits the array. -/
theorem stunAddIntegrity_isOk_iff (sized : hdr.Sized) :
    (∃ signed, stunAddIntegrity hmac hdr stunKey = .ok signed) ↔
      hdr.payload.length + hdrSize ≤ tdataSize := by
  unfold stunAddIntegrity
  constructor
  · rintro ⟨signed, result⟩
    obtain ⟨tdata, copied, -⟩ := bind_eq_ok_iff.mp result
    rw [← sized.mlen]
    exact (copyTdata_eq_ok_iff.mp copied).1
  · intro fits
    have within : hdr.mlen + hdrSize ≤
        ({ hdr with mlen := hdr.mlen + hdrSize + 24 - hdrSize } : StunHdr).bytes.length := by
      have length : ({ hdr with mlen := hdr.mlen + hdrSize + 24 - hdrSize } :
          StunHdr).bytes.length = hdrSize + hdr.payload.length :=
        StunHdr.length_bytes sized.transId
      rw [length, sized.mlen, Nat.add_comm]
    have copied := copyTdata_eq_ok_iff.mpr ⟨by rw [sized.mlen]; exact fits, within, rfl⟩
    dsimp only
    rw [copied, ok_bind]
    exact ⟨_, rfl⟩

theorem stunAddIntegrity_sized (sized : hdr.Sized)
    (result : stunAddIntegrity hmac hdr stunKey = .ok hdr') :
    hdr'.Sized ∧ hdr'.verType = hdr.verType ∧ ∃ digest : Digest,
      hdr'.payload = hdr.payload ++ (htons stunMsgIntegrity ++ (htons 20 ++ digest.bytes)) := by
  obtain ⟨tdata, -, built⟩ := bind_eq_ok_iff.mp result
  cases built
  have digest := (hmac stunKey tdata).sized
  refine ⟨⟨sized.transId, ?_⟩, rfl, hmac stunKey tdata, by simp⟩
  simp only [sized.mlen, List.length_append, length_htons, digest, hdrSize]
  omega

/-- The fingerprint fits if the packet before it fits the array. -/
theorem addFingerprint_isOk_iff (sized : hdr.Sized) (short : hdr.payload.length < 60000) :
    (∃ marked, addFingerprint crcTab hdr = .ok marked) ↔
      hdr.payload.length + hdrSize ≤ tdataSize := by
  have length : ({ hdr with mlen := hdr.mlen + 8 } : StunHdr).bytes.length =
      hdrSize + hdr.payload.length :=
    StunHdr.length_bytes sized.transId
  have field : be16 ({ hdr with mlen := hdr.mlen + 8 } : StunHdr).bytes 2 =
      hdr.payload.length + 8 := by
    have small : hdr.mlen + 8 < 65536 := by
      rw [sized.mlen]
      omega
    rw [← sized.mlen]
    exact StunHdr.be16_mlen small
  have summed : (∃ crc, stunGetFingerprint crcTab
      ({ hdr with mlen := hdr.mlen + 8 } : StunHdr).bytes = .ok crc) ↔
        hdr.payload.length + hdrSize ≤ tdataSize := by
    rw [stunGetFingerprint_isOk_iff, field, length, hdrSize, tdataSize]
    omega
  rw [← summed, addFingerprint]
  constructor
  · rintro ⟨marked, result⟩
    obtain ⟨crc, summed, -⟩ := bind_eq_ok_iff.mp result
    exact ⟨crc, summed⟩
  · rintro ⟨crc, summed⟩
    dsimp only
    rw [summed, ok_bind]
    exact ⟨_, rfl⟩

theorem addFingerprint_sized (sized : hdr.Sized)
    (result : addFingerprint crcTab hdr = .ok hdr') :
    hdr'.Sized ∧ ∃ crc : UInt32,
      hdr'.payload = hdr.payload ++ (htons stunFingerprint ++ (htons 4 ++ htonl crc.toNat)) := by
  obtain ⟨crc, -, built⟩ := bind_eq_ok_iff.mp result
  cases built
  refine ⟨⟨sized.transId, ?_⟩, crc ^^^ stunFingerprintXor, by simp⟩
  simp only [sized.mlen, List.length_append, length_htons, length_htonl]

/-! ## The responder -/

/-- The requests that the responder gets through with: the transaction is there, and the
echoed user name leaves room for the signature. -/
def Answerable (req : Datagram) (stunKey : Text) (l : List (Nat × StunAttr)) : Prop :=
  Parsable req (some stunKey) l ∧ 20 ≤ req.bytes.length ∧
    ∀ username, stunAttrId (l.map Prod.snd) stunUsername = some username →
      addrlenAlign username.data.length ≤ 68

/-- The header before the signature. -/
def unsigned (heap : Nat → Byte) (req : Datagram) (saddr : SockAddr)
    (l : List (Nat × StunAttr)) : StunHdr :=
  { stunHdrFromPacket heap (responseAttrs saddr (l.map Prod.snd)) with
    mcookie := stunMCookie, verType := stunResp, transId := slice req.bytes 8 12 }

theorem stunGetResponse_eq_ok_iff {resp : Option StunHdr} :
    stunGetResponse hmac crcTab heap (some stunKey) req saddr = .ok resp ↔
      ∃ l, Parsable req (some stunKey) l ∧ 20 ≤ req.bytes.length ∧
        ∃ signed, stunAddIntegrity hmac (unsigned heap req saddr l) stunKey = .ok signed ∧
          ∃ marked, addFingerprint crcTab signed = .ok marked ∧ resp = some marked := by
  rw [stunGetResponse]
  constructor
  · intro result
    obtain ⟨pkt2, parsed, result⟩ := bind_eq_ok_iff.mp result
    obtain ⟨l, parsable, rfl⟩ := stunPacketFromHdr_eq_ok_iff.mp parsed
    obtain ⟨transId, transIdRead, result⟩ := bind_eq_ok_iff.mp result
    obtain ⟨inside, rfl⟩ := readBytes_eq_ok_iff.mp transIdRead
    obtain ⟨signed, signs, result⟩ := bind_eq_ok_iff.mp result
    obtain ⟨marked, marks, result⟩ := bind_eq_ok_iff.mp result
    cases result
    exact ⟨l, parsable, inside, signed, signs, marked, marks, rfl⟩
  · rintro ⟨l, parsable, inside, signed, signs, marked, marks, rfl⟩
    have parsed : stunPacketFromHdr hmac crcTab req (some stunKey) = .ok _ :=
      stunPacketFromHdr_eq_ok_iff.mpr ⟨l, parsable, rfl⟩
    have transIdRead : readBytes req.bytes 8 12 = .ok _ := readBytes_eq_ok_iff.mpr ⟨inside, rfl⟩
    rw [parsed, ok_bind]
    dsimp only
    rw [transIdRead, ok_bind]
    unfold unsigned at signs
    rw [signs, ok_bind, marks, ok_bind]

theorem attrsSize_responseAttrs :
    attrsSize (responseAttrs saddr attrs) = 12 +
      ((stunAttrId attrs stunUsername).map fun username =>
        4 + addrlenAlign username.data.length).getD 0 := by
  unfold responseAttrs
  cases stunAttrId attrs stunUsername with
  | none => simp [attrsSize, stunSetAttrD, stunXMapped, addrlenAlign]
  | some username => simp [attrsSize, stunSetAttrD, stunXMapped, addrlenAlign]

theorem unsigned_sized (inside : 20 ≤ req.bytes.length) : (unsigned heap req saddr l).Sized :=
  ⟨length_slice inside, rfl⟩

/-- The responder answers exactly the answerable requests. -/
theorem stunGetResponse_isOk_iff :
    (∃ resp, stunGetResponse hmac crcTab heap (some stunKey) req saddr = .ok resp) ↔
      ∃ l, Answerable req stunKey l := by
  have payload : ∀ l, (unsigned heap req saddr l).payload.length = 12 +
      ((stunAttrId (l.map Prod.snd) stunUsername).map fun username =>
        4 + addrlenAlign username.data.length).getD 0 :=
    fun l => length_attrBytes.trans attrsSize_responseAttrs
  constructor
  · rintro ⟨resp, result⟩
    obtain ⟨l, parsable, inside, signed, signs, marked, marks, -⟩ :=
      stunGetResponse_eq_ok_iff.mp result
    have sized : (unsigned heap req saddr l).Sized := unsigned_sized inside
    have fits := (stunAddIntegrity_isOk_iff sized).mp ⟨signed, signs⟩
    obtain ⟨sized', -, digest, extended⟩ := stunAddIntegrity_sized sized signs
    have grown : signed.payload.length = (unsigned heap req saddr l).payload.length + 24 := by
      rw [extended]
      simp [digest.sized]
    rw [tdataSize] at fits
    have room := (addFingerprint_isOk_iff sized' (by omega)).mp ⟨marked, marks⟩
    refine ⟨l, parsable, inside, fun username found => ?_⟩
    have total := payload l
    rw [found, Option.map_some, Option.getD_some] at total
    rw [tdataSize, hdrSize] at room
    omega
  · rintro ⟨l, parsable, inside, short⟩
    have sized : (unsigned heap req saddr l).Sized := unsigned_sized inside
    have bound : (unsigned heap req saddr l).payload.length ≤ 84 := by
      rw [payload l]
      cases found : stunAttrId (l.map Prod.snd) stunUsername with
      | none => simp
      | some username =>
          have := short username found
          rw [Option.map_some, Option.getD_some]
          omega
    have fits : (unsigned heap req saddr l).payload.length + hdrSize ≤ tdataSize := by
      rw [hdrSize, tdataSize]
      omega
    obtain ⟨signed, signs⟩ : ∃ signed,
        stunAddIntegrity hmac (unsigned heap req saddr l) stunKey = .ok signed :=
      (stunAddIntegrity_isOk_iff sized).mpr fits
    obtain ⟨sized', -, digest, extended⟩ := stunAddIntegrity_sized sized signs
    have grown : signed.payload.length = (unsigned heap req saddr l).payload.length + 24 := by
      rw [extended]
      simp [digest.sized]
    have room : signed.payload.length + hdrSize ≤ tdataSize := by
      rw [hdrSize, tdataSize]
      omega
    obtain ⟨marked, marks⟩ : ∃ marked, addFingerprint crcTab signed = .ok marked :=
      (addFingerprint_isOk_iff sized' (by omega)).mpr room
    exact ⟨some marked, stunGetResponse_eq_ok_iff.mpr
      ⟨l, parsable, inside, signed, signs, marked, marks, rfl⟩⟩

/-- A response carries the mapped address and a user name of the request. -/
theorem mem_responseAttrs {attr : StunAttr} (member : attr ∈ responseAttrs saddr attrs) :
    attr.type = stunXMappedAddress ∧ attr.data.length = 8 ∨
      attr.type = stunUsername ∧ ∃ username ∈ attrs, attr.data = username.data := by
  unfold responseAttrs at member
  split at member
  · rename_i username found
    rcases List.mem_append.mp member with mapped | echoed
    · obtain rfl := List.mem_singleton.mp mapped
      exact .inl ⟨rfl, rfl⟩
    · obtain rfl := List.mem_singleton.mp echoed
      exact .inr ⟨rfl, username, List.mem_of_find?_eq_some found, rfl⟩
  · obtain rfl := List.mem_singleton.mp member
    exact .inl ⟨rfl, rfl⟩

/-- What is sent back fits 16 bits: it was received in a datagram. -/
theorem responseAttrs_small (parsable : Parsable req key l) :
    ∀ attr ∈ responseAttrs saddr (l.map Prod.snd), attr.type < 65536 ∧
      attr.data.length < 65536 := by
  intro attr answered
  rcases mem_responseAttrs answered with ⟨type, length⟩ | ⟨type, username, member, data⟩
  · rw [type, length, stunXMappedAddress]
    omega
  · obtain ⟨a, parsed, rfl⟩ := List.mem_map.mp member
    have within := (parsable.2.2.1.isInfix a parsed).length_le
    have fits := req.fits
    rw [type, data, stunUsername]
    omega

/-- What a response consists of. -/
theorem stunGetResponse_attrs
    (result : stunGetResponse hmac crcTab heap (some stunKey) req saddr = .ok (some hdr)) :
    ∃ l sent, Parsable req (some stunKey) l ∧
      Attrs hdr.bytes (hdrSize + hdr.mlen) hdrSize sent ∧
      ∃ (digest : Digest) (crc : UInt32), sent.map Prod.snd =
        responseAttrs saddr (l.map Prod.snd) ++
          [⟨stunMsgIntegrity, digest.bytes⟩, ⟨stunFingerprint, htonl crc.toNat⟩] := by
  obtain ⟨l, parsable, inside, signed, signs, marked, marks, same⟩ :=
    stunGetResponse_eq_ok_iff.mp result
  cases same
  obtain ⟨sized', -, digest, signature⟩ := stunAddIntegrity_sized (unsigned_sized inside) signs
  obtain ⟨sized, crc, payload⟩ := addFingerprint_sized sized' marks
  set attrs := responseAttrs saddr (l.map Prod.snd) ++
    [⟨stunMsgIntegrity, digest.bytes⟩, ⟨stunFingerprint, htonl crc.toNat⟩] with attrs_eq
  have signatureBytes : realloc heap digest.bytes 20 = digest.bytes := by
    have same := realloc_length heap digest.bytes
    rwa [digest.sized] at same
  have crcBytes : realloc heap (htonl crc.toNat) 4 = htonl crc.toNat :=
    realloc_length heap (htonl crc.toNat)
  have encoded : hdr.payload = attrBytes heap attrs := by
    rw [payload, signature, attrs_eq, attrBytes_append]
    simp [unsigned, stunHdrFromPacket, attrBytes, digest.sized, addrlenAlign, signatureBytes,
      crcBytes]
  have small : ∀ attr ∈ attrs, attr.type < 65536 ∧ attr.data.length < 65536 := by
    intro attr member
    rcases List.mem_append.mp member with answered | added
    · exact responseAttrs_small parsable attr answered
    · simp only [List.mem_cons, List.not_mem_nil, or_false] at added
      rcases added with rfl | rfl
      · simp [stunMsgIntegrity, digest.sized]
      · simp [stunFingerprint]
  have header : (htons hdr.verType ++ htons hdr.mlen ++ htonl hdr.mcookie.toNat ++
      hdr.transId).length = hdrSize := by
    simp only [List.length_append, length_htons, length_htonl, sized.transId, hdrSize]
  obtain ⟨sent, read, values⟩ := @attrs_attrBytes heap attrs
    (htons hdr.verType ++ htons hdr.mlen ++ htonl hdr.mcookie.toNat ++ hdr.transId) small
  rw [header, ← encoded, ← sized.mlen] at read
  exact ⟨l, sent, parsable, read, digest, crc, values⟩

/-! ## Memory safety -/

/-- The parser returns, and all that it copied was received. -/
def ParsesInside (hmac : HmacSha1) (crcTab : CrcTab) (req : Datagram) (key : Option Text) :
    Prop :=
  ∃ packet, stunPacketFromHdr hmac crcTab req key = .ok packet ∧
    ∀ attr ∈ packet.attrs, attr.data <:+: req.bytes

/-- The responder returns, and all user names that it echoes were received. -/
def RespondsInside (hmac : HmacSha1) (crcTab : CrcTab) (heap : Nat → Byte) (key : Option Text)
    (req : Datagram) (saddr : SockAddr) : Prop :=
  ∃ resp, stunGetResponse hmac crcTab heap key req saddr = .ok resp ∧
    ∀ hdr, resp = some hdr → ∀ l, Attrs hdr.bytes (hdrSize + hdr.mlen) hdrSize l →
      ∀ a ∈ l, a.2.type = stunUsername → a.2.data <:+: req.bytes

/-- **Reads of a datagram.**  The parser and the responder stay inside the datagram exactly if
its attributes do and what they copy fits their arrays. -/
theorem readsInside_iff :
    (ParsesInside hmac crcTab req key ↔ ∃ l, Parsable req key l) ∧
      (RespondsInside hmac crcTab heap key req saddr ↔
        ∀ stunKey, key = some stunKey → ∃ l, Answerable req stunKey l) := by
  constructor
  · constructor
    · rintro ⟨packet, parsed, -⟩
      obtain ⟨l, parsable, -⟩ := stunPacketFromHdr_eq_ok_iff.mp parsed
      exact ⟨l, parsable⟩
    · rintro ⟨l, parsable⟩
      refine ⟨_, stunPacketFromHdr_eq_ok_iff.mpr ⟨l, parsable, rfl⟩, fun attr member => ?_⟩
      obtain ⟨a, parsed, rfl⟩ := List.mem_map.mp member
      exact parsable.2.2.1.isInfix a parsed
  · constructor
    · rintro ⟨resp, result, -⟩ stunKey rfl
      exact stunGetResponse_isOk_iff.mp ⟨resp, result⟩
    · intro answerable
      cases key with
      | none =>
          refine ⟨none, rfl, fun hdr impossible => ?_⟩
          cases impossible
      | some stunKey =>
          obtain ⟨resp, result⟩ := stunGetResponse_isOk_iff.mpr (answerable stunKey rfl)
          refine ⟨resp, result, ?_⟩
          rintro hdr rfl sent' read' a member username
          obtain ⟨l, sent, parsable, read, digest, crc, values⟩ := stunGetResponse_attrs result
          obtain rfl := read.unique read'
          have listed := List.mem_map_of_mem (f := Prod.snd) member
          rw [values] at listed
          rcases List.mem_append.mp listed with answered | added
          · rcases mem_responseAttrs answered with ⟨mapped, -⟩ | ⟨-, echoed, member, data⟩
            · rw [username] at mapped
              cases mapped
            · obtain ⟨b, parsed, rfl⟩ := List.mem_map.mp member
              rw [data]
              exact parsable.2.2.1.isInfix b parsed
          · simp only [List.mem_cons, List.not_mem_nil, or_false] at added
            rcases added with same | same
            · rw [same] at username
              cases username
            · rw [same] at username
              cases username

/-- A request of a header alone whose length field announces four more bytes. -/
def truncated : Datagram where
  bytes := [0x00, 0x01, 0x00, 0x04, 0x21, 0x12, 0xA4, 0x42] ++ List.replicate 12 0
  fits := by decide

/-- A digest that is always the same. -/
def zeroHmac : HmacSha1 :=
  fun _ _ => ⟨List.replicate 20 0, rfl⟩

theorem not_readsInside_truncated :
    ¬ParsesInside zeroHmac (fun _ => 0) truncated none ∧
      ¬RespondsInside zeroHmac (fun _ => 0) (fun _ => 0) (some (lit "pwd")) truncated
        ⟨5004, 0x0A000001⟩ := by
  have parser : stunPacketFromHdr zeroHmac (fun _ => 0) truncated none = .error .overread := by
    decide +kernel
  have responder : stunGetResponse zeroHmac (fun _ => 0) (fun _ => 0) (some (lit "pwd"))
      truncated ⟨5004, 0x0A000001⟩ = .error .overread := by
    decide +kernel
  constructor
  · rintro ⟨packet, parsed, -⟩
    rw [parser] at parsed
    cases parsed
  · rintro ⟨resp, result, -⟩
    rw [responder] at result
    cases result

/-! ## Authentication -/

/-- A MESSAGE-INTEGRITY attribute is the digest of what precedes it, the length of which
includes the attribute. -/
def Authentic (hmac : HmacSha1) (stunKey : Text) (req : Datagram) : Prop :=
  ∃ l, Attrs req.bytes (hdrSize + be16 req.bytes 2) hdrSize l ∧
    ∃ a ∈ l, a.2.type = stunMsgIntegrity ∧
      a.2.data = (hmac stunKey (setMlen (req.bytes.take a.1) (a.1 - hdrSize + 24))).bytes

/-- The responder returns, and it has a response for authentic requests only. -/
def Guarded (hmac : HmacSha1) (crcTab : CrcTab) (heap : Nat → Byte) (stunKey : Text)
    (req : Datagram) (saddr : SockAddr) : Prop :=
  ∃ resp, stunGetResponse hmac crcTab heap (some stunKey) req saddr = .ok resp ∧
    (resp.isSome → Authentic hmac stunKey req)

/-- There is a response to every request that the responder gets through with. -/
theorem stunGetResponse_isSome {resp : Option StunHdr}
    (result : stunGetResponse hmac crcTab heap (some stunKey) req saddr = .ok resp) :
    resp.isSome := by
  obtain ⟨l, -, -, signed, -, marked, -, rfl⟩ := stunGetResponse_eq_ok_iff.mp result
  rfl

/-- **Authentication of connectivity checks.**  No request is rejected: the responder meets
its duty only on the requests that are authentic already. -/
theorem guarded_iff : Guarded hmac crcTab heap stunKey req saddr ↔
    Authentic hmac stunKey req ∧ ∃ l, Answerable req stunKey l := by
  constructor
  · rintro ⟨resp, result, authentic⟩
    exact ⟨authentic (stunGetResponse_isSome result),
      stunGetResponse_isOk_iff.mp ⟨resp, result⟩⟩
  · rintro ⟨authentic, answerable⟩
    obtain ⟨resp, result⟩ := stunGetResponse_isOk_iff.mpr answerable
    exact ⟨resp, result, fun _ => authentic⟩

/-- A request without attributes. -/
def bare : Datagram where
  bytes := [0x00, 0x01, 0x00, 0x00, 0x21, 0x12, 0xA4, 0x42] ++ List.replicate 12 0
  fits := by decide

/-- A request without any signature is answered. -/
theorem not_guarded_bare : ¬Guarded zeroHmac (fun _ => 0) (fun _ => 0) (lit "pwd") bare
    ⟨5004, 0x0A000001⟩ := by
  rintro ⟨resp, result, authentic⟩
  obtain ⟨l, attributes, a, member, -⟩ := authentic (stunGetResponse_isSome result)
  have none : Attrs bare.bytes (hdrSize + be16 bare.bytes 2) hdrSize [] := by
    apply Attrs.done
    decide
  rw [← none.unique attributes] at member
  cases member

end Xwbot.Ice
