import Xwbot.Wire

/-!
# STUN packets

The parser and the responder of the ICE plugin.  A request is the buffer that
one `recvmsg` filled, of which only the received bytes belong to it.  Both
functions copy parts of a packet into an array `tdata` of 128 bytes on the
stack, for the checksums.

The keyed digest and the table of the checksum are parameters.
-/

namespace Xwbot.Ice

/-! ## Constants -/

/-- `STUN_REQ` -/
def stunReq : Nat :=
  0x0001

/-- `STUN_RESP` -/
def stunResp : Nat :=
  0x0101

/-- `STUN_USERNAME` -/
def stunUsername : Nat :=
  0x0006

/-- `STUN_MSG_INTEGRITY` -/
def stunMsgIntegrity : Nat :=
  0x0008

/-- `STUN_X_MAPPED_ADDRESS` -/
def stunXMappedAddress : Nat :=
  0x0020

/-- `STUN_FINGERPRINT` -/
def stunFingerprint : Nat :=
  0x8028

/-- `STUN_M_COOKIE` -/
def stunMCookie : UInt32 :=
  0x2112A442

/-- `STUN_FINGERPRINT_XOR` -/
def stunFingerprintXor : UInt32 :=
  0x5354554e

/-- `sizeof(stun_hdr_t)` -/
def hdrSize : Nat :=
  20

/-- `sizeof(tdata)` -/
def tdataSize : Nat :=
  128

/-- `ADDRLEN_ALIGN` -/
def addrlenAlign (n : Nat) : Nat :=
  (n + 3) / 4 * 4

/-! ## Packets -/

/-- What one `recvmsg` of `__icectl_recvmsg` received: its buffer has `0x800` bytes. -/
structure Datagram where
  bytes : List Byte
  fits : bytes.length ≤ 0x800
  deriving DecidableEq, Repr

/-- `stun_attr_t`: the length is that of the copied value. -/
structure StunAttr where
  type : Nat
  data : List Byte
  deriving DecidableEq, Repr

/-- `stun_packet_t` -/
structure StunPacket where
  len : Nat
  attrs : List StunAttr
  deriving DecidableEq, Repr

/-- `stun_hdr_t` of a packet that is built here. -/
structure StunHdr where
  verType : Nat
  mlen : Nat
  mcookie : UInt32
  transId : List Byte
  payload : List Byte
  deriving DecidableEq, Repr

/-- The packet as it lies in memory. -/
def StunHdr.bytes (hdr : StunHdr) : List Byte :=
  htons hdr.verType ++ htons hdr.mlen ++ htonl hdr.mcookie.toNat ++ hdr.transId ++ hdr.payload

/-- The fields of `struct sockaddr_in` that are read, in host order. -/
structure SockAddr where
  port : UInt16
  addr : UInt32
  deriving DecidableEq, Repr

/-- `Message_Digest2` -/
structure Digest where
  bytes : List Byte
  sized : bytes.length = 20
  deriving DecidableEq, Repr

/-- `jingle_get_hmac_sha1(key, strlen(key), data, datalen)` -/
abbrev HmacSha1 :=
  Text → List Byte → Digest

/-- `crc_tab` -/
abbrev CrcTab :=
  UInt32 → UInt32

/-! ## Reading -/

/-- `chksum_crc32` -/
def chksumCrc32 (crcTab : CrcTab) (block : List Byte) : UInt32 :=
  let crc : UInt32 := block.foldl
    (fun crc byte => ((crc >>> 8) &&& 0x00FFFFFF) ^^^ crcTab ((crc ^^^ byte.toUInt32) &&& 0xFF))
    0xFFFFFFFF
  crc ^^^ 0xFFFFFFFF

/-- `x_memset(tdata, 0, sizeof(tdata)); x_memcpy(tdata, pkt, len)` -/
def copyTdata (pkt : List Byte) (len : Nat) : Except Fault (List Byte) :=
  if len ≤ tdataSize then readBytes pkt 0 len else .error .overflow

/-- `stun_get_fingerprint`: the sum of the packet without its last eight bytes.  The length is
a `uint16_t`; below eight, the size of the copy is negative. -/
def stunGetFingerprint (crcTab : CrcTab) (pkt : List Byte) : Except Fault UInt32 := do
  let field ← readU16 pkt 2
  let mlen := (field + hdrSize) % 65536
  if mlen < 8 then .error .overflow
  else
    let tdata ← copyTdata pkt (mlen - 8)
    .ok (chksumCrc32 crcTab tdata)

/-- `hdr->mlen = htons(mlen)` on a copy. -/
def setMlen (pkt : List Byte) (mlen : Nat) : List Byte :=
  pkt.take 2 ++ htons mlen ++ pkt.drop 4

/-- The block of `stun_packet_from_hdr` for MESSAGE-INTEGRITY.  The digest, under a constant
key, is freed again without being compared with the attribute. -/
def checkIntegrity (hmac : HmacSha1) (key : Option Text) (req : List Byte) (type ptr : Nat) :
    Except Fault Unit :=
  if type = stunMsgIntegrity ∧ key.isSome then do
    let tdata ← copyTdata req ptr
    let _msgIntegrity := hmac (lit "1234") (setMlen tdata (ptr - hdrSize + 24))
    .ok ()
  else .ok ()

/-- The body of the loop: the attribute at `ptr`, and the place behind it. -/
def parseAttr (hmac : HmacSha1) (key : Option Text) (req : List Byte) (ptr : Nat) :
    Except Fault (StunAttr × Nat) := do
  let type ← readU16 req ptr
  checkIntegrity hmac key req type ptr
  let len ← readU16 req (ptr + 2)
  let data ← readBytes req (ptr + 4) len
  .ok (⟨type, data⟩, ptr + 4 + addrlenAlign len)

/-- The attributes from `ptr` on.  Each iteration takes four bytes at least. -/
def parseAttrs (hmac : HmacSha1) (key : Option Text) (req : List Byte) (stop : Nat) :
    Nat → Nat → Except Fault (List StunAttr)
  | 0, _ => .error .hang
  | fuel + 1, ptr =>
      if ptr < stop then do
        let (attr, next) ← parseAttr hmac key req ptr
        let rest ← parseAttrs hmac key req stop fuel next
        .ok (attr :: rest)
      else .ok []

/-- `stun_packet_from_hdr`: the fingerprint at the end is only traced. -/
def stunPacketFromHdr (hmac : HmacSha1) (crcTab : CrcTab) (req : Datagram) (key : Option Text) :
    Except Fault StunPacket := do
  let mlen ← readU16 req.bytes 2
  let attrs ← parseAttrs hmac key req.bytes (hdrSize + mlen) (req.bytes.length + 1) hdrSize
  let _crc ← stunGetFingerprint crcTab req.bytes
  .ok ⟨hdrSize + mlen, attrs⟩

/-- `stun_attr_id`: the first attribute of a type. -/
def stunAttrId (attrs : List StunAttr) (type : Nat) : Option StunAttr :=
  attrs.find? fun attr => attr.type = type

/-! ## Building -/

/-- `stun_x_mapped` -/
def stunXMapped (saddr : SockAddr) : List Byte :=
  [0, 1] ++ htons (saddr.port ^^^ 0x2112).toNat ++ htonl (saddr.addr ^^^ stunMCookie).toNat

/-- `stun_set_attr_d` for a type that the packet does not have. -/
def stunSetAttrD (attrs : List StunAttr) (type : Nat) (val : List Byte) : List StunAttr :=
  attrs ++ [⟨type, val⟩]

/-- The attributes of a packet, one after the other.  The bytes that fill a value up to four
are not written. -/
def attrBytes (heap : Nat → Byte) : List StunAttr → List Byte
  | [] => []
  | attr :: rest =>
      htons attr.type ++ htons attr.data.length ++
        realloc heap attr.data (addrlenAlign attr.data.length) ++ attrBytes heap rest

/-- `stun_hdr_from_packet` -/
def stunHdrFromPacket (heap : Nat → Byte) (attrs : List StunAttr) : StunHdr :=
  let payload := attrBytes heap attrs
  ⟨0, payload.length, 0, List.replicate 12 0, payload⟩

/-- `stun_add_integrity` -/
def stunAddIntegrity (hmac : HmacSha1) (pkt : StunHdr) (key : Text) : Except Fault StunHdr := do
  let mlen := pkt.mlen + hdrSize
  let hdr := { pkt with mlen := mlen + 24 - hdrSize }
  let tdata ← copyTdata hdr.bytes mlen
  .ok { hdr with
    payload := hdr.payload ++ htons stunMsgIntegrity ++ htons 20 ++ (hmac key tdata).bytes }

/-- The end of `stun_get_response`: the fingerprint goes behind the other attributes. -/
def addFingerprint (crcTab : CrcTab) (pkt : StunHdr) : Except Fault StunHdr := do
  let hdr := { pkt with mlen := pkt.mlen + 8 }
  let crc ← stunGetFingerprint crcTab hdr.bytes
  .ok { hdr with
    payload := hdr.payload ++ htons stunFingerprint ++ htons 4 ++
      htonl (crc ^^^ stunFingerprintXor).toNat }

/-- The attributes of a response: the address of the sender and its user name. -/
def responseAttrs (saddr : SockAddr) (attrs : List StunAttr) : List StunAttr :=
  let mapped := stunSetAttrD [] stunXMappedAddress (stunXMapped saddr)
  match stunAttrId attrs stunUsername with
  | some username => stunSetAttrD mapped stunUsername username.data
  | none => mapped

/-- `stun_get_response` -/
def stunGetResponse (hmac : HmacSha1) (crcTab : CrcTab) (heap : Nat → Byte) (key : Option Text)
    (req : Datagram) (saddr : SockAddr) : Except Fault (Option StunHdr) :=
  match key with
  | none => .ok none
  | some stunKey => do
      let pkt2 ← stunPacketFromHdr hmac crcTab req (some stunKey)
      let resp := stunHdrFromPacket heap (responseAttrs saddr pkt2.attrs)
      let transId ← readBytes req.bytes 8 12
      let resp := { resp with mcookie := stunMCookie, verType := stunResp, transId := transId }
      let resp ← stunAddIntegrity hmac resp stunKey
      let resp ← addFingerprint crcTab resp
      .ok (some resp)

end Xwbot.Ice
