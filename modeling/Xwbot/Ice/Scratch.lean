import Xwbot.Ice.Request

/-!
# Scratch buffers and 16-bit lengths

The builder of checks prints the user name into an array, and the checksums
are taken of copies in other arrays, each of 128 bytes.  Here the functions that
fill them run in a memory all of which can be read, so that they return exactly
if every copy fits its array and no 16-bit length wraps around or becomes
negative.
-/

namespace Xwbot.Ice

/-- The memory from the start of a received datagram on. -/
structure RecvBuf where
  datagram : Datagram
  behind : List Byte
  /-- The parser does not come to the end of what can be read. -/
  readable : 0x20020 ≤ behind.length

/-- The bytes as the parser finds them. -/
def RecvBuf.bytes (buf : RecvBuf) : List Byte :=
  buf.datagram.bytes ++ buf.behind

namespace Scratch

/-- A `uint16_t` length: what would wrap around or be negative ends the run. -/
def length16 (n : Int) : Except Fault Nat :=
  if 0 ≤ n ∧ n < 65536 then .ok n.toNat else .error .intOverflow

/-- The block of `stun_packet_from_hdr` for MESSAGE-INTEGRITY. -/
def checkIntegrity (hmac : HmacSha1) (key : Option Text) (req : List Byte) (type ptr : Nat) :
    Except Fault Unit :=
  if type = stunMsgIntegrity ∧ key.isSome then do
    let tmplen ← length16 ptr
    let tdata ← copyTdata req tmplen
    let mlen ← length16 (tmplen - hdrSize + 24)
    let _msgIntegrity := hmac (lit "1234") (setMlen tdata mlen)
    .ok ()
  else .ok ()

/-- The body of the loop. -/
def parseAttr (hmac : HmacSha1) (key : Option Text) (req : List Byte) (ptr : Nat) :
    Except Fault (StunAttr × Nat) := do
  let type ← readU16 req ptr
  checkIntegrity hmac key req type ptr
  let len ← readU16 req (ptr + 2)
  let data ← readBytes req (ptr + 4) len
  .ok (⟨type, data⟩, ptr + 4 + addrlenAlign len)

/-- The attributes from `ptr` on. -/
def parseAttrs (hmac : HmacSha1) (key : Option Text) (req : List Byte) (stop : Nat) :
    Nat → Nat → Except Fault (List StunAttr)
  | 0, _ => .error .hang
  | fuel + 1, ptr =>
      if ptr < stop then do
        let (attr, next) ← parseAttr hmac key req ptr
        let rest ← parseAttrs hmac key req stop fuel next
        .ok (attr :: rest)
      else .ok []

/-- `stun_get_fingerprint` -/
def stunGetFingerprint (crcTab : CrcTab) (pkt : List Byte) : Except Fault UInt32 := do
  let field ← readU16 pkt 2
  let mlen ← length16 (field + hdrSize)
  let size ← length16 (mlen - 8)
  let tdata ← copyTdata pkt size
  .ok (chksumCrc32 crcTab tdata)

/-- `stun_packet_from_hdr` -/
def stunPacketFromHdr (hmac : HmacSha1) (crcTab : CrcTab) (req : List Byte) (key : Option Text) :
    Except Fault (List StunAttr) := do
  let mlen ← readU16 req 2
  let attrs ← parseAttrs hmac key req (hdrSize + mlen) (req.length + 1) hdrSize
  let _crc ← stunGetFingerprint crcTab req
  .ok attrs

/-- `stun_hdr_from_packet`: its own length has 16 bits as well, and may wrap around. -/
def stunHdrFromPacket (heap : Nat → Byte) (attrs : List StunAttr) : StunHdr :=
  let hdr := Ice.stunHdrFromPacket heap attrs
  { hdr with mlen := hdr.mlen % 65536 }

/-- `stun_add_integrity` -/
def stunAddIntegrity (hmac : HmacSha1) (pkt : StunHdr) (key : Text) : Except Fault StunHdr := do
  let start ← length16 (pkt.mlen + hdrSize)
  let mlen ← length16 (start + 24)
  let field ← length16 (mlen - hdrSize)
  let hdr := { pkt with mlen := field }
  let size ← length16 (mlen - 24)
  let tdata ← copyTdata hdr.bytes size
  .ok { hdr with
    payload := hdr.payload.take pkt.mlen ++ htons stunMsgIntegrity ++ htons 20 ++
      (hmac key tdata).bytes }

/-- The end of `stun_get_response` and of `get_stun_full_request`. -/
def addFingerprint (crcTab : CrcTab) (pkt : StunHdr) : Except Fault StunHdr := do
  let field ← length16 (pkt.mlen + 8)
  let hdr := { pkt with mlen := field }
  let crc ← stunGetFingerprint crcTab hdr.bytes
  .ok { hdr with
    payload := hdr.payload ++ htons stunFingerprint ++ htons 4 ++
      htonl (crc ^^^ stunFingerprintXor).toNat }

/-- `stun_get_response` -/
def stunGetResponse (p : Platform) (key : Option Text) (req : RecvBuf) (saddr : SockAddr) :
    Except Fault (Option StunHdr) :=
  match key with
  | none => .ok none
  | some stunKey => do
      let attrs ← stunPacketFromHdr p.hmac p.crcTab req.bytes (some stunKey)
      let resp := stunHdrFromPacket p.heap (responseAttrs saddr attrs)
      let transId ← readBytes req.bytes 8 12
      let resp := { resp with mcookie := stunMCookie, verType := stunResp, transId := transId }
      let resp ← stunAddIntegrity p.hmac resp stunKey
      let resp ← addFingerprint p.crcTab resp
      .ok (some resp)

/-- `get_stun_full_request`.  `x_sprintf` writes the user name and a NUL. -/
def getStunFullRequest (p : Platform) (draws : Nat) (lufrag rufrag rpwd : Option Text) :
    Except Fault (Option StunHdr) :=
  match lufrag, rufrag, rpwd with
  | some lufrag, some rufrag, some rpwd => do
      let fullfrag := rufrag ++ lit ":" ++ lufrag
      if fullfrag.length < fullfragSize then do
        let stnReq := unsignedRequest p draws fullfrag
        let stnReq ← stunAddIntegrity p.hmac stnReq rpwd
        let stnReq ← addFingerprint p.crcTab stnReq
        .ok (some stnReq)
      else .error .overflow
  | _, _, _ => .ok none

variable {p : Platform} {draws : Nat} {hmac : HmacSha1} {crcTab : CrcTab} {key : Option Text}
  {lufrag rufrag rpwd : Option Text} {stunKey : Text} {d : List Byte} {stop fuel ptr n : Nat}
  {attr : StunAttr × Nat} {attrs : List StunAttr} {hdr hdr' : StunHdr} {req : RecvBuf}
  {saddr : SockAddr}

/-! ## Lengths -/

theorem length16_eq_ok_iff {i : Int} : length16 i = .ok n ↔ i = n ∧ n < 65536 := by
  unfold length16
  split
  · simp only [Except.ok.injEq]
    omega
  · simp only [reduceCtorEq, false_iff]
    omega

theorem length16_eq (small : n < 65536) {i : Int} (same : i = n) : length16 i = .ok n :=
  length16_eq_ok_iff.mpr ⟨same, small⟩

/-! ## The parser -/

theorem checkIntegrity_eq_ok_iff (inside : ptr ≤ d.length) :
    checkIntegrity hmac key d n ptr = .ok () ↔
      Ice.checkIntegrity hmac key d n ptr = .ok () := by
  rw [Ice.checkIntegrity_eq_ok_iff inside]
  unfold checkIntegrity
  split
  · rename_i integrity
    constructor
    · intro result _ _
      rcases bind_eq_ok_iff.mp result with ⟨tmplen, kept, result⟩
      rcases bind_eq_ok_iff.mp result with ⟨tdata, copied, -⟩
      have same := (length16_eq_ok_iff.mp kept).1
      have fits := (copyTdata_eq_ok_iff.mp copied).1
      omega
    · intro fits
      have short := fits integrity.2 integrity.1
      unfold tdataSize at short
      rw [length16_eq (n := ptr) (by omega) rfl, ok_bind,
        copyTdata_eq_ok_iff.mpr ⟨short, inside, rfl⟩, ok_bind,
        length16_eq (n := ptr + 24 - hdrSize) (by omega) (by unfold hdrSize; omega)]
      rfl
  · rename_i other
    simp only [true_iff]
    intro keyed integrity
    exact absurd ⟨integrity, keyed⟩ other

theorem parseAttr_eq_ok_iff :
    parseAttr hmac key d ptr = .ok attr ↔ Ice.parseAttr hmac key d ptr = .ok attr := by
  unfold parseAttr Ice.parseAttr
  simp only [bind_eq_ok_iff]
  constructor
  · rintro ⟨type, typed, ⟨⟩, checked, rest⟩
    have inside : ptr ≤ d.length := by
      have read := (readU16_eq_ok_iff.mp typed).1
      omega
    exact ⟨type, typed, (), (checkIntegrity_eq_ok_iff inside).mp checked, rest⟩
  · rintro ⟨type, typed, ⟨⟩, checked, rest⟩
    have inside : ptr ≤ d.length := by
      have read := (readU16_eq_ok_iff.mp typed).1
      omega
    exact ⟨type, typed, (), (checkIntegrity_eq_ok_iff inside).mpr checked, rest⟩

/-- The lengths that the parser computes wrap around only where a copy does not fit. -/
theorem parseAttrs_eq_ok_iff :
    parseAttrs hmac key d stop fuel ptr = .ok attrs ↔
      Ice.parseAttrs hmac key d stop fuel ptr = .ok attrs := by
  induction fuel generalizing ptr attrs with
  | zero => exact Iff.rfl
  | succ fuel ih =>
      rw [parseAttrs, Ice.parseAttrs]
      split
      · simp only [bind_eq_ok_iff, parseAttr_eq_ok_iff, ih]
      · exact Iff.rfl

/-- In a memory that can be read, the parser comes to the end of the packet. -/
theorem exists_attrs (fuel ptr : Nat) (readable : stop + 65539 ≤ d.length)
    (steps : stop ≤ ptr + fuel) : ∃ l, Attrs d stop ptr l := by
  induction fuel generalizing ptr with
  | zero => exact ⟨[], .done steps⟩
  | succ fuel ih =>
      by_cases here : ptr < stop
      · have small := be16_lt d (ptr + 2)
        rcases ih (ptr + 4 + addrlenAlign (be16 d (ptr + 2))) (by omega) with ⟨l, later⟩
        exact ⟨_, .attr here (by omega) later⟩
      · exact ⟨[], .done (Nat.not_lt.mp here)⟩

theorem stunGetFingerprint_isOk_iff :
    (∃ crc, stunGetFingerprint crcTab d = .ok crc) ↔
      4 ≤ d.length ∧ be16 d 2 + hdrSize ≤ tdataSize + 8 ∧
        be16 d 2 + hdrSize ≤ d.length + 8 := by
  constructor
  · rintro ⟨crc, result⟩
    rcases bind_eq_ok_iff.mp result with ⟨field, fieldRead, result⟩
    rcases readU16_eq_ok_iff.mp fieldRead with ⟨inside, rfl⟩
    rcases bind_eq_ok_iff.mp result with ⟨mlen, kept, result⟩
    rcases bind_eq_ok_iff.mp result with ⟨size, kept', result⟩
    rcases bind_eq_ok_iff.mp result with ⟨tdata, copied, -⟩
    have total := (length16_eq_ok_iff.mp kept).1
    have less := (length16_eq_ok_iff.mp kept').1
    rcases copyTdata_eq_ok_iff.mp copied with ⟨fits, within, -⟩
    omega
  · rintro ⟨inside, fits, within⟩
    have fieldRead : readU16 d 2 = .ok (be16 d 2) := readU16_eq_ok_iff.mpr ⟨inside, rfl⟩
    have large : 20 ≤ be16 d 2 + hdrSize := Nat.le_add_left _ _
    unfold tdataSize at fits
    have copied : copyTdata d (be16 d 2 + hdrSize - 8) = .ok _ :=
      copyTdata_eq_ok_iff.mpr ⟨by unfold tdataSize; omega, by omega, rfl⟩
    rw [stunGetFingerprint, fieldRead, ok_bind,
      length16_eq (n := be16 d 2 + hdrSize) (by omega) (by omega), ok_bind,
      length16_eq (n := be16 d 2 + hdrSize - 8) (by omega) (by omega), ok_bind, copied, ok_bind]
    exact ⟨_, rfl⟩

/-- The packet is small enough for the fingerprint, and what precedes its signatures for them. -/
def Summable (key : Option Text) (d : List Byte) : Prop :=
  be16 d 2 ≤ tdataSize - 12 ∧ ∀ l, Attrs d (hdrSize + be16 d 2) hdrSize l → Copied key l

theorem le_length_bytes (req : RecvBuf) : 0x20020 ≤ req.bytes.length := by
  have readable := req.readable
  rw [RecvBuf.bytes, List.length_append]
  omega

theorem stunPacketFromHdr_eq_ok_iff (readable : 0x20020 ≤ d.length) :
    stunPacketFromHdr hmac crcTab d key = .ok attrs ↔
      ∃ l, Attrs d (hdrSize + be16 d 2) hdrSize l ∧ l.map Prod.snd = attrs ∧
        Summable key d := by
  have small := be16_lt d 2
  have fieldRead : readU16 d 2 = .ok (be16 d 2) := readU16_eq_ok_iff.mpr ⟨by omega, rfl⟩
  have parses : ∀ attrs, parseAttrs hmac key d (hdrSize + be16 d 2) (d.length + 1) hdrSize =
      .ok attrs ↔ ∃ l, Attrs d (hdrSize + be16 d 2) hdrSize l ∧ Copied key l ∧
        l.map Prod.snd = attrs :=
    fun attrs => parseAttrs_eq_ok_iff.trans
      (Ice.parseAttrs_eq_ok_iff (Nat.succ_pos _) (by unfold hdrSize; omega))
  rw [stunPacketFromHdr, fieldRead, ok_bind]
  constructor
  · intro result
    rcases bind_eq_ok_iff.mp result with ⟨parsed, loop, result⟩
    rcases bind_eq_ok_iff.mp result with ⟨crc, summed, same⟩
    cases same
    rcases (parses attrs).mp loop with ⟨l, attributes, copied, values⟩
    have fits := (stunGetFingerprint_isOk_iff.mp ⟨crc, summed⟩).2.1
    refine ⟨l, attributes, values, ?_, fun l' attributes' => ?_⟩
    · unfold hdrSize tdataSize at *
      omega
    · rw [attributes'.unique attributes]
      exact copied
  · rintro ⟨l, attributes, values, short, copies⟩
    have summed : ∃ crc, stunGetFingerprint crcTab d = .ok crc := by
      apply stunGetFingerprint_isOk_iff.mpr
      unfold hdrSize tdataSize at *
      omega
    rcases summed with ⟨crc, summed⟩
    rw [(parses attrs).mpr ⟨l, attributes, copies l attributes, values⟩, ok_bind, summed, ok_bind]

/-! ## Signing -/

/-- The length field is not larger than what is allocated. -/
structure Allocated (hdr : StunHdr) : Prop where
  transId : hdr.transId.length = 12
  within : hdr.mlen ≤ hdr.payload.length

theorem stunAddIntegrity_isOk_iff (allocated : Allocated hdr) :
    (∃ signed, stunAddIntegrity hmac hdr stunKey = .ok signed) ↔
      hdr.mlen + hdrSize ≤ tdataSize := by
  constructor
  · rintro ⟨signed, result⟩
    rcases bind_eq_ok_iff.mp result with ⟨start, kept, result⟩
    rcases bind_eq_ok_iff.mp result with ⟨mlen, kept', result⟩
    rcases bind_eq_ok_iff.mp result with ⟨field, -, result⟩
    rcases bind_eq_ok_iff.mp result with ⟨size, kept'', result⟩
    rcases bind_eq_ok_iff.mp result with ⟨tdata, copied, -⟩
    have first := (length16_eq_ok_iff.mp kept).1
    have second := (length16_eq_ok_iff.mp kept').1
    have third := (length16_eq_ok_iff.mp kept'').1
    have fits := (copyTdata_eq_ok_iff.mp copied).1
    omega
  · intro fits
    have length : ({ hdr with mlen := hdr.mlen + 24 } : StunHdr).bytes.length =
        hdrSize + hdr.payload.length :=
      StunHdr.length_bytes allocated.transId
    have within := allocated.within
    have copied : copyTdata ({ hdr with mlen := hdr.mlen + 24 } : StunHdr).bytes
        (hdr.mlen + hdrSize) = .ok (({ hdr with mlen := hdr.mlen + 24 } : StunHdr).bytes.take
          (hdr.mlen + hdrSize)) :=
      copyTdata_eq_ok_iff.mpr ⟨fits, by omega, rfl⟩
    unfold tdataSize at fits
    rw [stunAddIntegrity, length16_eq (n := hdr.mlen + hdrSize) (by omega) (by omega), ok_bind,
      length16_eq (n := hdr.mlen + hdrSize + 24) (by omega) (by omega), ok_bind,
      length16_eq (n := hdr.mlen + 24) (by omega) (by omega), ok_bind]
    dsimp only
    rw [length16_eq (n := hdr.mlen + hdrSize) (by omega) (by omega), ok_bind, copied, ok_bind]
    exact ⟨_, rfl⟩

theorem stunAddIntegrity_allocated (allocated : Allocated hdr)
    (result : stunAddIntegrity hmac hdr stunKey = .ok hdr') :
    Allocated hdr' ∧ hdr'.mlen = hdr.mlen + 24 := by
  rcases bind_eq_ok_iff.mp result with ⟨start, kept, result⟩
  rcases bind_eq_ok_iff.mp result with ⟨mlen, kept', result⟩
  rcases bind_eq_ok_iff.mp result with ⟨field, kept'', result⟩
  rcases bind_eq_ok_iff.mp result with ⟨size, -, result⟩
  rcases bind_eq_ok_iff.mp result with ⟨tdata, -, same⟩
  have first := (length16_eq_ok_iff.mp kept).1
  have second := (length16_eq_ok_iff.mp kept').1
  have third := (length16_eq_ok_iff.mp kept'').1
  have within := allocated.within
  have digest := (hmac stunKey tdata).sized
  cases same
  refine ⟨⟨allocated.transId, ?_⟩, ?_⟩
  · simp only [List.length_append, List.length_take, length_htons, digest]
    omega
  · dsimp only
    omega

theorem addFingerprint_isOk_iff (allocated : Allocated hdr) (short : hdr.mlen < 65528) :
    (∃ marked, addFingerprint crcTab hdr = .ok marked) ↔ hdr.mlen + hdrSize ≤ tdataSize := by
  have length : ({ hdr with mlen := hdr.mlen + 8 } : StunHdr).bytes.length =
      hdrSize + hdr.payload.length :=
    StunHdr.length_bytes allocated.transId
  have field : be16 ({ hdr with mlen := hdr.mlen + 8 } : StunHdr).bytes 2 = hdr.mlen + 8 :=
    @StunHdr.be16_mlen { hdr with mlen := hdr.mlen + 8 } (by dsimp only; omega)
  have within := allocated.within
  have sum := @stunGetFingerprint_isOk_iff crcTab
    ({ hdr with mlen := hdr.mlen + 8 } : StunHdr).bytes
  rw [field, length] at sum
  rw [addFingerprint, length16_eq (n := hdr.mlen + 8) (by omega) (by omega), ok_bind]
  constructor
  · rintro ⟨marked, result⟩
    rcases bind_eq_ok_iff.mp result with ⟨crc, summed, -⟩
    have fits := (sum.mp ⟨crc, summed⟩).2.1
    omega
  · intro fits
    have header : 20 ≤ hdrSize := Nat.le_refl 20
    rcases sum.mpr ⟨by omega, by omega, by omega⟩ with ⟨crc, summed⟩
    dsimp only
    rw [summed, ok_bind]
    exact ⟨_, rfl⟩

/-- Both sums can be taken exactly if the packet with the signature fits an array. -/
theorem signs_isOk_iff (allocated : Allocated hdr) :
    (∃ marked, (stunAddIntegrity hmac hdr stunKey >>= addFingerprint crcTab) = .ok marked) ↔
      hdr.mlen + 24 + hdrSize ≤ tdataSize := by
  constructor
  · rintro ⟨marked, result⟩
    rcases bind_eq_ok_iff.mp result with ⟨signed, signs, marks⟩
    have fits := (stunAddIntegrity_isOk_iff allocated).mp ⟨signed, signs⟩
    rcases stunAddIntegrity_allocated allocated signs with ⟨allocated', grown⟩
    unfold tdataSize at fits
    have room := (addFingerprint_isOk_iff allocated' (by omega)).mp ⟨marked, marks⟩
    omega
  · intro fits
    have first : ∃ signed, stunAddIntegrity hmac hdr stunKey = .ok signed :=
      (stunAddIntegrity_isOk_iff allocated).mpr (by omega)
    rcases first with ⟨signed, signs⟩
    rcases stunAddIntegrity_allocated allocated signs with ⟨allocated', grown⟩
    have room : tdataSize = 128 := rfl
    have second : ∃ marked, addFingerprint crcTab signed = .ok marked :=
      (addFingerprint_isOk_iff allocated' (by omega)).mpr (by omega)
    rcases second with ⟨marked, marks⟩
    exact ⟨marked, bind_eq_ok_iff.mpr ⟨signed, signs, marks⟩⟩

/-! ## The two builders -/

/-- The user names of a check are short, if there are any. -/
def ShortNames (lufrag rufrag rpwd : Option Text) : Prop :=
  ∀ l r pwd, lufrag = some l → rufrag = some r → rpwd = some pwd → r.length + 1 + l.length ≤ 60

theorem allocated_unsignedRequest {fullfrag : Text} :
    Allocated (unsignedRequest p draws fullfrag) :=
  ⟨unsignedRequest_sized.transId, Nat.le_of_eq unsignedRequest_sized.mlen⟩

theorem getStunFullRequest_isOk_iff :
    (∃ stnReq, getStunFullRequest p draws lufrag rufrag rpwd = .ok stnReq) ↔
      ShortNames lufrag rufrag rpwd := by
  unfold getStunFullRequest
  split
  · rename_i l r pwd
    have length : (r ++ lit ":" ++ l).length = r.length + 1 + l.length := by
      rw [List.length_append, List.length_append]
      rfl
    have allocated : Allocated (unsignedRequest p draws (r ++ lit ":" ++ l)) :=
      allocated_unsignedRequest
    have signs := @signs_isOk_iff p.hmac p.crcTab pwd _ allocated
    have size : (unsignedRequest p draws (r ++ lit ":" ++ l)).mlen =
        24 + addrlenAlign (r ++ lit ":" ++ l).length :=
      unsignedRequest_sized.mlen.trans length_unsignedRequest
    have narrow : 24 + addrlenAlign (r ++ lit ":" ++ l).length + 24 + hdrSize ≤ tdataSize ↔
        r.length + 1 + l.length ≤ 60 := by
      rw [length]
      unfold addrlenAlign hdrSize tdataSize
      omega
    rw [size, narrow] at signs
    dsimp only
    constructor
    · rintro ⟨stnReq, result⟩ l' r' pwd' same same' same''
      cases same
      cases same'
      cases same''
      split at result
      · rcases bind_eq_ok_iff.mp result with ⟨signed, first, result⟩
        rcases bind_eq_ok_iff.mp result with ⟨marked, second, -⟩
        exact signs.mp ⟨marked, bind_eq_ok_iff.mpr ⟨signed, first, second⟩⟩
      · cases result
    · intro short
      have fits := short l r pwd rfl rfl rfl
      rcases signs.mpr fits with ⟨marked, result⟩
      rcases bind_eq_ok_iff.mp result with ⟨signed, first, second⟩
      rw [if_pos (by rw [length, fullfragSize]; omega), first, ok_bind, second, ok_bind]
      exact ⟨_, rfl⟩
  · rename_i missing
    constructor
    · intro _ l r pwd same same' same''
      exact (missing l r pwd same same' same'').elim
    · intro _
      exact ⟨none, rfl⟩

/-- The user name that is echoed is short, or so long that the length of the response wraps
around before it is summed. -/
def ShortEcho (attrs : List StunAttr) : Prop :=
  ∀ username, stunAttrId attrs stunUsername = some username →
    (16 + addrlenAlign username.data.length) % 65536 ≤ 84

theorem mlen_stunHdrFromPacket {heap : Nat → Byte} :
    (stunHdrFromPacket heap (responseAttrs saddr attrs)).mlen + 24 + hdrSize ≤ tdataSize ↔
      ShortEcho attrs := by
  have size : (stunHdrFromPacket heap (responseAttrs saddr attrs)).mlen =
      attrsSize (responseAttrs saddr attrs) % 65536 :=
    congrArg (· % 65536) length_attrBytes
  rw [size, attrsSize_responseAttrs]
  unfold ShortEcho hdrSize tdataSize
  cases found : stunAttrId attrs stunUsername with
  | none => simp
  | some username =>
      simp only [Option.map_some, Option.getD_some, Option.some.injEq, forall_eq']
      omega

theorem stunGetResponse_isOk_iff :
    (∃ resp, stunGetResponse p (some stunKey) req saddr = .ok resp) ↔
      Summable (some stunKey) req.bytes ∧
        ∀ l, Attrs req.bytes (hdrSize + be16 req.bytes 2) hdrSize l →
          ShortEcho (l.map Prod.snd) := by
  have readable := le_length_bytes req
  have transIdRead : readBytes req.bytes 8 12 = .ok (slice req.bytes 8 12) :=
    readBytes_eq_ok_iff.mpr ⟨by omega, rfl⟩
  have whole : 8 + 12 ≤ req.bytes.length := by
    omega
  have signs : ∀ attrs, (∃ marked, (stunAddIntegrity p.hmac
      { stunHdrFromPacket p.heap (responseAttrs saddr attrs) with
        mcookie := stunMCookie, verType := stunResp, transId := slice req.bytes 8 12 } stunKey >>=
      addFingerprint p.crcTab) = .ok marked) ↔ ShortEcho attrs := by
    intro attrs
    have allocated : Allocated { stunHdrFromPacket p.heap (responseAttrs saddr attrs) with
        mcookie := stunMCookie, verType := stunResp, transId := slice req.bytes 8 12 } :=
      ⟨length_slice whole, Nat.mod_le _ _⟩
    exact (signs_isOk_iff allocated).trans mlen_stunHdrFromPacket
  rw [stunGetResponse]
  constructor
  · rintro ⟨resp, result⟩
    rcases bind_eq_ok_iff.mp result with ⟨attrs, parsed, result⟩
    rcases (stunPacketFromHdr_eq_ok_iff readable).mp parsed with ⟨l, attributes, rfl, summable⟩
    dsimp only at result
    rw [transIdRead, ok_bind] at result
    rcases bind_eq_ok_iff.mp result with ⟨signed, first, result⟩
    rcases bind_eq_ok_iff.mp result with ⟨marked, second, -⟩
    refine ⟨summable, fun l' attributes' => ?_⟩
    rw [attributes'.unique attributes]
    exact (signs _).mp ⟨marked, bind_eq_ok_iff.mpr ⟨signed, first, second⟩⟩
  · rintro ⟨summable, short⟩
    have small := be16_lt req.bytes 2
    have room : hdrSize + be16 req.bytes 2 + 65539 ≤ req.bytes.length := by
      unfold hdrSize
      omega
    rcases exists_attrs (be16 req.bytes 2) hdrSize room (Nat.le_refl _) with ⟨l, attributes⟩
    rcases (signs _).mpr (short l attributes) with ⟨marked, result⟩
    rcases bind_eq_ok_iff.mp result with ⟨signed, first, second⟩
    rw [(stunPacketFromHdr_eq_ok_iff readable).mpr ⟨l, attributes, rfl, summable⟩, ok_bind]
    dsimp only
    rw [transIdRead, ok_bind, first, ok_bind, second, ok_bind]
    exact ⟨_, rfl⟩

/-- The check is built and the request is answered without leaving an array or the 16 bits of
a length. -/
def Suffices (p : Platform) (draws : Nat) (lufrag rufrag rpwd key : Option Text) (req : RecvBuf)
    (saddr : SockAddr) : Prop :=
  (∃ stnReq, getStunFullRequest p draws lufrag rufrag rpwd = .ok stnReq) ∧
    ∃ resp, stunGetResponse p key req saddr = .ok resp

/-- **Scratch buffers.**  They suffice exactly for user names of 60 bytes together, and for
requests of at most 136 bytes whose signatures begin in the first 128 and whose own user name
leaves room in the response. -/
theorem suffices_iff : Suffices p draws lufrag rufrag rpwd key req saddr ↔
    ShortNames lufrag rufrag rpwd ∧ (key.isSome → Summable key req.bytes ∧
      ∀ l, Attrs req.bytes (hdrSize + be16 req.bytes 2) hdrSize l →
        ShortEcho (l.map Prod.snd)) := by
  unfold Suffices
  rw [getStunFullRequest_isOk_iff]
  cases key with
  | none => simp [stunGetResponse]
  | some stunKey => simp only [stunGetResponse_isOk_iff, Option.isSome_some, true_implies]

/-- A platform whose sums are all zero. -/
def zeroPlatform : Platform where
  hmac := zeroHmac
  crcTab := fun _ => 0
  heap := fun _ => 0
  random := fun _ => ⟨0, Nat.two_pow_pos 31⟩
  stnPkt := fun _ => 0
  inetAton := fun _ => none
  outer := fun _ => none

/-- A request that announces 2000 bytes. -/
def announcing : RecvBuf where
  datagram := ⟨[0x00, 0x01, 0x07, 0xD0, 0x21, 0x12, 0xA4, 0x42] ++ List.replicate 12 0, by decide⟩
  behind := List.replicate 0x20020 0
  readable := by rw [List.length_replicate]

/-- Neither a remote user name of 128 bytes nor a request that announces 2000 bytes stays inside
the arrays. -/
theorem not_suffices :
    ¬Suffices zeroPlatform 0 (some (lit "l")) (some (List.replicate 128 (ch 'r')))
        (some (lit "pwd")) none announcing ⟨5004, 0x0A000001⟩ ∧
      ¬Suffices zeroPlatform 0 (some (lit "l")) (some (lit "r")) (some (lit "pwd"))
        (some (lit "key")) announcing ⟨5004, 0x0A000001⟩ := by
  constructor
  · rintro ⟨built, -⟩
    have short := getStunFullRequest_isOk_iff.mp built _ _ _ rfl rfl rfl
    rw [List.length_replicate] at short
    omega
  · rintro ⟨-, answered⟩
    have short := (stunGetResponse_isOk_iff.mp answered).1.1
    have announced : be16 announcing.bytes 2 = 2000 :=
      rfl
    rw [announced, tdataSize] at short
    omega

end Scratch

end Xwbot.Ice
