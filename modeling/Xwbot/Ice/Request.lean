import Xwbot.Ice.Response

/-!
# Connectivity checks

The request that is built for a remote candidate.  Its transaction number is
the decimal text of a random number, cut to eleven characters.  The builder
copies the request into the same arrays of 128 bytes as the responder.
-/

namespace Xwbot.Ice

/-- `STUN_PRIORITY` -/
def stunPriority : Nat :=
  0x0024

/-- `STUN_ICE_CONTROLLED` -/
def stunIceControlled : Nat :=
  0x8029

/-- `sizeof(fullfrag)` -/
def fullfragSize : Nat :=
  128

/-- What the plugin finds outside its own state. -/
structure Platform where
  hmac : HmacSha1
  crcTab : CrcTab
  /-- The contents of fresh memory. -/
  heap : Nat → Byte
  /-- What the calls of `random()` return, in their order. -/
  random : Nat → Fin (2 ^ 31)
  /-- The low half of the address of the packet that is built after so many calls. -/
  stnPkt : Nat → UInt32
  /-- `x_inet_aton` -/
  inetAton : Text → Option UInt32
  /-- The attributes of the objects around the stream, as `_ENV` finds them. -/
  outer : Text → Option Text

/-- The format `%d` for a number that is not negative. -/
def decimal (n : Nat) : Text :=
  (Nat.toDigits 10 n).map ch

/-- The bytes of a number on a machine that stores the low ones first. -/
def littleEndian : Nat → Nat → List Byte
  | 0, _ => []
  | size + 1, n => n.toUInt8 :: littleEndian size (n / 256)

/-- `x_snprintf(trans_id, sizeof(trans_id), "%12d", random())`: the last byte is the NUL. -/
def transIdText (r : Nat) : List Byte :=
  (List.replicate (12 - (decimal r).length) (ch ' ') ++ decimal r).take 11 ++ [0]

/-- The attributes of a check.  The priority is the address of the packet. -/
def requestAttrs (p : Platform) (draws : Nat) (fullfrag : Text) : List StunAttr :=
  let attrs := stunSetAttrD [] stunPriority (littleEndian 4 (p.stnPkt draws).toNat)
  let attrs := stunSetAttrD attrs stunIceControlled (littleEndian 8 (p.random draws))
  stunSetAttrD attrs stunUsername fullfrag

/-- The check before it is signed. -/
def unsignedRequest (p : Platform) (draws : Nat) (fullfrag : Text) : StunHdr :=
  { stunHdrFromPacket p.heap (requestAttrs p draws fullfrag) with
    mcookie := stunMCookie, verType := stunReq, transId := transIdText (p.random (draws + 1)) }

/-- `get_stun_full_request`, which calls `random()` twice; NULL without all credentials. -/
def getStunFullRequest (p : Platform) (draws : Nat) (lufrag rufrag rpwd : Option Text) :
    Except Fault (Option StunHdr) :=
  match lufrag, rufrag, rpwd with
  | some lufrag, some rufrag, some rpwd => do
      let fullfrag := rufrag ++ lit ":" ++ lufrag
      if fullfrag.length < fullfragSize then do
        let stnReq := unsignedRequest p draws fullfrag
        let stnReq ← stunAddIntegrity p.hmac stnReq rpwd
        let stnReq ← addFingerprint p.crcTab stnReq
        .ok (some stnReq)
      else .error .overflow
  | _, _, _ => .ok none

/-! ## When a check is built -/

variable {p : Platform} {draws : Nat} {lufrag rufrag rpwd : Option Text} {fullfrag : Text}

theorem length_littleEndian (size n : Nat) : (littleEndian size n).length = size := by
  induction size generalizing n with
  | zero => rfl
  | succ size ih => rw [littleEndian, List.length_cons, ih]

theorem length_transIdText (r : Nat) : (transIdText r).length = 12 := by
  unfold transIdText
  simp only [List.length_append, List.length_take, List.length_replicate, List.length_cons,
    List.length_nil]
  omega

/-- The credentials are there, and the check fits the arrays that it is copied to. -/
def Requestable (lufrag rufrag rpwd : Option Text) : Prop :=
  ∃ l r pwd, lufrag = some l ∧ rufrag = some r ∧ rpwd = some pwd ∧ r.length + 1 + l.length ≤ 60

theorem unsignedRequest_sized : (unsignedRequest p draws fullfrag).Sized where
  transId := length_transIdText _
  mlen := rfl

theorem length_unsignedRequest :
    (unsignedRequest p draws fullfrag).payload.length = 24 + addrlenAlign fullfrag.length := by
  have size : (unsignedRequest p draws fullfrag).payload.length =
      attrsSize (requestAttrs p draws fullfrag) :=
    length_attrBytes
  rw [size]
  simp only [attrsSize, requestAttrs, stunSetAttrD, length_littleEndian, addrlenAlign,
    List.nil_append, List.cons_append, List.map_cons, List.map_nil, List.sum_cons, List.sum_nil]
  omega

/-- Signing leaves the transaction number as it is. -/
theorem stunAddIntegrity_transId {hmac : HmacSha1} {hdr hdr' : StunHdr} {key : Text}
    (result : stunAddIntegrity hmac hdr key = .ok hdr') : hdr'.transId = hdr.transId := by
  rcases bind_eq_ok_iff.mp result with ⟨tdata, -, built⟩
  cases built
  rfl

theorem addFingerprint_transId {crcTab : CrcTab} {hdr hdr' : StunHdr}
    (result : addFingerprint crcTab hdr = .ok hdr') : hdr'.transId = hdr.transId := by
  rcases bind_eq_ok_iff.mp result with ⟨crc, -, built⟩
  cases built
  rfl

/-- The signed check fits exactly if the user names have 60 bytes at most. -/
theorem signs_iff {pwd : Text} :
    (∃ stnReq, (stunAddIntegrity p.hmac (unsignedRequest p draws fullfrag) pwd >>=
      addFingerprint p.crcTab) = .ok stnReq) ↔ fullfrag.length ≤ 60 := by
  have sized : (unsignedRequest p draws fullfrag).Sized := unsignedRequest_sized
  have size : (unsignedRequest p draws fullfrag).payload.length =
      24 + addrlenAlign fullfrag.length := length_unsignedRequest
  have fits := le_addrlenAlign fullfrag.length
  constructor
  · rintro ⟨stnReq, result⟩
    rcases bind_eq_ok_iff.mp result with ⟨signed, signs, marks⟩
    have room := (stunAddIntegrity_isOk_iff sized).mp ⟨signed, signs⟩
    rcases stunAddIntegrity_sized sized signs with ⟨sized', -, digest, extended⟩
    have grown : signed.payload.length =
        (unsignedRequest p draws fullfrag).payload.length + 24 := by
      rw [extended]
      simp [digest.sized]
    simp only [hdrSize, tdataSize] at room
    have room' := (addFingerprint_isOk_iff sized' (by omega)).mp ⟨stnReq, marks⟩
    simp only [hdrSize, tdataSize] at room'
    omega
  · intro short
    have small : addrlenAlign fullfrag.length ≤ 60 := by
      unfold addrlenAlign
      omega
    have signs : ∃ signed,
        stunAddIntegrity p.hmac (unsignedRequest p draws fullfrag) pwd = .ok signed := by
      apply (stunAddIntegrity_isOk_iff sized).mpr
      simp only [hdrSize, tdataSize]
      omega
    rcases signs with ⟨signed, signs⟩
    rcases stunAddIntegrity_sized sized signs with ⟨sized', -, digest, extended⟩
    have grown : signed.payload.length =
        (unsignedRequest p draws fullfrag).payload.length + 24 := by
      rw [extended]
      simp [digest.sized]
    have marks : ∃ marked, addFingerprint p.crcTab signed = .ok marked := by
      apply (addFingerprint_isOk_iff sized' (by omega)).mpr
      simp only [hdrSize, tdataSize]
      omega
    rcases marks with ⟨marked, marks⟩
    exact ⟨marked, bind_eq_ok_iff.mpr ⟨signed, signs, marks⟩⟩

/-- There is a check exactly for the candidates that are requestable. -/
theorem getStunFullRequest_isSome_iff :
    (∃ stnReq, getStunFullRequest p draws lufrag rufrag rpwd = .ok (some stnReq)) ↔
      Requestable lufrag rufrag rpwd := by
  unfold getStunFullRequest
  split
  · rename_i l r pwd
    have length : (r ++ lit ":" ++ l).length = r.length + 1 + l.length := by
      rw [List.length_append, List.length_append]
      rfl
    have short := @signs_iff p draws (r ++ lit ":" ++ l) pwd
    dsimp only
    constructor
    · rintro ⟨stnReq, result⟩
      split at result
      · rcases bind_eq_ok_iff.mp result with ⟨signed, signs, result⟩
        rcases bind_eq_ok_iff.mp result with ⟨marked, marks, -⟩
        have room := short.mp ⟨marked, bind_eq_ok_iff.mpr ⟨signed, signs, marks⟩⟩
        exact ⟨l, r, pwd, rfl, rfl, rfl, by omega⟩
      · cases result
    · rintro ⟨l', r', pwd', same, same', same'', room⟩
      cases same
      cases same'
      cases same''
      rcases short.mpr (by omega) with ⟨marked, result⟩
      rcases bind_eq_ok_iff.mp result with ⟨signed, signs, marks⟩
      rw [if_pos (by rw [length, fullfragSize]; omega), signs, ok_bind, marks, ok_bind]
      exact ⟨marked, rfl⟩
  · rename_i missing
    constructor
    · rintro ⟨stnReq, impossible⟩
      cases impossible
    · rintro ⟨l, r, pwd, rfl, rfl, rfl, -⟩
      exact (missing l r pwd rfl rfl rfl).elim

/-- The transaction number of a check is the text of the second random number. -/
theorem getStunFullRequest_transId {stnReq : StunHdr}
    (result : getStunFullRequest p draws lufrag rufrag rpwd = .ok (some stnReq)) :
    stnReq.transId = transIdText (p.random (draws + 1)) := by
  unfold getStunFullRequest at result
  split at result
  · dsimp only at result
    split at result
    · rcases bind_eq_ok_iff.mp result with ⟨signed, signs, result⟩
      rcases bind_eq_ok_iff.mp result with ⟨marked, marks, same⟩
      cases same
      rw [addFingerprint_transId marks, stunAddIntegrity_transId signs]
      rfl
    · cases result
  · cases result

end Xwbot.Ice
