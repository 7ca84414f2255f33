import Xwbot.Ice.Pairing

/-!
# Received datagrams

Which datagrams the plugin gets through with, and which of its two sockets it
takes them to be from.  The flag of the control socket is negated bit by bit,
and no negated bit is zero as a number: every datagram counts as media.
-/

namespace Xwbot.Ice

open Runs

/-! ## Kinds of datagrams -/

/-- A connectivity check of the peer. -/
def Received.IsRequest (r : Received) : Prop :=
  be16 r.buf.bytes 0 = stunReq

/-- A packet that belongs to neither kind of STUN message.  Packets that begin with a zero byte
are ignored. -/
def Received.IsOther (r : Received) : Prop :=
  be16 r.buf.bytes 0 ≠ stunReq ∧ be16 r.buf.bytes 0 ≠ stunResp ∧ be16 r.buf.bytes 0 / 256 ≠ 0

namespace IoStream

variable {p : Platform} {ice ice' : IoStream} {r : Received} {flags : UInt32} {peer : SockAddr}
  {out : List Output} {mapped : Option SockAddr}

/-! ## What is received -/

/-- What the loop over the pairs leaves as it is. -/
theorem succeedPair_eq : ∃ cPairs cPairLastSuccess cr,
    cPairs.items.length = ice.cPairs.items.length ∧ succeedPair ice peer =
      { ice with cPairs := cPairs, cPairLastSuccess := cPairLastSuccess, cr := cr } := by
  unfold succeedPair
  split
  · exact ⟨_, _, _, rfl, rfl⟩
  · dsimp only
    split
    · exact ⟨_, _, _, List.length_modify .., rfl⟩
    · exact ⟨_, _, _, List.length_modify .., rfl⟩

/-- A mapped address that is new has room among the local candidates. -/
def Addable (p : Platform) (ice : IoStream) (mapped : Option SockAddr) : Prop :=
  ∀ addr, mapped = some addr →
    knowsLocal ice.children (inetNtop addr.addr) (decimal addr.port.toNat) = false →
      Insertable p ice (lit "local-candidate") (srflxAttrs addr)

theorem addMapped_succeeds_iff : Succeeds (addMapped p ice mapped) ↔ Addable p ice mapped := by
  unfold addMapped Addable
  cases mapped with
  | none => simp
  | some addr =>
      simp only [Option.some.injEq, forall_eq']
      split
      · rename_i known
        simp [known]
      · rename_i unknown
        rw [appendChild_succeeds_iff]
        simp [unknown]

theorem addable_succeedPair_iff :
    Addable p (succeedPair ice peer) mapped ↔ Addable p ice mapped := by
  rcases @succeedPair_eq ice peer with ⟨cPairs, cPairLastSuccess, cr, length, same⟩
  rw [same]
  unfold Addable Insertable
  rw [length]

/-- The datagrams that the plugin gets through with: a request that is answerable, a response
that is parsable and whose mapped address has room, or media of a type below 127. -/
def Receivable (p : Platform) (ice : IoStream) (r : Received) : Prop :=
  if be16 r.buf.bytes 0 = stunReq then
    ∃ stunKey, getattr (lit "pwd") ice.attrs = some stunKey ∧ ∃ l, Answerable r.buf stunKey l
  else if be16 r.buf.bytes 0 = stunResp then
    ∃ l, Parsable r.buf none l ∧
      ∃ mapped, mappedAddress (l.map Prod.snd) = .ok mapped ∧ Addable p ice mapped
  else be16 r.buf.bytes 0 / 256 ≠ 0 → be16 r.buf.bytes 0 % 128 < payloadCacheSize

theorem onResponse_succeeds_iff : Succeeds (onResponse p ice r) ↔
    ∃ l, Parsable r.buf none l ∧
      ∃ mapped, mappedAddress (l.map Prod.snd) = .ok mapped ∧ Addable p ice mapped := by
  unfold onResponse
  dsimp only
  have addable : ∀ mapped,
      Addable p (if hasCookie r.buf then succeedPair ice r.peer else ice) mapped ↔
        Addable p ice mapped := by
    intro mapped
    split
    · exact addable_succeedPair_iff
    · exact Iff.rfl
  rw [succeeds_bind_iff]
  constructor
  · rintro ⟨pkt, parsed, later⟩
    rcases stunPacketFromHdr_eq_ok_iff.mp parsed with ⟨l, parsable, rfl⟩
    rcases succeeds_bind_iff.mp later with ⟨mapped, found, added⟩
    exact ⟨l, parsable, mapped, found, (addable mapped).mp (addMapped_succeeds_iff.mp added)⟩
  · rintro ⟨l, parsable, mapped, found, room⟩
    refine ⟨_, stunPacketFromHdr_eq_ok_iff.mpr ⟨l, parsable, rfl⟩, ?_⟩
    exact succeeds_bind_iff.mpr
      ⟨mapped, found, addMapped_succeeds_iff.mpr ((addable mapped).mpr room)⟩

theorem routeRtpPacketIn_succeeds_iff : Succeeds (routeRtpPacketIn ice r) ↔
    be16 r.buf.bytes 0 % 128 < payloadCacheSize := by
  unfold routeRtpPacketIn
  dsimp only
  split
  · rename_i small
    simp only [small, iff_true]
    split
    · exact succeeds_ok _
    · split
      · exact succeeds_ok _
      · exact succeeds_ok _
  · rename_i large
    simp [large]

/-- No datagram is taken for a control packet. -/
theorem isRtp_ne_zero (flags : UInt32) : isRtp flags ≠ 0 := by
  unfold isRtp
  intro zero
  have bit : (flags &&& 0x1).toNat ≤ 1 := by
    rw [UInt32.toNat_and]
    exact Nat.and_le_right
  have all : flags &&& 0x1 = ~~~0 := by
    rw [← zero, UInt32.not_not]
  rw [all] at bit
  exact absurd bit (by decide)

/-- What `__on_packet_in` amounts to. -/
theorem onPacketIn_eq : onPacketIn p ice flags r =
    if be16 r.buf.bytes 0 = stunReq then
      stunGetResponse p.hmac p.crcTab p.heap (getattr (lit "pwd") ice.attrs) r.buf r.peer >>=
        fun resp => match resp with
          | none => .error .segv
          | some resp => .ok (ice, [.response ice.sockv4 r.peer resp])
    else if be16 r.buf.bytes 0 = stunResp then onResponse p ice r
    else if be16 r.buf.bytes 0 / 256 ≠ 0 then
      routeRtpPacketIn ice r >>= fun routed =>
        .ok (routed.1, .routeRtp r.buf.bytes r.len :: routed.2)
    else .ok (ice, []) := by
  unfold onPacketIn
  -- the same test decides on the socket and on the route
  rewrite [if_pos (isRtp_ne_zero flags), if_pos (isRtp_ne_zero flags)]
  rfl

theorem onPacketIn_succeeds_iff : Succeeds (onPacketIn p ice flags r) ↔ Receivable p ice r := by
  rw [onPacketIn_eq, Receivable]
  split
  · rw [succeeds_bind_iff]
    cases keyed : getattr (lit "pwd") ice.attrs with
    | none =>
        simp only [reduceCtorEq, false_and, exists_false, iff_false]
        rintro ⟨resp, answered, later⟩
        cases answered
        cases later
        contradiction
    | some stunKey =>
        simp only [Option.some.injEq, exists_eq_left']
        rw [← stunGetResponse_isOk_iff]
        constructor
        · rintro ⟨resp, answered, -⟩
          exact ⟨resp, answered⟩
        · rintro ⟨resp, answered⟩
          rcases Option.isSome_iff_exists.mp (stunGetResponse_isSome answered) with ⟨hdr, rfl⟩
          exact ⟨some hdr, answered, succeeds_ok _⟩
  · split
    · exact onResponse_succeeds_iff
    · split
      · rename_i media
        rw [succeeds_bind_iff]
        simp only [media, ne_eq, not_false_eq_true, true_implies]
        rw [← @routeRtpPacketIn_succeeds_iff ice r]
        constructor
        · rintro ⟨routed, result, -⟩
          exact ⟨routed, result⟩
        · rintro ⟨routed, result⟩
          exact ⟨routed, result, succeeds_ok _⟩
      · rename_i other
        simp [other]

/-! ## Demultiplexing -/

/-- The socket of the control packets, or of the media. -/
def socket (ice : IoStream) (ctl : Bool) : Nat :=
  if ctl then ice.sockv4Ctl else ice.sockv4

/-- The handler of a socket. -/
def onChannelEvent (p : Platform) (ice : IoStream) (ctl : Bool) (r : Received) :
    Except Fault (IoStream × List Output) :=
  if ctl then onChannelIpv4CtlEvent p ice r else onChannelIpv4Event p ice r

/-- The call that passes on what came through a socket. -/
def route (ctl : Bool) (r : Received) : Output :=
  if ctl then .routeRtcp r.buf.bytes r.len else .routeRtp r.buf.bytes r.len

/-- A datagram is treated as what its socket is for: a request is answered from there, another
packet goes to the route of the socket and not to the other one. -/
def Demuxes (p : Platform) (ice : IoStream) (ctl : Bool) (r : Received) : Prop :=
  ∃ ice' out, onChannelEvent p ice ctl r = .ok (ice', out) ∧
    (r.IsRequest → ∃ resp, out = [.response (ice.socket ctl) r.peer resp]) ∧
    (r.IsOther → route ctl r ∈ out ∧ route (!ctl) r ∉ out)

/-- Both handlers do the same. -/
theorem onChannelEvent_eq (ctl : Bool) : onChannelEvent p ice ctl r = onPacketIn p ice 0 r := by
  have any : ∀ flags flags', onPacketIn p ice flags r = onPacketIn p ice flags' r := by
    intro flags flags'
    rw [onPacketIn_eq, onPacketIn_eq]
  cases ctl with
  | true => exact any _ _
  | false => exact any _ _

/-- A response is handled as one; another datagram changes nothing, or the route of the media
does. -/
theorem onChannelEvent_cases {ctl : Bool} (result : onChannelEvent p ice ctl r = .ok (ice', out)) :
    be16 r.buf.bytes 0 = stunResp ∧ onResponse p ice r = .ok (ice', out) ∨
      be16 r.buf.bytes 0 ≠ stunResp ∧
        (ice' = ice ∨ ∃ sent, routeRtpPacketIn ice r = .ok (ice', sent)) := by
  rw [onChannelEvent_eq, onPacketIn_eq] at result
  split at result
  · rename_i request
    refine .inr ⟨fun response => ?_, .inl ?_⟩
    · rw [response] at request
      cases request
    · rcases bind_eq_ok_iff.mp result with ⟨resp, -, sent⟩
      cases resp with
      | none => cases sent
      | some resp =>
          cases sent
          rfl
  · split at result
    · rename_i response
      exact .inl ⟨response, result⟩
    · rename_i other
      refine .inr ⟨other, ?_⟩
      split at result
      · rcases bind_eq_ok_iff.mp result with ⟨routed, passed, sent⟩
        cases sent
        exact .inr ⟨routed.2, passed⟩
      · cases result
        exact .inl rfl

/-- Media objects and followers are all that the route of the media writes to. -/
theorem routeRtpPacketIn_out (result : routeRtpPacketIn ice r = .ok (ice', out)) :
    ∀ o ∈ out, ∃ owner data plen, o = .media owner data plen := by
  unfold routeRtpPacketIn at result
  dsimp only at result
  split at result
  · split at result
    · cases result
      intro o member
      exact ⟨_, _, _, List.mem_singleton.mp member⟩
    · split at result
      · cases result
        intro o member
        cases member
      · cases result
        intro o member
        exact ⟨_, _, _, List.mem_singleton.mp member⟩
  · cases result

theorem onPacketIn_of_request (request : r.IsRequest) : onPacketIn p ice flags r =
    (stunGetResponse p.hmac p.crcTab p.heap (getattr (lit "pwd") ice.attrs) r.buf r.peer >>=
      fun resp => match resp with
        | none => .error .segv
        | some resp => .ok (ice, [.response ice.sockv4 r.peer resp])) :=
  onPacketIn_eq.trans (if_pos request)

theorem onPacketIn_of_other (other : r.IsOther) : onPacketIn p ice flags r =
    (routeRtpPacketIn ice r >>= fun routed =>
      .ok (routed.1, .routeRtp r.buf.bytes r.len :: routed.2)) := by
  rw [onPacketIn_eq, if_neg other.1, if_neg other.2.1, if_pos other.2.2]

/-- **Demultiplexing.**  A datagram that the plugin gets through with is treated as what its
socket is for, unless it is a request or another packet for the control socket. -/
theorem demuxes_iff {ctl : Bool} (distinct : ice.sockv4 ≠ ice.sockv4Ctl) :
    Demuxes p ice ctl r ↔
      Receivable p ice r ∧ (ctl = true → ¬r.IsRequest ∧ ¬r.IsOther) := by
  constructor
  · rintro ⟨ice', out, result, answers, routes⟩
    rw [onChannelEvent_eq] at result
    refine ⟨onPacketIn_succeeds_iff.mp ⟨_, result⟩, ?_⟩
    rintro rfl
    constructor
    · intro request
      rw [onPacketIn_of_request request] at result
      rcases answers request with ⟨resp, answered⟩
      rcases bind_eq_ok_iff.mp result with ⟨resp', -, sent⟩
      cases resp' with
      | none => cases sent
      | some resp' =>
          have same := (Prod.mk.inj (Except.ok.inj sent)).2
          rw [answered] at same
          have sockets := (Output.response.inj (List.cons.inj same).1).1
          exact distinct sockets
    · intro other
      rw [onPacketIn_of_other other] at result
      rcases bind_eq_ok_iff.mp result with ⟨routed, -, sent⟩
      cases sent
      exact (routes other).2 List.mem_cons_self
  · rintro ⟨receivable, media⟩
    rcases onPacketIn_succeeds_iff.mpr receivable with ⟨⟨ice', out⟩, result⟩
    refine ⟨ice', out, (onChannelEvent_eq ctl).trans result, ?_, ?_⟩
    · intro request
      cases ctl with
      | true => exact absurd request (media rfl).1
      | false =>
          rw [onPacketIn_of_request request] at result
          rcases bind_eq_ok_iff.mp result with ⟨resp, -, sent⟩
          cases resp with
          | none => cases sent
          | some resp =>
              cases sent
              exact ⟨resp, rfl⟩
    · intro other
      cases ctl with
      | true => exact absurd other (media rfl).2
      | false =>
          rw [onPacketIn_of_other other] at result
          rcases bind_eq_ok_iff.mp result with ⟨⟨ice'', written⟩, routed, sent⟩
          cases sent
          refine ⟨List.mem_cons_self, ?_⟩
          intro member
          rcases List.mem_cons.mp member with same | member
          · cases same
          · rcases routeRtpPacketIn_out routed _ member with ⟨owner, data, plen, same⟩
            cases same

/-- A datagram in a buffer that was zero. -/
def arrived (peer : SockAddr) (bytes : List Byte) (short : bytes.length ≤ 0x800) : Received where
  peer := peer
  buf := ⟨bytes ++ List.replicate (0x800 - bytes.length) 0, by
    rw [List.length_append, List.length_replicate]
    omega⟩
  whole := by
    show (bytes ++ List.replicate (0x800 - bytes.length) 0).length = 0x800
    rw [List.length_append, List.length_replicate]
    omega
  len := bytes.length
  within := short
  payloads := []

/-- A packet of two bytes. -/
def packet (first second : Byte) : Received :=
  arrived ⟨5000, 0x0A000001⟩ [first, second] (by simp)

/-- A packet that arrives for the media. -/
theorem demuxes_iff_media : Demuxes host (created [] 5 6) false (packet 0x80 0x60) :=
  (demuxes_iff (by decide)).mpr
    ⟨by rw [Receivable, if_neg (by decide), if_neg (by decide)]; decide, by simp⟩

/-- A control packet is passed on as media. -/
theorem not_demuxes_control : ¬Demuxes host (created [] 5 6) true (packet 0x80 0xC8) := by
  rintro ⟨ice', out, result, -, routes⟩
  have other : (packet 0x80 0xC8).IsOther := by
    unfold Received.IsOther
    decide
  rw [onChannelEvent_eq, onPacketIn_of_other other] at result
  rcases bind_eq_ok_iff.mp result with ⟨routed, -, sent⟩
  cases sent
  exact (routes other).2 List.mem_cons_self

end IoStream

end Xwbot.Ice
