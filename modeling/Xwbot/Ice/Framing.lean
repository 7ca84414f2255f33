import Xwbot.Ice.Decimal
import Xwbot.Ice.Media
import Xwbot.Ice.ResponseShape
import Xwbot.Ice.Rtp

/-!
# Media on the wire

What `icectl_try_write` sends is a header that is filled from hints, which are decimal texts, and
the payload.  A hint that is missing is not refused: the field is left as the stack has it, and a
missing payload type is dereferenced.
-/

namespace Xwbot.Ice

open Runs IoStream

variable {p : Platform} {ice ice' : IoStream} {out : List Output} {attr : Option AttrList}
  {payload : List Byte} {pt : Nat} {seqno stamp : Int} {name : Text} {attrs : AttrList}

/-! ## Packets -/

/-- The bytes of the header.  A field that is not filled has the bytes of the stack.  The first
byte holds the version 2, and the second one no marker. -/
def RtpHdr.bytes (hdr : RtpHdr) : List (Option Byte) :=
  let field := fun (encode : Nat → List Byte) (size : Nat) (n : Option Nat) =>
    n.elim (List.replicate size none) fun n => (encode n).map some
  some 0x80 :: some hdr.pt.toUInt8 ::
    (field htons 2 hdr.seq ++ field htonl 4 hdr.tStamp ++ field htonl 4 hdr.ssrcId)

/-- The datagram that is sent. -/
def RtpHdr.datagram (hdr : RtpHdr) (payload : List Byte) : List (Option Byte) :=
  hdr.bytes ++ payload.map some

/-- The version in the first byte of a packet. -/
def rtpVersion (octet1 : Byte) : Nat :=
  (octet1 >>> 6).toNat

/-- A packet of version 2 with these fields, and with nothing else around the payload. -/
structure IsRtpPacket (datagram : List Byte) (pt seq tStamp ssrc : Nat) (payload : List Byte) :
    Prop where
  version : rtpVersion (datagram.getD 0 0) = 2
  padding : hasPadding (datagram.getD 0 0) = false
  extension : hasExtension (datagram.getD 0 0) = false
  sources : csrcCount (datagram.getD 0 0) = 0
  pt : be16 datagram 0 % 128 = pt
  seq : be16 datagram 2 = seq
  tStamp : be32 datagram 4 = tStamp
  ssrc : be32 datagram 8 = ssrc
  payload : datagram.drop 12 = payload

/-! ## Hints -/

/-- A hint of a write. -/
def hint (attr : Option AttrList) (name : String) : Option Text :=
  attr.bind (getattr (lit name))

/-- All hints are there. -/
def Hinted (attr : Option AttrList) : Prop :=
  (hint attr "pt").isSome ∧ (hint attr "seqno").isSome ∧ (hint attr "timestamp").isSome

/-- The value of a counter of 32 bits, with or without a sign. -/
def IsCounter (v : Int) : Prop :=
  -2 ^ 31 ≤ v ∧ v < 2 ^ 32

/-- The hints are a payload type and two counters. -/
structure Hints (attr : Option AttrList) (pt : Nat) (seqno stamp : Int) : Prop where
  small : pt ≤ 127
  counters : IsCounter seqno ∧ IsCounter stamp
  ptHint : hint attr "pt" = some (decimal pt)
  seqnoHint : hint attr "seqno" = some (counterText seqno)
  stampHint : hint attr "timestamp" = some (counterText stamp)

/-! ## The numbers of local candidates -/

/-- The number of the stream was drawn. -/
def Candidate.HasNumber (cand : Candidate) : Prop :=
  ∃ n < 2 ^ 31, cand.streamId = some n

/-- All local candidates have a number. -/
structure Numbered (ice : IoStream) : Prop where
  locals : ∀ cand ∈ ice.locals.items, cand.HasNumber
  pairs : ∀ pair ∈ ice.cPairs.items, ∀ cand, pair.localCand = some cand → cand.HasNumber

theorem numbered_created (attrs : AttrList) (sockv4 sockv4Ctl : Nat) :
    Numbered (created attrs sockv4 sockv4Ctl) :=
  ⟨by simp [created, Slots.empty], by simp [created, Slots.empty]⟩

theorem Numbered.appendChild (numbered : Numbered ice)
    (result : IoStream.appendChild p ice name attrs = .ok (ice', out)) : Numbered ice' := by
  have linked : Numbered (ice.linkChild name attrs) := ⟨numbered.locals, numbered.pairs⟩
  unfold IoStream.appendChild onChildAppend at result
  split at result
  · rcases onLocalCandidate_eq_ok_iff.mp result with
      ⟨-, rfl, -⟩ | ⟨addr, -, middle, inserted, rfl, -⟩
    · exact linked
    · rcases insertLocalCandidate_eq_ok_iff.mp inserted with
        ⟨-, rfl⟩ | ⟨-, locals, cPairs, pushed, paired, rfl⟩
      · exact ⟨linked.locals, linked.pairs⟩
      · constructor
        case locals =>
          intro cand member
          rw [show _ = _ from pushed] at member
          rcases List.mem_append.mp member with member | member
          · exact linked.locals cand member
          · rw [List.mem_singleton.mp member]
            exact ⟨_, (p.random _).isLt, rfl⟩
        case pairs =>
          intro pair member cand isLocal
          rw [show _ = _ from paired] at member
          rcases List.mem_append.mp member with member | member
          · exact linked.pairs pair member cand isLocal
          · rw [(mem_localPairs member).1] at isLocal
            cases isLocal
            exact ⟨_, (p.random _).isLt, rfl⟩
  · split at result
    · rcases (onRemoteCandidate_eq_ok_iff.mp result).2 with
        ⟨-, rfl⟩ | ⟨addr, -, username, password, inserted, -⟩
      · exact linked
      · rcases insertRemoteCandidate_eq_ok_iff.mp inserted with
          ⟨-, rfl⟩ | ⟨-, remotes, cPairs, -, paired, rfl⟩
        · exact ⟨linked.locals, linked.pairs⟩
        · refine ⟨linked.locals, fun pair member cand isLocal => ?_⟩
          rw [show _ = _ from paired] at member
          rcases List.mem_append.mp member with member | member
          · exact linked.pairs pair member cand isLocal
          · rw [List.mem_singleton.mp member] at isLocal
            exact linked.locals cand (List.mem_of_head? isLocal)
    · cases result
      exact linked

theorem Numbered.addMapped {mapped : Option SockAddr} (numbered : Numbered ice)
    (result : IoStream.addMapped p ice mapped = .ok (ice', out)) : Numbered ice' := by
  unfold IoStream.addMapped at result
  split at result
  · cases result
    exact numbered
  · split at result
    · cases result
      exact numbered
    · exact numbered.appendChild result

theorem Numbered.succeedPair (numbered : Numbered ice) (peer : SockAddr) :
    Numbered (IoStream.succeedPair ice peer) := by
  cases found : awaiting ice peer with
  | none =>
      rw [succeedPair_of_not_awaiting found]
      exact numbered
  | some i =>
      have locals : (IoStream.succeedPair ice peer).locals = ice.locals := by
        rcases @succeedPair_eq ice peer with ⟨cPairs, cPairLastSuccess, cr, -, same⟩
        rw [same]
      refine ⟨fun cand member => numbered.locals cand (locals ▸ member), ?_⟩
      intro pair member cand isLocal
      rcases List.mem_iff_getElem?.mp member with ⟨j, there⟩
      rw [getElem?_succeedPair found] at there
      split at there
      · rcases Option.map_eq_some_iff.mp there with ⟨before, here, rfl⟩
        exact numbered.pairs before (List.mem_of_getElem? here) cand isLocal
      · exact numbered.pairs pair (List.mem_of_getElem? there) cand isLocal

theorem Numbered.handle {past : List (Event × List Output)} {e : Event} (numbered : Numbered ice)
    (checked : Checked ice past) (result : IoStream.handle p ice e = .ok (ice', out)) :
    Numbered ice' := by
  cases e with
  | childAppend name attrs => exact numbered.appendChild result
  | resendCandidates =>
      rcases bind_eq_ok_iff.mp result with ⟨⟨sent, draws⟩, -, same⟩
      cases same
      refine ⟨numbered.locals, fun pair member cand isLocal => ?_⟩
      rcases List.mem_map.mp member with ⟨before, inside, rfl⟩
      have kept : (IoStream.checked before).localCand = before.localCand := by
        unfold IoStream.checked
        split <;> rfl
      rw [kept] at isLocal
      exact numbered.pairs before inside cand isLocal
  | channelEvent ctl r =>
      rcases onChannelEvent_cases result with ⟨-, handled⟩ | ⟨-, rfl | ⟨sent, passed⟩⟩
      · rcases bind_eq_ok_iff.mp handled with ⟨pkt, -, later⟩
        rcases bind_eq_ok_iff.mp later with ⟨mapped, -, added⟩
        refine Numbered.addMapped ?_ added
        split
        · exact numbered.succeedPair r.peer
        · exact numbered
      · exact numbered
      · rw [routeRtpPacketIn_eq] at passed
        split at passed
        · split at passed
          · cases passed
            exact numbered
          · cases passed
            exact ⟨numbered.locals, numbered.pairs⟩
        · cases passed
  | tryWrite buf attr =>
      have written : IoStream.tryWrite ice buf attr = .ok (ice', out) := result
      rw [tryWrite_eq checked] at written
      split at written
      · cases written
        exact numbered
      · split at written
        · cases written
        · rcases bind_eq_ok_iff.mp written with ⟨rtp, -, sent⟩
          cases sent
          exact numbered

theorem numbered_run {sockv4 sockv4Ctl : Nat} {events : List Event} {o : Observed}
    (reached : run (observe p) (Observed.fresh attrs sockv4 sockv4Ctl) events = .ok o) :
    Numbered o.ice := by
  refine (run_invariant (fun o => Checked o.ice o.past ∧ Numbered o.ice) ?_
    ⟨checked_created attrs sockv4 sockv4Ctl, numbered_created attrs sockv4 sockv4Ctl⟩ reached).2
  rintro o e o' ⟨checked, numbered⟩ result
  refine ⟨checked_observe checked result, ?_⟩
  rcases map_eq_ok_iff.mp result with ⟨⟨ice', out⟩, handled, rfl⟩
  exact numbered.handle checked handled

/-! ## Sending -/

/-- The local candidate of the pair that media goes to. -/
def localEnd (ice : IoStream) : Option Candidate :=
  (ice.cPairLastSuccess.bind fun i => ice.cPairs.items[i]?).bind CandidatePair.localCand

/-- The bytes of a packet. -/
def rtpBytes (pt seq tStamp ssrc : Nat) (payload : List Byte) : List Byte :=
  [0x80, pt.toUInt8] ++ (htons seq ++ (htonl tStamp ++ (htonl ssrc ++ payload)))

theorem isRtpPacket_rtpBytes {seq tStamp ssrc : Nat} (smallPt : pt ≤ 127) (smallSeq : seq < 65536)
    (smallStamp : tStamp < 2 ^ 32) (smallSsrc : ssrc < 2 ^ 32) :
    IsRtpPacket (rtpBytes pt seq tStamp ssrc payload) pt seq tStamp ssrc payload := by
  have first : (rtpBytes pt seq tStamp ssrc payload).getD 0 0 = 0x80 := rfl
  constructor
  case version => rw [first]; decide
  case padding => rw [first]; decide
  case extension => rw [first]; decide
  case sources => rw [first]; decide
  case pt =>
    have value : be16 (rtpBytes pt seq tStamp ssrc payload) 0 = 0x80 * 256 + pt.toUInt8.toNat := rfl
    rw [value, Nat.toUInt8_eq, UInt8.toNat_ofNat']
    omega
  case seq => exact be16_append [0x80, pt.toUInt8] smallSeq _
  case tStamp =>
    rw [rtpBytes, ← List.append_assoc]
    exact be32_append ([0x80, pt.toUInt8] ++ htons seq) smallStamp _
  case ssrc =>
    rw [rtpBytes, ← List.append_assoc, ← List.append_assoc]
    exact be32_append ([0x80, pt.toUInt8] ++ htons seq ++ htonl tStamp) smallSsrc _
  case payload => rfl

/-- A header of which all fields are filled. -/
theorem datagram_filled {pt seq tStamp ssrc : Nat} :
    RtpHdr.datagram ⟨pt, some seq, some tStamp, some ssrc⟩ payload =
      (rtpBytes pt seq tStamp ssrc payload).map some := by
  simp only [RtpHdr.datagram, RtpHdr.bytes, rtpBytes, Option.elim_some, List.map_append,
    List.map_cons, List.cons_append, List.nil_append, List.append_assoc]

/-- The header that is filled from hints. -/
theorem rtpHeader_of_hints (hints : Hints attr pt seqno stamp) (ssrc : Option Nat) :
    rtpHeader attr ssrc =
      .ok ⟨pt, some (seqno % 2 ^ 16).toNat, some (stamp % 2 ^ 32).toNat, ssrc⟩ := by
  have small := hints.small
  have ptHint : attr.bind (getattr (lit "pt")) = some (decimal pt) := hints.ptHint
  have seqnoHint : attr.bind (getattr (lit "seqno")) = some (counterText seqno) := hints.seqnoHint
  have stampHint : attr.bind (getattr (lit "timestamp")) = some (counterText stamp) :=
    hints.stampHint
  have same : ((pt : Int) % 128).toNat = pt := by omega
  simp only [rtpHeader, ptHint, seqnoHint, stampHint, Option.map_some, atoi_decimal,
    atoi_counterText, same]
  rfl

/-! ## Receiving -/

/-- The other side: its stream, the bytes that are left in its buffer, and its payloads. -/
structure Receiver where
  ice : IoStream
  peer : SockAddr
  buf : List Byte
  whole : buf.length = 0x800
  payloads : List (Text × Nat)

namespace Receiver

/-- A datagram is read into the buffer, as far as it fits. -/
def read (rcv : Receiver) (datagram : List Byte) : Received where
  peer := rcv.peer
  buf := ⟨datagram.take 0x800 ++ rcv.buf.drop datagram.length, by
    rw [List.length_append, List.length_take, List.length_drop, rcv.whole]
    omega⟩
  whole := by
    rw [List.length_append, List.length_take, List.length_drop, rcv.whole]
    omega
  len := min datagram.length 0x800
  within := Nat.min_le_right ..
  payloads := rcv.payloads

/-- The payload that is named as a type. -/
def named (rcv : Receiver) (pt : Nat) : Option Nat :=
  (rcv.payloads.find? fun payload => payload.1 = decimal pt).map Prod.snd

/-- The datagram is taken, and if there is a payload for the type it gets the bytes of the
payload and no others. -/
def Hands (rcv : Receiver) (datagram : List Byte) (pt : Nat) (payload : List Byte) : Prop :=
  ∃ ice' out, routeRtpPacketIn rcv.ice (rcv.read datagram) = .ok (ice', out) ∧
    ∀ owner, rcv.named pt = some owner →
      ∃ data, out = [.media owner data payload.length] ∧ data.take payload.length = payload

/-- The cache has room for the type, and if there is a payload for it, the bytes fit the buffer
and the cache has that payload, or has none and the payload is the first whose name begins the
type. -/
def Deliverable (rcv : Receiver) (pt : Nat) (payload : List Byte) : Prop :=
  pt < payloadCacheSize ∧ ∀ owner, rcv.named pt = some owner →
    payload.length + 12 ≤ 0x800 ∧
      (rcv.ice.mediaOwnerCache pt = some owner ∨ rcv.ice.mediaOwnerCache pt = none ∧
        (rcv.payloads.find? fun payload => eqnText payload.1 (decimal pt)).map Prod.snd =
          some owner)

/-- The packet that was read, if it fits. -/
theorem read_bytes (rcv : Receiver) {datagram : List Byte} (fits : datagram.length ≤ 0x800) :
    (rcv.read datagram).buf.bytes = datagram ++ rcv.buf.drop datagram.length := by
  simp only [read, List.take_of_length_le fits]

theorem payloadType_read (rcv : Receiver) {seq tStamp ssrc : Nat} (small : pt ≤ 127) :
    (rcv.read (rtpBytes pt seq tStamp ssrc payload)).payloadType = pt := by
  have value : be16 (rcv.read (rtpBytes pt seq tStamp ssrc payload)).buf.bytes 0 =
      0x80 * 256 + pt.toUInt8.toNat := rfl
  rw [Received.payloadType, value, Nat.toUInt8_eq, UInt8.toNat_ofNat']
  omega

/-- **Receiving.**  A packet is handed on as it should be if and only if it is deliverable. -/
theorem hands_iff (rcv : Receiver) {seq tStamp ssrc : Nat} (small : pt ≤ 127) :
    rcv.Hands (rtpBytes pt seq tStamp ssrc payload) pt payload ↔ rcv.Deliverable pt payload := by
  have length : (rtpBytes pt seq tStamp ssrc payload).length = payload.length + 12 := by
    simp only [rtpBytes, List.length_append, List.length_cons, List.length_nil, length_htons,
      length_htonl]
    omega
  have len : (rcv.read (rtpBytes pt seq tStamp ssrc payload)).len =
      min (payload.length + 12) 0x800 := by
    rw [← length]
    rfl
  have owner_eq : (rcv.read (rtpBytes pt seq tStamp ssrc payload)).owner rcv.ice =
      (rcv.ice.mediaOwnerCache pt).or
        ((rcv.payloads.find? fun payload => eqnText payload.1 (decimal pt)).map Prod.snd) := by
    rw [Received.owner, payloadType_read rcv small]
    rfl
  unfold Hands Deliverable
  rw [routeRtpPacketIn_eq, payloadType_read rcv small]
  constructor
  · rintro ⟨ice', out, result, handed⟩
    split at result
    · next room =>
        refine ⟨room, fun owner here => ?_⟩
        rcases handed owner here with ⟨data, rfl, whole⟩
        cases found : (rcv.read (rtpBytes pt seq tStamp ssrc payload)).owner rcv.ice with
        | none =>
            rw [found] at result
            cases result
        | some owner' =>
            rw [found] at result
            simp only [Except.ok.injEq, Prod.mk.injEq, List.cons.injEq, and_true,
              Output.media.injEq] at result
            rcases result with ⟨-, rfl, -, count⟩
            rw [len] at count
            refine ⟨by omega, ?_⟩
            rw [owner_eq] at found
            cases cached : rcv.ice.mediaOwnerCache pt with
            | some owner =>
                rw [cached, Option.some_or] at found
                exact .inl found
            | none =>
                rw [cached, Option.none_or] at found
                exact .inr ⟨rfl, found⟩
    · cases result
  · rintro ⟨room, delivers⟩
    rw [if_pos room]
    cases here : rcv.named pt with
    | none =>
        cases (rcv.read (rtpBytes pt seq tStamp ssrc payload)).owner rcv.ice with
        | none => exact ⟨_, _, rfl, by simp⟩
        | some owner => exact ⟨_, _, rfl, by simp⟩
    | some owner =>
        rcases delivers owner here with ⟨fits, source⟩
        have found : (rcv.read (rtpBytes pt seq tStamp ssrc payload)).owner rcv.ice =
            some owner := by
          rw [owner_eq]
          rcases source with cached | ⟨empty, first⟩
          · rw [cached, Option.some_or]
          · rw [empty, Option.none_or, first]
        rw [found]
        refine ⟨_, _, rfl, ?_⟩
        rintro _ ⟨⟩
        have count : ((rcv.read (rtpBytes pt seq tStamp ssrc payload)).len : Int) - 12 =
            payload.length := by
          rw [len]
          omega
        rw [count]
        refine ⟨_, rfl, ?_⟩
        rw [read_bytes rcv (by omega), List.drop_append_of_le_length (by omega)]
        have behind : (rtpBytes pt seq tStamp ssrc payload).drop 12 = payload := rfl
        rw [behind, List.take_append_of_le_length le_rfl, List.take_length]

end Receiver

/-! ## Both sides -/

/-- A write is sent as a packet with the fields of its hints and the number of the local candidate,
and the other side hands its payload on; without all hints it is refused. -/
structure Framed (ice : IoStream) (attr : Option AttrList) (payload : List Byte) (rcv : Receiver) :
    Prop where
  sent : ∀ pt seqno stamp, Hints attr pt seqno stamp → ∃ sock raddr hdr cand ssrc datagram,
    tryWrite ice payload attr = .ok (ice, [.rtp sock raddr hdr payload]) ∧
    localEnd ice = some cand ∧ cand.streamId = some ssrc ∧
    hdr.datagram payload = datagram.map some ∧
    IsRtpPacket datagram pt (seqno % 2 ^ 16).toNat (stamp % 2 ^ 32).toNat ssrc payload ∧
    rcv.Hands datagram pt payload
  refused : ¬Hinted attr → tryWrite ice payload attr = .ok (ice, [])

/-- What a stream that is ready does with a write. -/
theorem tryWrite_of_ready {past : List (Event × List Output)} (checked : Checked ice past)
    (ready : rtpSucceeded ice = true) (attr : Option AttrList) (payload : List Byte) :
    ∃ raddr, tryWrite ice payload attr =
      match localEnd ice with
      | none => .error .segv
      | some cand => rtpHeader attr cand.streamId >>= fun rtp =>
          .ok (ice, [.rtp (socket ice (isControl attr)) raddr rtp payload]) := by
  rcases checked.flag ready with ⟨i, pair, last, here, -⟩
  have remembered : (ice.cPairLastSuccess.bind fun i => ice.cPairs.items[i]?) = some pair := by
    rw [last]
    exact here
  refine ⟨pair.remote.addr, ?_⟩
  rw [tryWrite_eq checked, localEnd, remembered]
  rfl

/-- **Framing.**  On a stream that is ready, a write is framed as it should be if and only if all
hints are there, the pair has a local candidate and the packet is deliverable. -/
theorem framed_iff {sockv4 sockv4Ctl : Nat} {events : List Event} {o : Observed}
    (reached : run (observe p) (Observed.fresh attrs sockv4 sockv4Ctl) events = .ok o)
    (ready : rtpSucceeded o.ice = true) (rcv : Receiver) :
    Framed o.ice attr payload rcv ↔ Hinted attr ∧ ∀ pt seqno stamp, Hints attr pt seqno stamp →
      (localEnd o.ice).isSome ∧ rcv.Deliverable pt payload := by
  have checked := checked_run reached
  rcases tryWrite_of_ready checked ready attr payload with ⟨raddr, written⟩
  constructor
  · rintro ⟨sent, refused⟩
    constructor
    · by_contra missing
      have silent := refused missing
      rw [written] at silent
      split at silent
      · cases silent
      · rcases bind_eq_ok_iff.mp silent with ⟨rtp, -, impossible⟩
        cases impossible
    · intro pt seqno stamp hints
      rcases sent pt seqno stamp hints with
        ⟨sock, raddr', hdr, cand, ssrc, datagram, result, isLocal, number, bytes, -, handed⟩
      refine ⟨by rw [isLocal]; rfl, ?_⟩
      rw [written, isLocal] at result
      simp only [number, rtpHeader_of_hints hints, ok_bind, Except.ok.injEq, Prod.mk.injEq,
        List.cons.injEq, and_true, Output.rtp.injEq, true_and] at result
      rcases result with ⟨-, -, rfl⟩
      rw [datagram_filled] at bytes
      have same := List.map_injective_iff.mpr (Option.some_injective Byte) bytes
      rw [← same] at handed
      exact (rcv.hands_iff hints.small).mp handed
  · rintro ⟨hinted, delivers⟩
    refine ⟨fun pt seqno stamp hints => ?_, fun missing => absurd hinted missing⟩
    rcases delivers pt seqno stamp hints with ⟨isLocal, deliverable⟩
    rcases Option.isSome_iff_exists.mp isLocal with ⟨cand, here⟩
    rcases Option.bind_eq_some_iff.mp here with ⟨pair, remembered, isEnd⟩
    rcases Option.bind_eq_some_iff.mp remembered with ⟨i, -, there⟩
    rcases (numbered_run reached).pairs pair (List.mem_of_getElem? there) cand isEnd with
      ⟨ssrc, small, number⟩
    refine ⟨socket o.ice (isControl attr), raddr, _, cand, ssrc, _, ?_, here, number,
      datagram_filled,
      isRtpPacket_rtpBytes hints.small ?_ ?_ (by omega),
        (rcv.hands_iff hints.small).mpr deliverable⟩
    · rw [written, here]
      simp only [number, rtpHeader_of_hints hints, ok_bind]
    · omega
    · omega

/-- A stream whose first check was answered. -/
theorem ready_exchange : ∃ o, run (observe host) (Observed.fresh credentials 5 6)
    (exchange "5000" ++ [.channelEvent false (response 5000)]) = .ok o ∧
      rtpSucceeded o.ice = true ∧ (localEnd o.ice).isSome = true := by
  rw [← lands_false_iff]
  decide +kernel

/-- A receiver with a payload of type 96. -/
def listening : Receiver where
  ice := created [] 7 8
  peer := ⟨4000, 0x0A000001⟩
  buf := List.replicate 0x800 0
  whole := List.length_replicate
  payloads := [(lit "96", 1)]

/-- Hints for a packet of type 96. -/
def videoHints : AttrList :=
  [(lit "pt", lit "96"), (lit "seqno", lit "70000"), (lit "timestamp", lit "-1")]

/-- A packet with wrapped counters comes to its payload. -/
theorem framed_iff_video : ∃ o, run (observe host) (Observed.fresh credentials 5 6)
    (exchange "5000" ++ [.channelEvent false (response 5000)]) = .ok o ∧
      rtpSucceeded o.ice = true ∧ Framed o.ice (some videoHints) [1, 2, 3] listening := by
  rcases ready_exchange with ⟨o, reached, ready, isLocal⟩
  refine ⟨o, reached, ready, (framed_iff reached ready listening).mpr ⟨?_, ?_⟩⟩
  · exact ⟨by decide, by decide, by decide⟩
  · intro pt seqno stamp hints
    have text : some (lit "96") = some (decimal pt) := hints.ptHint
    have value : atoi (lit "96") = 96 := by decide
    have type : pt = 96 := by
      rw [Option.some.inj text, atoi_decimal] at value
      omega
    subst type
    refine ⟨isLocal, by decide, fun owner here => ⟨by decide, .inr ⟨rfl, ?_⟩⟩⟩
    have only : listening.named 96 = some 1 := by decide
    rw [only] at here
    rw [← here]
    decide

/-- A write without a sequence number and a time stamp is sent. -/
theorem not_framed_bare :
    ¬∀ (p : Platform) (attrs : AttrList) (sockv4 sockv4Ctl : Nat) (events : List Event)
      (o : Observed), run (observe p) (Observed.fresh attrs sockv4 sockv4Ctl) events = .ok o →
      rtpSucceeded o.ice = true → ∀ attr payload rcv, Framed o.ice attr payload rcv := by
  intro claimed
  rcases ready_exchange with ⟨o, reached, ready, isLocal⟩
  have framed := claimed host _ _ _ _ o reached ready (some [(lit "pt", lit "96")]) [1, 2, 3]
    listening
  have missing : ¬Hinted (some [(lit "pt", lit "96")]) := by
    rintro ⟨-, seqno, -⟩
    revert seqno
    decide
  have silent := framed.refused missing
  rcases tryWrite_of_ready (checked_run reached) ready (some [(lit "pt", lit "96")]) [1, 2, 3] with
    ⟨raddr, written⟩
  rcases Option.isSome_iff_exists.mp isLocal with ⟨cand, here⟩
  rw [written, here] at silent
  rcases bind_eq_ok_iff.mp silent with ⟨rtp, -, impossible⟩
  cases impossible

end Xwbot.Ice
