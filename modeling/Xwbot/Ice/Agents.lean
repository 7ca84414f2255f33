import Xwbot.Ice.Framing
import Xwbot.Networks

/-!
# Agents on a network

Any number of agents, each with its two sockets, on a network that loses, repeats and delays
datagrams.  Whatever the order, media goes to agents only that have answered a check, and it goes
to their media sockets.
-/

namespace Xwbot.Ice

open Runs Networks IoStream

/-! ## The network -/

/-- An agent: its platform, the attributes of its stream, its two sockets, and the addresses that
these are bound to. -/
structure Host where
  platform : Platform
  attrs : AttrList
  sockv4 : Nat
  sockv4Ctl : Nat
  apart : sockv4 ≠ sockv4Ctl
  media : SockAddr
  control : SockAddr

/-- What a datagram carries. -/
inductive Content where
  | stun (msg : StunHdr)
  | rtp (hdr : RtpHdr) (payload : List Byte)
  deriving DecidableEq, Repr

/-- A datagram on its way. -/
structure Packet where
  src : SockAddr
  dst : SockAddr
  content : Content
  deriving DecidableEq, Repr

/-- The bytes; those of a header that were not written are any. -/
def Content.bytes : Content → List (Option Byte)
  | .stun msg => msg.bytes.map some
  | .rtp hdr payload => hdr.datagram payload

/-- The bytes are in the buffer, as far as it reaches. -/
structure Content.Fills (content : Content) (r : Received) : Prop where
  bytes : ∀ i < 0x800, ∀ byte, content.bytes[i]? = some (some byte) → r.buf.bytes[i]? = some byte
  len : r.len = min content.bytes.length 0x800

namespace Host

variable (host : Host)

/-- The address of a socket. -/
def address (sock : Nat) : SockAddr :=
  if sock = host.sockv4Ctl then host.control else host.media

/-- The addresses of an agent. -/
def Has (addr : SockAddr) : Prop :=
  addr = host.media ∨ addr = host.control

/-- The datagram of an output. -/
def packet : Output → Option Packet
  | .request _ sock raddr msg => some ⟨host.address sock, raddr, .stun msg⟩
  | .response sock raddr msg => some ⟨host.address sock, raddr, .stun msg⟩
  | .rtp sock raddr hdr payload => some ⟨host.address sock, raddr, .rtp hdr payload⟩
  | _ => none

/-- One event, and the datagrams that are sent. -/
def act (o : Observed) (e : Event) : Except Fault (Observed × List Packet) :=
  (handle host.platform o.ice e).map fun result =>
    (⟨result.1, o.past ++ [(e, result.2)]⟩, result.2.filterMap host.packet)

theorem act_of_handle {o : Observed} {e : Event} {ice' : IoStream} {out : List Output}
    (result : handle host.platform o.ice e = .ok (ice', out)) :
    host.act o e = .ok (⟨ice', o.past ++ [(e, out)]⟩, out.filterMap host.packet) := by
  rw [act, result]
  rfl

/-- The events that no datagram is needed for. -/
def Own : Event → Prop
  | .channelEvent _ _ => False
  | _ => True

/-- The datagram is read from the socket that it was sent to. -/
def Reaches (packet : Packet) : Event → Prop
  | .channelEvent ctl r => packet.dst = (if ctl then host.control else host.media) ∧
      r.peer = packet.src ∧ packet.content.Fills r
  | _ => False

/-- The stream of an agent before its first event. -/
def fresh : Observed :=
  .fresh host.attrs host.sockv4 host.sockv4Ctl

end Host

/-- The agents. -/
def agents {ι : Type} (hosts : ι → Host) : Protocol ι Observed Event Packet Fault where
  step := fun i => (hosts i).act
  own := fun _ => Host.Own
  reaches := fun packet i => (hosts i).Reaches packet

/-! ## What an event sends -/

variable {p : Platform} {ice ice' : IoStream} {e : Event} {out : List Output} {r : Received}
  {past : List (Event × List Output)} {name : Text} {attrs : AttrList}

/-- The header of a message stays as it is when it is signed and marked. -/
theorem marked_header {hmac : HmacSha1} {crcTab : CrcTab} {hdr signed marked : StunHdr}
    {key : Text} (signs : stunAddIntegrity hmac hdr key = .ok signed)
    (marks : addFingerprint crcTab signed = .ok marked) :
    marked.verType = hdr.verType ∧ marked.transId = hdr.transId ∧ marked.mcookie = hdr.mcookie := by
  rcases bind_eq_ok_iff.mp signs with ⟨tdata, -, built⟩
  cases built
  rcases bind_eq_ok_iff.mp marks with ⟨crc, -, built⟩
  cases built
  exact ⟨rfl, rfl, rfl⟩

theorem getStunFullRequest_verType {draws : Nat} {lufrag rufrag rpwd : Option Text}
    {stnReq : StunHdr} (result : getStunFullRequest p draws lufrag rufrag rpwd =
      .ok (some stnReq)) :
    stnReq.verType = stunReq := by
  unfold getStunFullRequest at result
  split at result
  · dsimp only at result
    split at result
    · rcases bind_eq_ok_iff.mp result with ⟨signed, signs, result⟩
      rcases bind_eq_ok_iff.mp result with ⟨marked, marks, same⟩
      cases same
      exact (marked_header signs marks).1
    · cases result
  · cases result

/-- A response has the type and the cookie of one, and the transaction number of its request. -/
theorem stunGetResponse_header {hmac : HmacSha1} {crcTab : CrcTab} {heap : Nat → Byte}
    {key : Option Text} {req : Datagram} {saddr : SockAddr} {resp : StunHdr}
    (result : stunGetResponse hmac crcTab heap key req saddr = .ok (some resp)) :
    resp.verType = stunResp ∧ resp.transId = slice req.bytes 8 12 ∧ resp.mcookie = stunMCookie := by
  cases key with
  | none => cases result
  | some stunKey =>
      rcases stunGetResponse_eq_ok_iff.mp result with
        ⟨l, -, -, signed, signs, marked, marks, same⟩
      cases same
      exact marked_header signs marks

namespace IoStream

/-- Candidates are announced, and nothing else is sent. -/
def Announces (out : List Output) : Prop :=
  ∀ o ∈ out, ∃ attrs, o = .candidateNew attrs

theorem announces_nil : Announces [] :=
  fun _ member => absurd member List.not_mem_nil

theorem announces_appendChild (result : appendChild p ice name attrs = .ok (ice', out)) :
    Announces out := by
  unfold appendChild onChildAppend at result
  split at result
  · rcases onLocalCandidate_eq_ok_iff.mp result with ⟨-, -, rfl⟩ | ⟨addr, -, middle, -, -, rfl⟩
    · exact announces_nil
    · exact fun o member => ⟨_, List.mem_singleton.mp member⟩
  · split at result
    · rw [(onRemoteCandidate_eq_ok_iff.mp result).1]
      exact announces_nil
    · cases result
      exact announces_nil

theorem announces_addMapped {mapped : Option SockAddr}
    (result : addMapped p ice mapped = .ok (ice', out)) : Announces out := by
  unfold addMapped at result
  split at result
  · cases result
    exact announces_nil
  · split at result
    · cases result
      exact announces_nil
    · exact announces_appendChild result

theorem announces_onResponse (result : onResponse p ice r = .ok (ice', out)) : Announces out := by
  rcases bind_eq_ok_iff.mp result with ⟨pkt, -, later⟩
  rcases bind_eq_ok_iff.mp later with ⟨mapped, -, added⟩
  exact announces_addMapped added

/-- What an output has to do with the event. -/
def Sends (p : Platform) (ice : IoStream) (e : Event) : Output → Prop
  | .request _ sock _ msg => (sock = ice.sockv4 ∨ sock = ice.sockv4Ctl) ∧
      ∃ draws lufrag rufrag rpwd, getStunFullRequest p draws lufrag rufrag rpwd = .ok (some msg)
  | .response sock raddr msg => sock = ice.sockv4 ∧ msg.verType = stunResp ∧
      ∃ ctl r, e = .channelEvent ctl r ∧ r.IsRequest ∧ r.peer = raddr ∧ msg.transId = r.transId
  | .rtp sock raddr _ _ => (sock = ice.sockv4 ∨ sock = ice.sockv4Ctl) ∧
      ∃ pair ∈ ice.cPairs.items, pair.state = .succeeded ∧ pair.remote.addr = raddr
  | _ => True

theorem Announces.sends (announces : Announces out) : ∀ o ∈ out, Sends p ice e o := by
  intro o member
  rcases announces o member with ⟨attrs, rfl⟩
  trivial

theorem sends_resendPairs {i draws draws' : Nat} {pairs : List CandidatePair}
    (result : resendPairs p ice i draws pairs = .ok (out, draws')) :
    ∀ o ∈ out, Sends p ice e o := by
  induction pairs generalizing i draws out with
  | nil =>
      cases result
      exact fun o member => absurd member List.not_mem_nil
  | cons pair rest ih =>
      rw [resendPairs] at result
      rcases bind_eq_ok_iff.mp result with ⟨⟨sent, drawn⟩, here, result⟩
      rcases bind_eq_ok_iff.mp result with ⟨⟨more, drawn'⟩, later, result⟩
      cases result
      intro o member
      rcases List.mem_append.mp member with first | others
      · unfold resendPair at here
        split at here
        · rcases bind_eq_ok_iff.mp here with ⟨stunmsg, built, here⟩
          cases stunmsg with
          | none => cases here
          | some stunmsg =>
              cases here
              rw [List.mem_singleton.mp first]
              refine ⟨?_, _, _, _, _, built⟩
              split
              · exact .inr rfl
              · exact .inl rfl
        · cases here
          exact absurd first List.not_mem_nil
      · exact ih later o others

/-- The pair that media goes to has succeeded. -/
theorem Checked.lastSuccess {pair : CandidatePair} (checked : Checked ice past)
    (found : (ice.cPairLastSuccess.bind fun i => ice.cPairs.items[i]?) = some pair) :
    pair ∈ ice.cPairs.items ∧ pair.state = .succeeded := by
  cases flag : rtpSucceeded ice with
  | false =>
      rw [checked.idle flag] at found
      cases found
  | true =>
      rcases checked.flag flag with ⟨i, pair', last, here, state⟩
      rw [last, Option.bind_some, here] at found
      cases found
      exact ⟨List.mem_of_getElem? here, state⟩

theorem handle_sends (checked : Checked ice past) (result : handle p ice e = .ok (ice', out)) :
    ∀ o ∈ out, Sends p ice e o := by
  cases e with
  | childAppend name attrs => exact (announces_appendChild result).sends
  | resendCandidates =>
      rcases bind_eq_ok_iff.mp result with ⟨⟨sent, draws⟩, all, same⟩
      cases same
      exact sends_resendPairs all
  | channelEvent ctl r =>
      have handled : onPacketIn p ice 0 r = .ok (ice', out) :=
        (onChannelEvent_eq ctl).symm.trans result
      rw [onPacketIn_eq] at handled
      split at handled
      · next request =>
          rcases bind_eq_ok_iff.mp handled with ⟨resp, answered, sent⟩
          cases resp with
          | none => cases sent
          | some resp =>
              cases sent
              rcases stunGetResponse_header answered with ⟨type, transId, -⟩
              intro o member
              rw [List.mem_singleton.mp member]
              exact ⟨rfl, type, ctl, r, rfl, request, rfl, transId⟩
      · split at handled
        · exact (announces_onResponse handled).sends
        · split at handled
          · rcases bind_eq_ok_iff.mp handled with ⟨⟨routed, written⟩, passed, sent⟩
            cases sent
            intro o member
            rcases List.mem_cons.mp member with rfl | member
            · trivial
            · rcases routeRtpPacketIn_out passed o member with ⟨owner, data, plen, rfl⟩
              trivial
          · cases handled
            exact announces_nil.sends
  | tryWrite buf attr =>
      have written : tryWrite ice buf attr = .ok (ice', out) := result
      rw [tryWrite_eq checked] at written
      split at written
      · cases written
        exact announces_nil.sends
      · next pair found =>
          split at written
          · cases written
          · rcases bind_eq_ok_iff.mp written with ⟨rtp, -, sent⟩
            cases sent
            intro o member
            rw [List.mem_singleton.mp member]
            rcases checked.lastSuccess found with ⟨inside, state⟩
            refine ⟨?_, pair, inside, state, rfl⟩
            unfold socket
            split
            · exact .inr rfl
            · exact .inl rfl

/-- What no event changes. -/
def config (ice : IoStream) : AttrList × Nat × Nat :=
  (ice.attrs, ice.sockv4, ice.sockv4Ctl)

/-- What candidates and answers do not change either. -/
def outline (ice : IoStream) : (AttrList × Nat × Nat) × (Nat → Option Nat) :=
  (config ice, ice.mediaOwnerCache)

theorem outline_appendChild (result : appendChild p ice name attrs = .ok (ice', out)) :
    outline ice' = outline ice := by
  unfold appendChild onChildAppend at result
  split at result
  · rcases onLocalCandidate_eq_ok_iff.mp result with
      ⟨-, rfl, -⟩ | ⟨addr, -, middle, inserted, rfl, -⟩
    · rfl
    · rcases insertLocalCandidate_eq_ok_iff.mp inserted with
        ⟨-, rfl⟩ | ⟨-, locals, cPairs, -, -, rfl⟩
      · rfl
      · rfl
  · split at result
    · rcases (onRemoteCandidate_eq_ok_iff.mp result).2 with
        ⟨-, rfl⟩ | ⟨addr, -, username, password, inserted, -⟩
      · rfl
      · rcases insertRemoteCandidate_eq_ok_iff.mp inserted with
          ⟨-, rfl⟩ | ⟨-, remotes, cPairs, -, -, rfl⟩
        · rfl
        · rfl
    · cases result
      rfl

theorem outline_addMapped {mapped : Option SockAddr}
    (result : addMapped p ice mapped = .ok (ice', out)) : outline ice' = outline ice := by
  unfold addMapped at result
  split at result
  · cases result
    rfl
  · split at result
    · cases result
      rfl
    · exact outline_appendChild result

theorem outline_succeedPair (peer : SockAddr) : outline (succeedPair ice peer) = outline ice := by
  rcases @succeedPair_eq ice peer with ⟨cPairs, cPairLastSuccess, cr, -, same⟩
  rw [same]
  rfl

theorem outline_onResponse (result : onResponse p ice r = .ok (ice', out)) :
    outline ice' = outline ice := by
  rcases bind_eq_ok_iff.mp result with ⟨pkt, -, later⟩
  rcases bind_eq_ok_iff.mp later with ⟨mapped, -, added⟩
  rw [outline_addMapped added]
  split
  · exact outline_succeedPair r.peer
  · rfl

theorem config_handle (checked : Checked ice past) (result : handle p ice e = .ok (ice', out)) :
    config ice' = config ice := by
  cases e with
  | childAppend name attrs => exact congrArg Prod.fst (outline_appendChild result)
  | resendCandidates =>
      rcases bind_eq_ok_iff.mp result with ⟨⟨sent, draws⟩, all, same⟩
      cases same
      rfl
  | channelEvent ctl r =>
      rcases onChannelEvent_cases result with ⟨-, handled⟩ | ⟨-, rfl | ⟨sent, passed⟩⟩
      · exact congrArg Prod.fst (outline_onResponse handled)
      · rfl
      · unfold routeRtpPacketIn at passed
        dsimp only at passed
        split at passed
        · split at passed
          · cases passed
            rfl
          · split at passed
            · cases passed
              rfl
            · cases passed
              rfl
        · cases passed
  | tryWrite buf attr =>
      have written : tryWrite ice buf attr = .ok (ice', out) := result
      rw [tryWrite_eq checked] at written
      split at written
      · cases written
        rfl
      · split at written
        · cases written
        · rcases bind_eq_ok_iff.mp written with ⟨rtp, -, sent⟩
          cases sent
          rfl

end IoStream

/-! ## What arrives -/

theorem Content.Fills.getD {msg : StunHdr} {i : Nat} (fills : (Content.stun msg).Fills r)
    (inside : i < msg.bytes.length) (received : i < 0x800) :
    r.buf.bytes.getD i 0 = msg.bytes.getD i 0 := by
  have byte : (Content.stun msg).bytes[i]? = some (some msg.bytes[i]) := by
    rw [Content.bytes, List.getElem?_map, List.getElem?_eq_getElem inside, Option.map_some]
  rw [List.getD_eq_getElem?_getD, fills.bytes i received _ byte, Option.getD_some,
    List.getD_eq_getElem _ _ inside]

/-- The header of a message is read as it was written. -/
theorem Content.Fills.header {msg : StunHdr} (fills : (Content.stun msg).Fills r)
    (small : msg.verType < 65536) : be16 r.buf.bytes 0 = msg.verType ∧
      (msg.transId.length = 12 → r.transId = msg.transId) := by
  have type : be16 msg.bytes 0 = msg.verType := by
    have written := be16_append [] small
      (htons msg.mlen ++ htonl msg.mcookie.toNat ++ msg.transId ++ msg.payload)
    simpa [StunHdr.bytes] using written
  have long : 8 ≤ msg.bytes.length := by
    simp only [StunHdr.bytes, List.length_append, length_htons, length_htonl]
    omega
  constructor
  · rw [← type, be16, be16, fills.getD (by omega) (by decide), fills.getD (by omega) (by decide)]
  · intro twelve
    have size : msg.bytes.length = hdrSize + msg.payload.length := StunHdr.length_bytes twelve
    have place : slice msg.bytes 8 12 = msg.transId := by
      have written := slice_append (htons msg.verType ++ htons msg.mlen ++
        htonl msg.mcookie.toNat) msg.transId msg.payload
      rw [twelve] at written
      simpa [StunHdr.bytes] using written
    have whole := r.whole
    rw [← place, Received.transId, slice, slice]
    apply List.ext_getElem
    · simp only [List.length_take, List.length_drop]
      rw [hdrSize] at size
      omega
    · intro i inside inside'
      rw [List.length_take, List.length_drop] at inside inside'
      have byte := fills.getD (i := 8 + i) (by omega) (by omega)
      rw [List.getD_eq_getElem _ _ (by omega), List.getD_eq_getElem _ _ (by omega)] at byte
      rw [List.getElem_take, List.getElem_take, List.getElem_drop, List.getElem_drop]
      exact byte

/-- Media begins with its version, so it is not taken for a message. -/
theorem Content.Fills.rtp {hdr : RtpHdr} {payload : List Byte}
    (fills : (Content.rtp hdr payload).Fills r) : 0x8000 ≤ be16 r.buf.bytes 0 := by
  have first := fills.bytes 0 (by decide) 0x80 rfl
  have byte : r.buf.bytes.getD 0 0 = 0x80 := by
    rw [List.getD_eq_getElem?_getD, first]
    rfl
  rw [be16, byte]
  exact Nat.le_add_right _ _

/-- A datagram that is written whole and fits is what is read. -/
theorem Content.fills_append {content : Content} {bytes rest : List Byte}
    (whole : content.bytes = bytes.map some) (read : r.buf.bytes = bytes ++ rest)
    (len : r.len = bytes.length) (fits : bytes.length ≤ 0x800) : content.Fills r where
  bytes := by
    intro i _ byte found
    rw [whole, List.getElem?_map] at found
    rcases Option.map_eq_some_iff.mp found with ⟨byte', here, same⟩
    cases same
    rw [read]
    exact (List.getElem?_append_left (List.getElem?_eq_some_iff.mp here).1).trans here
  len := by
    rw [whole, List.length_map, Nat.min_eq_left fits, len]

/-! ## Checks that were answered -/

namespace Packet

/-- A connectivity check. -/
def IsCheck (packet : Packet) (transId : List Byte) : Prop :=
  ∃ msg, packet.content = .stun msg ∧ msg.verType = stunReq ∧ msg.transId = transId

/-- An answer to a check. -/
def IsAnswer (packet : Packet) (transId : List Byte) : Prop :=
  ∃ msg, packet.content = .stun msg ∧ msg.verType = stunResp ∧ msg.transId = transId

end Packet

variable {ι : Type} {hosts : ι → Host} {sent later : List Packet} {packet : Packet} {i j : ι}
  {transId : List Byte}

/-- A check that an agent got, and that was sent from an address. -/
def Checks (hosts : ι → Host) (sent : List Packet) (src : SockAddr) (j : ι)
    (transId : List Byte) : Prop :=
  ∃ packet ∈ sent, packet.IsCheck transId ∧ packet.src = src ∧ (hosts j).Has packet.dst

/-- An agent sent a check to another one, which answered it from its media socket. -/
def HasAnswered (hosts : ι → Host) (sent : List Packet) (i j : ι) : Prop :=
  ∃ answer ∈ sent, ∃ transId, answer.IsAnswer transId ∧ answer.src = (hosts j).media ∧
    (hosts i).Has answer.dst ∧ Checks hosts sent answer.dst j transId

theorem Checks.append {src : SockAddr} (checks : Checks hosts sent src j transId) :
    Checks hosts (sent ++ later) src j transId := by
  rcases checks with ⟨packet, member, rest⟩
  exact ⟨packet, List.mem_append_left _ member, rest⟩

theorem HasAnswered.append (answered : HasAnswered hosts sent i j) :
    HasAnswered hosts (sent ++ later) i j := by
  rcases answered with ⟨answer, member, transId, is, src, dst, checks⟩
  exact ⟨answer, List.mem_append_left _ member, transId, is, src, dst, checks.append⟩

/-- What holds of a datagram.  A message is a check, or an answer to one; media goes to an agent
that has answered. -/
def Sound (hosts : ι → Host) (sent : List Packet) (packet : Packet) : Prop :=
  match packet.content with
  | .stun msg => msg.verType = stunReq ∧ msg.transId.length = 12 ∨
      msg.verType = stunResp ∧ ∃ j, packet.src = (hosts j).media ∧
        Checks hosts sent packet.dst j msg.transId
  | .rtp _ _ => ∃ i j, (hosts i).Has packet.src ∧ packet.dst = (hosts j).media ∧
      HasAnswered hosts sent i j

/-- What holds of an agent.  A pair that has succeeded leads to an agent that has answered. -/
structure Cautious (hosts : ι → Host) (sent : List Packet) (i : ι) (o : Observed) : Prop where
  checked : Checked o.ice o.past
  config : o.ice.config = ((hosts i).attrs, (hosts i).sockv4, (hosts i).sockv4Ctl)
  answered : ∀ pair ∈ o.ice.cPairs.items, pair.state = .succeeded →
    ∃ j, pair.remote.addr = (hosts j).media ∧ HasAnswered hosts sent i j

theorem Sound.append (sound : Sound hosts sent packet) :
    Sound hosts (sent ++ later) packet := by
  unfold Sound at sound ⊢
  split at sound
  · rcases sound with check | ⟨type, j, src, checks⟩
    · exact .inl check
    · exact .inr ⟨type, j, src, checks.append⟩
  · rcases sound with ⟨i, j, src, dst, answered⟩
    exact ⟨i, j, src, dst, answered.append⟩

theorem Cautious.append {o : Observed} (cautious : Cautious hosts sent i o) :
    Cautious hosts (sent ++ later) i o where
  checked := cautious.checked
  config := cautious.config
  answered := fun pair member state => by
    rcases cautious.answered pair member state with ⟨j, addr, answered⟩
    exact ⟨j, addr, answered.append⟩

theorem cautious_fresh (hosts : ι → Host) (i : ι) : Cautious hosts [] i (hosts i).fresh where
  checked := checked_created _ _ _
  config := rfl
  answered := fun _ member => absurd member List.not_mem_nil

theorem Host.has_of_reaches {host : Host} {ctl : Bool}
    (reaches : host.Reaches packet (.channelEvent ctl r)) : host.Has packet.dst := by
  rw [reaches.1]
  cases ctl
  · exact .inl rfl
  · exact .inr rfl

/-- A response that reaches an agent is an answer to one of its checks. -/
theorem answered_of_response {ctl : Bool} (sound : Sound hosts sent packet)
    (member : packet ∈ sent) (reaches : (hosts i).Reaches packet (.channelEvent ctl r))
    (response : r.IsResponse) : ∃ j, r.peer = (hosts j).media ∧ HasAnswered hosts sent i j := by
  have here := Host.has_of_reaches reaches
  rcases reaches with ⟨dst, peer, fills⟩
  unfold Sound at sound
  cases carried : packet.content with
  | rtp hdr payload =>
      rw [carried] at fills
      have media := fills.rtp
      rw [response.1] at media
      exact absurd media (by decide)
  | stun msg =>
      rw [carried] at fills sound
      rcases sound with ⟨type, -⟩ | ⟨type, j, src, checks⟩
      · have read := (fills.header (by rw [type]; decide)).1
        rw [response.1, type] at read
        exact absurd read (by decide)
      · exact ⟨j, peer.trans src, packet, member, _, ⟨msg, carried, type, rfl⟩, src, here, checks⟩

/-- A request that reaches an agent is a check. -/
theorem checks_of_request {ctl : Bool} (sound : Sound hosts sent packet)
    (member : packet ∈ sent) (reaches : (hosts i).Reaches packet (.channelEvent ctl r))
    (request : r.IsRequest) : Checks hosts sent r.peer i r.transId := by
  have here := Host.has_of_reaches reaches
  rcases reaches with ⟨dst, peer, fills⟩
  unfold Sound at sound
  unfold Received.IsRequest at request
  cases carried : packet.content with
  | rtp hdr payload =>
      rw [carried] at fills
      have media := fills.rtp
      rw [request] at media
      exact absurd media (by decide)
  | stun msg =>
      rw [carried] at fills sound
      rcases sound with ⟨type, twelve⟩ | ⟨type, -⟩
      · rw [(fills.header (by rw [type]; decide)).2 twelve, peer]
        exact ⟨packet, member, ⟨msg, carried, type, rfl⟩, rfl, here⟩
      · have read := (fills.header (by rw [type]; decide)).1
        rw [request, type] at read
        exact absurd read (by decide)

/-- One event of one agent keeps the agent cautious, and all it sends is sound. -/
theorem cautious_act {o o' : Observed} {out : List Packet}
    (sound : ∀ packet ∈ sent, Sound hosts sent packet) (cautious : Cautious hosts sent i o)
    (offered : Net.Offers (agents hosts) sent i e) (result : (hosts i).act o e = .ok (o', out)) :
    Cautious hosts (sent ++ out) i o' ∧ ∀ packet ∈ out, Sound hosts (sent ++ out) packet := by
  rcases map_eq_ok_iff.mp result with ⟨⟨ice', outputs⟩, handled, same⟩
  cases same
  have checked := cautious.checked
  rcases handle_moves checked handled with ⟨moves, checked'⟩
  have config := cautious.config
  have sockv4 : o.ice.sockv4 = (hosts i).sockv4 := (Prod.mk.inj (Prod.mk.inj config).2).1
  have sockv4Ctl : o.ice.sockv4Ctl = (hosts i).sockv4Ctl := (Prod.mk.inj (Prod.mk.inj config).2).2
  have address : ∀ sock, (hosts i).Has ((hosts i).address sock) := by
    intro sock
    unfold Host.address
    split
    · exact .inr rfl
    · exact .inl rfl
  constructor
  · refine ⟨checked', (config_handle checked handled).trans config, fun pair' member state => ?_⟩
    rcases List.mem_iff_getElem?.mp member with ⟨k, here⟩
    rcases succeeded_of_handle checked handled here state with
      ⟨pair, before, already⟩ | ⟨ctl, r, rfl, response, -, addr⟩
    · rcases moves.kept k pair before with ⟨kept, after, -, remote, -⟩
      cases here.symm.trans after
      rcases cautious.answered pair (List.mem_of_getElem? before) already with
        ⟨j, addr, answered⟩
      exact ⟨j, by rw [remote, addr], answered.append⟩
    · rcases offered with own | ⟨packet, inside, reaches⟩
      · exact own.elim
      · rcases answered_of_response (sound packet inside) inside reaches response with
          ⟨j, peer, answered⟩
        exact ⟨j, addr.trans peer, answered.append⟩
  · intro packet member
    rcases List.mem_filterMap.mp member with ⟨output, inside, made⟩
    have sends := handle_sends checked handled output inside
    unfold Sound
    cases output with
    | request k sock raddr msg =>
        cases made
        rcases sends with ⟨-, draws, lufrag, rufrag, rpwd, built⟩
        refine .inl ⟨getStunFullRequest_verType built, ?_⟩
        rw [getStunFullRequest_transId built, length_transIdText]
    | response sock raddr msg =>
        cases made
        rcases sends with ⟨sock_eq, type, ctl, r, rfl, request, peer, transId⟩
        refine .inr ⟨type, i, ?_, ?_⟩
        · rw [sock_eq, sockv4, Host.address, if_neg (hosts i).apart]
        · rcases offered with own | ⟨packet, inside, reaches⟩
          · exact own.elim
          · dsimp only
            rw [← peer, transId]
            exact (checks_of_request (sound packet inside) inside reaches request).append
    | rtp sock raddr hdr payload =>
        cases made
        rcases sends with ⟨-, pair, there, state, addr⟩
        rcases cautious.answered pair there state with ⟨j, media, answered⟩
        exact ⟨i, j, address sock, addr.symm.trans media, answered.append⟩
    | _ => cases made

/-- What holds of the agents and of all that was sent, whatever was lost, repeated or delayed. -/
theorem cautious_of_reachable [DecidableEq ι] {n : Net ι Observed Packet}
    (reachable : Net.Reachable (agents hosts) (fun i => (hosts i).fresh) n) :
    (∀ i, Cautious hosts n.sent i (n.states i)) ∧ ∀ packet ∈ n.sent, Sound hosts n.sent packet :=
  reachable.keeps (Cautious hosts) (Sound hosts)
    (fun _ _ _ _ cautious => cautious.append) (fun _ _ _ sound => sound.append)
    (cautious_fresh hosts)
    (fun _ _ _ _ _ _ sound cautious offered result =>
      cautious_act sound cautious offered result)

end Xwbot.Ice
