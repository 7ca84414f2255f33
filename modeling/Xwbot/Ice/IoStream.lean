import Xwbot.AttrList
import Xwbot.Ice.Request
import Xwbot.Runs

/-!
# The transport of one stream

`x_io_stream` and the functions of the ICE plugin that change it: candidates
are paired as they are appended, a timer sends checks to the remote addresses,
datagrams of two sockets answer them, and media is written to the pair that
succeeded first.  The build leaves `ICE_PAIRS_CHECK` unset.

Sockets, addresses and the numbers from `random` come from outside.  What a
function hands to a socket, or to another object, is its output.
-/

namespace Xwbot.Ice

/-- `MAX_CONN_PAIRS` -/
def maxConnPairs : Nat :=
  256

/-- `PAYLOAD_CACHE_SIZE` -/
def payloadCacheSize : Nat :=
  127

/-- `ICE_FLAG_RTP_SUCCEEDED` -/
def iceFlagRtpSucceeded : UInt32 :=
  0x4

/-- `XOBJ_CR_DIRTY` -/
def xobjCrDirty : UInt32 :=
  0x1

/-- `STUN_MAPPED_ADDRESS` -/
def stunMappedAddress : Nat :=
  0x0001

/-! ## Data -/

/-- An array of `MAX_CONN_PAIRS` pointers, up to the pointer to its first free slot. -/
structure Slots (α : Type) where
  items : List α
  fits : items.length ≤ maxConnPairs
  deriving DecidableEq, Repr

namespace Slots

variable {α : Type}

/-- An array of which no slot is used. -/
def empty : Slots α :=
  ⟨[], Nat.zero_le _⟩

/-- `*top++ = a` -/
def push (slots : Slots α) (a : α) : Except Fault (Slots α) :=
  if room : slots.items.length < maxConnPairs then
    .ok ⟨slots.items ++ [a], by rw [List.length_append]; exact room⟩
  else .error .overflow

/-- The objects that the pointers lead to are changed. -/
def map (slots : Slots α) (f : α → α) : Slots α :=
  ⟨slots.items.map f, by rw [List.length_map]; exact slots.fits⟩

/-- One of the objects is changed. -/
def modify (slots : Slots α) (i : Nat) (f : α → α) : Slots α :=
  ⟨slots.items.modify i f, by rw [List.length_modify]; exact slots.fits⟩

end Slots

/-- `x_candidate`.  `ptr` is its address; the number of its stream is drawn for local
candidates only. -/
structure Candidate where
  ptr : Nat
  addr : SockAddr
  streamId : Option Nat
  username : Option Text
  password : Option Text
  deriving DecidableEq, Repr

/-- `candidate_connection_state` -/
inductive CheckState where
  | waiting
  | inProgress
  | succeeded
  | failed
  | frozen
  | cancelled
  | discovered
  deriving DecidableEq, Repr

/-- `struct x_candidate_pair` -/
structure CandidatePair where
  localCand : Option Candidate
  remote : Candidate
  streamId : Nat
  state : CheckState
  deriving DecidableEq, Repr

/-- A child of the stream.  Children with one `chain` are linked by their `next` pointers, in
the order of the children. -/
structure Child where
  name : Text
  attrs : AttrList
  chain : Nat
  deriving DecidableEq, Repr

/-- `x_io_stream` -/
structure IoStream where
  /-- `xobj.cr` -/
  cr : UInt32
  attrs : AttrList
  children : List Child
  sockv4 : Nat
  sockv4Ctl : Nat
  cPairs : Slots CandidatePair
  /-- The place of the pair in `c_pairs`. -/
  cPairLastSuccess : Option Nat
  locals : Slots Candidate
  remotes : Slots Candidate
  mediaOwnerCache : Nat → Option Nat
  /-- How often `random` was called. -/
  draws : Nat
  /-- How many candidates were allocated. -/
  mallocs : Nat

/-- `rtp_hdr_t` as it is filled for a packet; a field without a value is not written. -/
structure RtpHdr where
  pt : Nat
  seq : Option Nat
  tStamp : Option Nat
  ssrcId : Option Nat
  deriving DecidableEq, Repr

/-- What leaves the transport. -/
inductive Output where
  /-- A check for a pair, given by its place. -/
  | request (pair sock : Nat) (raddr : SockAddr) (msg : StunHdr)
  /-- An answer to a check of the peer. -/
  | response (sock : Nat) (raddr : SockAddr) (msg : StunHdr)
  /-- The message `candidate-new` with a copy of a child. -/
  | candidateNew (attrs : AttrList)
  /-- The call of `route_rtp_packet_in`. -/
  | routeRtp (data : List Byte) (len : Nat)
  /-- The call of `route_rtcp_packet_in`. -/
  | routeRtcp (data : List Byte) (len : Nat)
  /-- The payload is written to a media object, and to the followers of the stream. -/
  | media (owner : Nat) (data : List Byte) (plen : Int)
  /-- Media for the peer. -/
  | rtp (sock : Nat) (raddr : SockAddr) (hdr : RtpHdr) (payload : List Byte)
  deriving DecidableEq, Repr

/-- What one `recvmsg` left in the buffer, and the payloads below `in$media` at that time.  The
bytes behind the datagram are those of earlier ones. -/
structure Received where
  peer : SockAddr
  buf : Datagram
  whole : buf.bytes.length = 0x800
  len : Nat
  within : len ≤ 0x800
  payloads : List (Text × Nat)

namespace IoStream

/-- `icectl_on_create`, and `_CRSET(o, 1)` of `icectl_on_append`. -/
def created (attrs : AttrList) (sockv4 sockv4Ctl : Nat) : IoStream where
  cr := 1
  attrs := attrs
  children := []
  sockv4 := sockv4
  sockv4Ctl := sockv4Ctl
  cPairs := .empty
  cPairLastSuccess := none
  locals := .empty
  remotes := .empty
  mediaOwnerCache := fun _ => none
  draws := 0
  mallocs := 0

/-- `_ENV` of the stream. -/
def getenv (p : Platform) (ice : IoStream) (k : Text) : Option Text :=
  (getattr k ice.attrs).or (p.outer k)

/-- `ice->xobj.cr & ICE_FLAG_RTP_SUCCEEDED` -/
def rtpSucceeded (ice : IoStream) : Bool :=
  ice.cr &&& iceFlagRtpSucceeded ≠ 0

/-! ## Candidates -/

/-- A pair of two candidates that was just allocated. -/
def newPair (p : Platform) (draws : Nat) (localCand : Option Candidate) (remote : Candidate) :
    CandidatePair :=
  ⟨localCand, remote, p.random draws, .waiting⟩

/-- `__icectl_insert_local_candidate`: pairs with all remote candidates.  The bound of the loop
reads the word behind `remotes`, which is `remotes_top`. -/
def insertLocalCandidate (p : Platform) (ice : IoStream) (cand : Candidate) :
    Except Fault IoStream :=
  if ice.locals.items.length ≥ maxConnPairs then .ok ice
  else do
    let locals ← ice.locals.push cand
    let pairs := ice.remotes.items.mapIdx fun i remote =>
      newPair p (ice.draws + i) (some cand) remote
    let cPairs ← Runs.run Slots.push ice.cPairs pairs
    .ok { ice with locals := locals, cPairs := cPairs, draws := ice.draws + pairs.length }

/-- `__icectl_insert_remote_candidate`: one pair, with what the first slot of `locals` holds. -/
def insertRemoteCandidate (p : Platform) (ice : IoStream) (remote : Candidate) :
    Except Fault IoStream :=
  if ice.remotes.items.length ≥ maxConnPairs then .ok ice
  else do
    let remotes ← ice.remotes.push remote
    let cPairs ← ice.cPairs.push (newPair p ice.draws ice.locals.items.head? remote)
    .ok { ice with remotes := remotes, cPairs := cPairs, draws := ice.draws + 1 }

end IoStream

/-- White space for `atoi`. -/
def isSpace (c : Byte) : Bool :=
  c = ch ' ' || (9 ≤ c && c ≤ 13)

/-- The digits at the beginning of a text. -/
def atoiDigits (acc : Nat) : Text → Nat
  | [] => acc
  | c :: rest => if isDigit c then atoiDigits (acc * 10 + (c - ch '0').toNat) rest else acc

/-- `atoi` -/
def atoi (t : Text) : Int :=
  match t.dropWhile isSpace with
  | [] => 0
  | c :: rest =>
      if c = ch '-' then -(atoiDigits 0 rest : Int)
      else if c = ch '+' then atoiDigits 0 rest
      else atoiDigits 0 (c :: rest)

/-- `__icestun_xobj_to_sockaddr_in` -/
def xobjToSockaddrIn (p : Platform) (attrs : AttrList) : Option SockAddr :=
  let portnum := getattr (lit "port") attrs
  let ipaddr := (getattr (lit "ip") attrs).or (getattr (lit "address") attrs)
  match portnum, ipaddr with
  | some portnum, some ipaddr =>
      (p.inetAton ipaddr).map fun addr => ⟨((atoi portnum) % 65536).toNat.toUInt16, addr⟩
  | _, _ => none

namespace IoStream

/-- `__x_object_get_child`: the place of the first child whose name begins `cname`. -/
def getChild (children : List Child) (cname : Text) : Option Nat :=
  children.findIdx? fun child => eqnText child.name cname

/-- `x_object_append_child_no_cb`: the child goes to the end of the chain of the first child
that is found under its name. -/
def linkChild (ice : IoStream) (name : Text) (attrs : AttrList) : IoStream :=
  let chain := ((getChild ice.children name).bind fun i => ice.children[i]?).elim
    ice.children.length Child.chain
  { ice with
    children := ice.children ++ [⟨name, attrs, chain⟩]
    cr := ice.cr ||| xobjCrDirty }

/-- The children from `start` on along the `next` pointers. -/
def chainFrom (children : List Child) (start : Nat) : List Child :=
  match children[start]? with
  | none => []
  | some child => (children.drop start).filter fun later => later.chain = child.chain

/-- The identifier that a local candidate draws, behind the pairs that it is inserted into. -/
def localStreamId (p : Platform) (ice : IoStream) : Nat :=
  let pairs := if ice.locals.items.length ≥ maxConnPairs then 0 else ice.remotes.items.length
  (p.random (ice.draws + pairs)).val

/-- The branch of `icectl_on_child_append` for a local candidate.  Its identifier is set on the
child, which is the last one. -/
def onLocalCandidate (p : Platform) (ice : IoStream) (attrs : AttrList) :
    Except Fault (IoStream × List Output) :=
  match xobjToSockaddrIn p attrs with
  | none => .ok (ice, [])
  | some addr => do
      let streamId := localStreamId p ice
      let cand := ⟨ice.mallocs, addr, some streamId, none, none⟩
      let ice ← insertLocalCandidate p { ice with mallocs := ice.mallocs + 1 } cand
      let setId := fun l => setattr (lit "id") (some (decimal streamId)) l
      let ice := { ice with
        draws := ice.draws + 1
        children := ice.children.modify (ice.children.length - 1) fun child =>
          { child with attrs := setId child.attrs } }
      .ok (ice, [.candidateNew (setId attrs)])

/-- The branch of `icectl_on_child_append` for a remote candidate. -/
def onRemoteCandidate (p : Platform) (ice : IoStream) (attrs : AttrList) :
    Except Fault (IoStream × List Output) :=
  match xobjToSockaddrIn p attrs with
  | none => .ok (ice, [])
  | some addr => do
      let env := fun k => (getattr k attrs).or (getenv p ice k)
      let username := (getattr (lit "username") attrs).or (env (lit "ufrag"))
      let password := (getattr (lit "password") attrs).or (env (lit "pwd"))
      let cand := ⟨ice.mallocs, addr, none, username, password⟩
      let ice ← insertRemoteCandidate p { ice with mallocs := ice.mallocs + 1 } cand
      .ok (ice, [])

/-- `icectl_on_child_append` -/
def onChildAppend (p : Platform) (ice : IoStream) (name : Text) (attrs : AttrList) :
    Except Fault (IoStream × List Output) :=
  if eqText (lit "local-candidate") name then onLocalCandidate p ice attrs
  else if eqText (lit "candidate") name then onRemoteCandidate p ice attrs
  else .ok (ice, [])

/-- `x_object_append_child` on the stream. -/
def appendChild (p : Platform) (ice : IoStream) (name : Text) (attrs : AttrList) :
    Except Fault (IoStream × List Output) :=
  onChildAppend p (ice.linkChild name attrs) name attrs

/-! ## Checks -/

/-- The states in which a pair is checked. -/
def pending (pair : CandidatePair) : Bool :=
  pair.state = .waiting || pair.state = .inProgress

/-- The body of the loop of `__icestun_resend_candidates`, up to the new state.  The length of
a request that is NULL is read as well. -/
def resendPair (p : Platform) (ice : IoStream) (i draws : Nat) (pair : CandidatePair) :
    Except Fault (List Output × Nat) :=
  if pending pair then do
    let portnum := pair.remote.addr.port
    let stunmsg ← getStunFullRequest p draws (getenv p ice (lit "ufrag")) pair.remote.username
      pair.remote.password
    match stunmsg with
    | none => .error .segv
    | some stunmsg =>
        let sock := if portnum &&& 1 ≠ 0 then ice.sockv4Ctl else ice.sockv4
        .ok ([.request i sock pair.remote.addr stunmsg], draws + 2)
  else .ok ([], draws)

/-- The requests for the pairs from place `i` on. -/
def resendPairs (p : Platform) (ice : IoStream) :
    Nat → Nat → List CandidatePair → Except Fault (List Output × Nat)
  | _, draws, [] => .ok ([], draws)
  | i, draws, pair :: rest => do
      let (sent, draws) ← resendPair p ice i draws pair
      let (more, draws) ← resendPairs p ice (i + 1) draws rest
      .ok (sent ++ more, draws)

/-- A pair that a request was sent for is in progress. -/
def checked (pair : CandidatePair) : CandidatePair :=
  if pending pair then { pair with state := .inProgress } else pair

/-- `__icestun_resend_candidates` -/
def resendCandidates (p : Platform) (ice : IoStream) : Except Fault (IoStream × List Output) := do
  let (sent, draws) ← resendPairs p ice 0 ice.draws ice.cPairs.items
  .ok ({ ice with cPairs := ice.cPairs.map checked, draws := draws }, sent)

/-! ## Datagrams -/

/-- `__netaddr_equals`: both are addresses of the family `AF_INET`. -/
def netaddrEquals (a1 a2 : SockAddr) : Bool :=
  a1.port = a2.port && a1.addr = a2.addr

/-- The pair that a response from an address is for. -/
def awaiting (ice : IoStream) (peer : SockAddr) : Option Nat :=
  ice.cPairs.items.findIdx? fun pair =>
    pair.state = .inProgress && netaddrEquals pair.remote.addr peer

/-- The loop of `__on_packet_in` over the pairs. -/
def succeedPair (ice : IoStream) (peer : SockAddr) : IoStream :=
  match awaiting ice peer with
  | none => ice
  | some i =>
      let ice := { ice with
        cPairs := ice.cPairs.modify i fun pair => { pair with state := .succeeded } }
      if rtpSucceeded ice then ice
      else { ice with
        cr := ice.cr ||| iceFlagRtpSucceeded
        cPairLastSuccess := ice.cPairLastSuccess.or (some i) }

/-- `x_inet_ntop` for the address in host order. -/
def inetNtop (addr : UInt32) : Text :=
  let byte := fun n => decimal (addr.toNat / n % 256)
  byte 0x1000000 ++ lit "." ++ byte 0x10000 ++ lit "." ++ byte 0x100 ++ lit "." ++ byte 1

/-- The first mapped address of a response.  The eight bytes that are read of its value have to be
within the size that was asked for, whatever the block has behind that. -/
def mappedAddress (attrs : List StunAttr) : Except Fault (Option SockAddr) :=
  match stunAttrId attrs stunMappedAddress with
  | none => .ok none
  | some attr => do
      let portnum ← readU16 attr.data 2
      let high ← readU16 attr.data 4
      let low ← readU16 attr.data 6
      .ok (some ⟨portnum.toUInt16, (high * 65536 + low).toUInt32⟩)

/-- Whether a child in the chain of the local candidates has an address. -/
def knowsLocal (children : List Child) (ip port : Text) : Bool :=
  match getChild children (lit "local-candidate") with
  | none => false
  | some start => (chainFrom children start).any fun o1 =>
      match (getattr (lit "ip") o1.attrs).or (getattr (lit "address") o1.attrs),
        getattr (lit "port") o1.attrs with
      | some a1, some a2 => eqText a1 ip && eqText a2 port
      | _, _ => false

/-- The attributes of a candidate that a STUN server saw. -/
def srflxAttrs (mapped : SockAddr) : AttrList :=
  let ip := inetNtop mapped.addr
  let port := decimal mapped.port.toNat
  let component := if mapped.port &&& 1 ≠ 0 then lit "2" else lit "1"
  [(lit "ip", ip), (lit "address", ip), (lit "port", port), (lit "rel-addr", ip),
    (lit "rel-port", port), (lit "type", lit "srflx"), (lit "protocol", lit "udp"),
    (lit "network", lit "0"), (lit "component", component), (lit "generation", lit "0"),
    (lit "foundation", lit "0"), (lit "priority", lit "1694498815")].foldl
      (fun l cell => setattr cell.1 (some cell.2) l) []

/-- The end of the branch for responses: a mapped address that is not known yet becomes a
local candidate. -/
def addMapped (p : Platform) (ice : IoStream) (mapped : Option SockAddr) :
    Except Fault (IoStream × List Output) :=
  match mapped with
  | none => .ok (ice, [])
  | some mapped =>
      if knowsLocal ice.children (inetNtop mapped.addr) (decimal mapped.port.toNat) then
        .ok (ice, [])
      else appendChild p ice (lit "local-candidate") (srflxAttrs mapped)

/-- Whether the header of a response has the magic cookie. -/
def hasCookie (buf : Datagram) : Bool :=
  slice buf.bytes 4 4 = htonl stunMCookie.toNat

/-- The branch of `__on_packet_in` for responses. -/
def onResponse (p : Platform) (ice : IoStream) (r : Received) :
    Except Fault (IoStream × List Output) := do
  let ice := if hasCookie r.buf then succeedPair ice r.peer else ice
  let pkt ← stunPacketFromHdr p.hmac p.crcTab r.buf none
  let mapped ← mappedAddress pkt.attrs
  addMapped p ice mapped

/-- `route_rtp_packet_in`.  The payload type has seven bits. -/
def routeRtpPacketIn (ice : IoStream) (r : Received) : Except Fault (IoStream × List Output) :=
  let pt := be16 r.buf.bytes 0 % 128
  let written := fun owner =>
    Output.media owner (r.buf.bytes.drop 12) ((r.len : Int) - 12)
  if pt < payloadCacheSize then
    match ice.mediaOwnerCache pt with
    | some owner => .ok (ice, [written owner])
    | none =>
        match r.payloads.find? fun payload => eqnText payload.1 (decimal pt) with
        | none => .ok (ice, [])
        | some (_, owner) =>
            let cache := fun n => if n = pt then some owner else ice.mediaOwnerCache n
            .ok ({ ice with mediaOwnerCache := cache }, [written owner])
  else .error .overread

/-- `is_rtp = ~(flags & 0x1)` -/
def isRtp (flags : UInt32) : UInt32 :=
  ~~~(flags &&& 0x1)

/-- `__on_packet_in` -/
def onPacketIn (p : Platform) (ice : IoStream) (flags : UInt32) (r : Received) :
    Except Fault (IoStream × List Output) :=
  let sockfd := if isRtp flags ≠ 0 then ice.sockv4 else ice.sockv4Ctl
  if be16 r.buf.bytes 0 = stunReq then do
    let lkey := getattr (lit "pwd") ice.attrs
    let resp ← stunGetResponse p.hmac p.crcTab p.heap lkey r.buf r.peer
    match resp with
    | none => .error .segv
    | some resp => .ok (ice, [.response sockfd r.peer resp])
  else if be16 r.buf.bytes 0 = stunResp then onResponse p ice r
  else if be16 r.buf.bytes 0 / 256 ≠ 0 then
    if isRtp flags ≠ 0 then do
      let (ice, sent) ← routeRtpPacketIn ice r
      .ok (ice, .routeRtp r.buf.bytes r.len :: sent)
    else .ok (ice, [.routeRtcp r.buf.bytes r.len])
  else .ok (ice, [])

/-- `__icectl_recvmsg`: the lowest bit of the descriptor is the control flag. -/
def recvmsg (p : Platform) (ice : IoStream) (s : Nat) (r : Received) :
    Except Fault (IoStream × List Output) :=
  onPacketIn p ice (s.toUInt32 &&& 0x1) r

/-- `__icectl_on_channel_ipv4_event` -/
def onChannelIpv4Event (p : Platform) (ice : IoStream) (r : Received) :
    Except Fault (IoStream × List Output) :=
  recvmsg p ice ice.sockv4 r

/-- `__icectl_on_channel_ipv4_ctl_event` -/
def onChannelIpv4CtlEvent (p : Platform) (ice : IoStream) (r : Received) :
    Except Fault (IoStream × List Output) :=
  recvmsg p ice ice.sockv4Ctl r

/-! ## Media -/

/-- `EQ(typ, "control")` -/
def isControl (attr : Option AttrList) : Bool :=
  match attr.bind (getattr (lit "type")) with
  | none => false
  | some typ => eqText typ (lit "control")

/-- The loop of `icectl_try_write`, from place `i` on: the last address that was looked at, and
the pair that is taken. -/
def findPair : Nat → List CandidatePair → Option SockAddr × Option Nat
  | _, [] => (none, none)
  | i, pair :: rest =>
      if pair.state = .succeeded ∧ pair.remote.addr.port &&& 1 = 0 then
        if pair.remote.addr.addr ≠ 0 then (some pair.remote.addr, some i)
        else
          let (raddr, found) := findPair (i + 1) rest
          (raddr.or (some pair.remote.addr), found)
      else findPair (i + 1) rest

/-- The header of a packet; `pt` has to be among the attributes. -/
def rtpHeader (attr : Option AttrList) (ssrc : Option Nat) : Except Fault RtpHdr :=
  let field := fun name => attr.bind (getattr (lit name))
  match field "pt" with
  | none => .error .segv
  | some pt => .ok
      { pt := (atoi pt % 128).toNat
        seq := (field "seqno").map fun t => (atoi t % 65536).toNat
        tStamp := (field "timestamp").map fun t => (atoi t % 4294967296).toNat
        ssrcId := ssrc }

/-- `icectl_try_write` -/
def tryWrite (ice : IoStream) (buf : List Byte) (attr : Option AttrList) :
    Except Fault (IoStream × List Output) :=
  if rtpSucceeded ice then do
    let sockfd := if isControl attr then ice.sockv4Ctl else ice.sockv4
    let (scanned, taken) := match ice.cPairLastSuccess with
      | some i => (none, some i)
      | none => findPair 0 ice.cPairs.items
    let ice := { ice with cPairLastSuccess := taken }
    match taken with
    | some i =>
        match ice.cPairs.items[i]? with
        | none => .error .segv
        | some pair =>
            match pair.localCand with
            | none => .error .segv
            | some localCand => do
                let rtp ← rtpHeader attr localCand.streamId
                .ok (ice, [.rtp sockfd pair.remote.addr rtp buf])
    | none =>
        match scanned with
        | none => .ok (ice, [])
        | some raddr => do
            let rtp ← rtpHeader attr none
            .ok (ice, [.rtp sockfd raddr rtp buf])
  else .ok (ice, [])

end IoStream

end Xwbot.Ice
