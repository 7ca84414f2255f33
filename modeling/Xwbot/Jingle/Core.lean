import Xwbot.AttrList
import Xwbot.HashTable
import Xwbot.Object.Heap
import Xwbot.Runs
import Xwbot.Session.Store

/-!
# The Jingle plugin

What `jingle_parse_commit` does with a received `jingle` element: the sessions,
their channels and transports, the registers of the jingle objects, and what is
sent to the peer.  The elements are given with the attributes that `_AGET` and
`_ENV` find.  A step that does not get to its end tells what the agent has come
to by then.  The media profiles, the transports themselves and the reference
counts of sessions and jingle objects are not modelled.
-/

namespace Xwbot.Jingle

open Runs

/-! ## Received elements -/

/-- A `payload-type` element with its `parameter` children. -/
structure Payload where
  attrs : AttrList
  parameters : List AttrList
  deriving DecidableEq, Repr

/-- A `description` element. -/
structure Description where
  attrs : AttrList
  payloads : List Payload
  deriving DecidableEq, Repr

/-- A `transport` element with its `candidate` children. -/
structure Transport where
  attrs : AttrList
  candidates : List AttrList
  deriving DecidableEq, Repr

/-- A `content` element.  Either child may be absent. -/
structure Content where
  attrs : AttrList
  transport : Option Transport
  description : Option Description
  deriving DecidableEq, Repr

/-- A `jingle` element: its own attributes, and those that the `iq` that it is in and the objects
around that have when the element is committed. -/
structure Element where
  iq : AttrList
  outer : AttrList
  attrs : AttrList
  contents : List Content
  deriving DecidableEq, Repr

/-! ## Actions -/

/-- `x_jingle_action_type` -/
inductive Action where
  | unknownType
  | contentAccept
  | contentAdd
  | contentModify
  | contentReject
  | contentRemove
  | descriptionInfo
  | securityInfo
  | sessionAccept
  | sessionInfo
  | sessionInitiate
  | sessionTerminate
  | transportAccept
  | transportInfo
  | transportReject
  | transportReplace
  deriving DecidableEq, Repr

/-- `jingle_get_action_name` -/
def Action.name : Action → Text
  | .unknownType => lit "unknown-type"
  | .contentAccept => lit "content-accept"
  | .contentAdd => lit "content-add"
  | .contentModify => lit "content-modify"
  | .contentReject => lit "content-reject"
  | .contentRemove => lit "content-remove"
  | .descriptionInfo => lit "description-info"
  | .securityInfo => lit "security-info"
  | .sessionAccept => lit "session-accept"
  | .sessionInfo => lit "session-info"
  | .sessionInitiate => lit "session-initiate"
  | .sessionTerminate => lit "session-terminate"
  | .transportAccept => lit "transport-accept"
  | .transportInfo => lit "transport-info"
  | .transportReject => lit "transport-reject"
  | .transportReplace => lit "transport-replace"

/-- The entries of `jingle_actions` that `jingle_get_action_type` compares with. -/
def actions : List Action :=
  [.contentAccept, .contentAdd, .contentModify, .contentReject, .contentRemove,
    .descriptionInfo, .securityInfo, .sessionAccept, .sessionInfo, .sessionInitiate,
    .sessionTerminate, .transportAccept, .transportInfo, .transportReject, .transportReplace]

/-- `jingle_get_action_type` -/
def getActionType (action : Text) : Action :=
  (actions.find? fun entry => eqText action entry.name).getD .unknownType

/-! ## The agent -/

/-- `regs.state` -/
inductive State where
  | gnew
  | incoming
  | outcoming
  deriving DecidableEq, Repr

/-- `regs`, with the bits of `cr0`. -/
structure Regs where
  state : State := .gnew
  pending : Bool := false
  running : Bool := false
  stopped : Bool := false
  remoteCandidate : Bool := false
  deriving DecidableEq, Repr

/-- `regs.cr0 = JINGLE_CR0_PENDING` -/
def Regs.turnPending (regs : Regs) : Regs :=
  { regs with pending := true, running := false, stopped := false, remoteCandidate := false }

/-- `regs.cr0 &= ~JINGLE_CR0_PENDING; regs.cr0 |= JINGLE_CR0_RUNNING` -/
def Regs.turnRunning (regs : Regs) : Regs :=
  { regs with pending := false, running := true }

/-- `struct jingle_object`, with what the element that it stands for has at the moment. -/
structure JingleObject where
  iq : AttrList
  outer : AttrList
  attrs : AttrList
  contents : List Content
  pendingChannels : AttrList
  regs : Regs
  deriving DecidableEq, Repr

/-- An `__iostream` object.  A transport holds the candidates that were appended to it. -/
structure Channel where
  name : Text
  transport : Option (List AttrList)
  deriving DecidableEq, Repr

/-- What is observed of the jingle object `i`. -/
inductive Event where
  /-- The answer to an `iq`. -/
  | result (i : Nat)
  /-- A `jingle` element is sent. -/
  | sent (i : Nat) (action : Action)
  /-- A candidate of a received element is appended to the transport of a channel. -/
  | candidate (i : Nat)
  deriving DecidableEq, Repr

/-- What the plugin finds registered, and the numbers that `rand` gives. -/
structure Config where
  /-- `x_object_new_ns_match("__icectl", ns, hints, FALSE)` gives an object. -/
  icectl : Text → AttrList → Bool
  /-- `x_object_new_ns_match(name, "gobee:media", hints, FALSE)` gives an object. -/
  media : Text → AttrList → Bool
  random : Nat → Text

/-- One bus with its sessions and jingle objects. -/
structure Agent where
  store : Store
  /-- The address of the next session. -/
  top : Nat
  channels : Nat → List Channel
  /-- The jingle object that is subscribed to a session: there is one from the time on when the
  session is appended. -/
  listener : Nat → Nat
  count : Nat
  object : Nat → JingleObject
  log : List Event

/-- The end of a run: the fault, and the agent when the program comes to it. -/
structure Crash where
  fault : Fault
  agent : Agent

/-- `x_object_getenv` for a jingle object. -/
def JingleObject.env (o : JingleObject) (key : Text) : Option Text :=
  getattr key o.attrs <|> getattr key o.iq <|> getattr key o.outer

/-- `x_object_getenv` for a `content` of a jingle object. -/
def Content.env (chan : Content) (o : JingleObject) (key : Text) : Option Text :=
  getattr key chan.attrs <|> o.env key

/-- The attribute `name` of a `content`. -/
def Content.name (chan : Content) : Option Text :=
  getattr (lit "name") chan.attrs

/-- `x_strstr(s, sub) != NULL` -/
def strstr (s sub : Text) : Bool :=
  sub <:+: s

/-- The comparison of `iq_match` and of `jingle_match`. -/
def attrMatch : Option Text → Option Text → Bool
  | none, none => true
  | some s₁, some s₂ => eqText s₁ s₂
  | _, _ => false

/-- `setattr(k, v, head)` with keys that may be NULL, which `EQKEY` and `SETKEY` dereference. -/
def setattrPtr (k v : Option Text) (head : AttrList) : Except Fault AttrList :=
  match k with
  | some k => .ok (setattr k v head)
  | none => if v = none ∧ head = [] then .ok head else .error .segv

/-- The test of `__x_object_get_child`: without a name every object will do. -/
def answersTo (name : Option Text) (child : Text) : Bool :=
  match name with
  | some name => eqnText child name
  | none => true

/-- The description asks for RTP. -/
def Description.isRtp (descr : Description) : Bool :=
  match getattr (lit "xmlns") descr.attrs with
  | some tmpstr => strstr tmpstr (lit "rtp")
  | none => false

/-- Among the parameters there is one with the key that is looked up. -/
def Payload.assigns (payload : Payload) (key : Text) : Bool :=
  payload.parameters.any fun tmpparam => getattr (lit "name") tmpparam = some key

namespace Agent

variable (c : Config) (a : Agent) (i : Nat)

/-- A computation that does not change the agent. -/
def checked {α : Type} (x : Except Fault α) : Except Crash α :=
  x.mapError fun fault => ⟨fault, a⟩

/-- Something happened. -/
def note (event : Event) : Agent :=
  { a with log := a.log ++ [event] }

/-- A change of the registers. -/
def setRegs (regs : Regs) : Agent :=
  { a with object := Function.update a.object i { a.object i with regs := regs } }

/-- The jingle object with the given `iq` and session. -/
def find (iqFrom sid : Option Text) : Option Nat :=
  (List.range a.count).find? fun i =>
    attrMatch (getattr (lit "from") (a.object i).iq) iqFrom &&
      attrMatch (getattr (lit "sid") (a.object i).attrs) sid

/-- A new object of the class. -/
def create (o : JingleObject) : Agent :=
  { a with count := a.count + 1, object := Function.update a.object a.count o }

/-! ## Sessions -/

/-- `___jingle_on_session_new` -/
def onSessionNew (xcs : Nat) (remote sid : Text) : Agent :=
  match a.find (some remote) (some sid) with
  | some i =>
      let a := a.setRegs i { (a.object i).regs with state := .incoming }
      { a with listener := Function.update a.listener xcs i }
  | none =>
      let a := { a with listener := Function.update a.listener xcs a.count }
      a.create
        { iq := [(lit "from", remote)], outer := [], attrs := [(lit "sid", sid)], contents := []
          pendingChannels := [], regs := { state := .outcoming } }

/-- `x_session_open` for a peer that is given; the listener for new sessions runs when one is
appended. -/
def openSession (jid : Text) (sid : Option Text) (creat : Bool) : Agent × Option Nat :=
  let (store, xcs) := a.store.xSessionOpen jid sid creat (c.random a.top) a.top
  let opened := { a with store := store }
  if creat ∧ a.store.lookup jid sid = none then
    let opened :=
      { opened with top := a.top + 1, channels := Function.update a.channels a.top [] }
    (opened.onSessionNew a.top jid (sid.getD (c.random a.top)), xcs)
  else (opened, xcs)

/-- `x_session_open` -/
def sessionOpen (jid sid : Option Text) (creat : Bool) : Except Crash (Agent × Option Nat) :=
  match jid with
  | none => .error ⟨.bug, a⟩
  | some jid =>
      if a.store.Hosts jid then .ok (a.openSession c jid sid creat) else .error ⟨.overflow, a⟩

/-- `_CHLD(sesso, ch_name)`: the place of the channel. -/
def channelIndex (xcs : Nat) (name : Option Text) : Option Nat :=
  (a.channels xcs).findIdx? fun channel => answersTo name channel.name

/-- `x_session_channel_open2`: `x_object_set_name` does not take NULL. -/
def channelOpen2 (xcs : Nat) (name : Option Text) : Except Crash (Agent × Nat) :=
  match a.channelIndex xcs name with
  | some k => .ok (a, k)
  | none =>
      match name with
      | some name =>
          if NameFits name then
            let channels := a.channels xcs ++ [⟨name, none⟩]
            .ok ({ a with channels := Function.update a.channels xcs channels },
              (a.channels xcs).length)
          else .error ⟨.overflow, a⟩
      | none => .error ⟨.bug, a⟩

/-- `x_session_channel_open` -/
def channelOpen (rjid sid name : Option Text) : Except Crash (Agent × Nat × Nat) := do
  let (a, sesso) ← a.sessionOpen c rjid sid false
  match sesso with
  | none => .error ⟨.bug, a⟩
  | some xcs => do
      let (a, k) ← a.channelOpen2 xcs name
      .ok (a, xcs, k)

/-- The transport of a channel. -/
def transport (xcs k : Nat) : Option (List AttrList) :=
  ((a.channels xcs)[k]?).bind Channel.transport

/-- A change of the transport of a channel. -/
def setTransport (xcs k : Nat) (candidates : List AttrList) : Agent :=
  { a with
    channels := Function.update a.channels xcs
      ((a.channels xcs).modify k fun channel => { channel with transport := some candidates }) }

/-- `x_session_channel_set_transport_profile_ns`: a second transport goes behind the first, which
lookups find. -/
def setTransportProfile (xcs k : Nat) (ns : Text) (hints : AttrList) : Agent :=
  if c.icectl ns hints then a.setTransport xcs k ((a.transport xcs k).getD []) else a

/-- `x_session_channel_add_transport_candidate` -/
def addTransportCandidate (xcs k : Nat) (candidate : AttrList) : Agent :=
  match a.transport xcs k with
  | some candidates => (a.setTransport xcs k (candidates ++ [candidate])).note (.candidate i)
  | none => a

/-! ## Sending -/

/-- `__jingle_session_send_transport_info` -/
def sendTransportInfo : Except Crash Agent := do
  let o := a.object i
  let (a, sess) ← a.sessionOpen c (o.env (lit "from")) (o.env (lit "sid")) false
  match sess with
  | none => .ok a
  | some _ => .ok (a.note (.sent i .transportInfo))

/-- `__jingle_session_send_initiate` -/
def sendInitiate : Except Crash Agent := do
  let o := a.object i
  let (a, sess) ← a.sessionOpen c (o.env (lit "from")) (o.env (lit "sid")) false
  match sess with
  | none => .ok a
  | some _ => .ok ((a.setRegs i (a.object i).regs.turnPending).note (.sent i .sessionInitiate))

/-- A turn of the loop of `__jingle_session_send_accept`: `x_object_copy` does not take NULL. -/
def copyContent (xcs : Nat) (a : Agent) (chan : Content) : Except Crash Agent := do
  let (a, k) ← a.channelOpen2 xcs chan.name
  match a.transport xcs k, chan.transport with
  | some _, none => .error ⟨.segv, a⟩
  | _, _ => .ok a

/-- `__jingle_session_send_accept` -/
def sendAccept : Except Crash Agent := do
  let o := a.object i
  let (a, sess) ← a.sessionOpen c (o.env (lit "from")) (o.env (lit "sid")) false
  match sess with
  | none => .ok a
  | some xcs => do
      let a ← run (copyContent xcs) a o.contents
      .ok (a.note (.sent i .sessionAccept))

/-- The steps that are marked `jingle_state_step`. -/
def stateStep : Except Crash Agent :=
  let regs := (a.object i).regs
  if regs.pending ∧ regs.remoteCandidate then do
    let a ← a.sendAccept c i
    .ok (a.setRegs i (a.object i).regs.turnRunning)
  else .ok a

/-- `jingle_msg_recv` for `session-activate`. -/
def sessionActivate : Except Crash Agent :=
  match (a.object i).regs.state with
  | .outcoming => do
      let a ← a.sendInitiate c i
      a.sendTransportInfo c i
  | .incoming => do
      let a ← a.sendTransportInfo c i
      a.stateStep c i
  | .gnew => .ok a

/-- `jingle_msg_recv` for `session-destroy`, up to the subscription that is given up. -/
def sessionDestroy : Agent :=
  let regs := (a.object i).regs
  if regs.stopped then a
  else (a.setRegs i { regs with stopped := true }).note (.sent i .sessionTerminate)

/-- `x_session_start`: `session_assign` tells the listener. -/
def sessionStart (xcs : Nat) : Except Crash Agent :=
  a.sessionActivate c (a.listener xcs)

/-- `session_remove` tells the listener, which gives its subscription up: `_USBSCRB` frees the cell
at which `x_object_sendmsg_multicast` is, and that reads the `next` of the cell behind the call. -/
def sessionRemove (xcs : Nat) : Except Crash Agent :=
  .error ⟨.freed, a.sessionDestroy (a.listener xcs)⟩

/-- `x_session_close`: a session that is found is told before it is destroyed, and so nothing
behind that is reached. -/
def sessionClose (jid sid : Option Text) : Except Crash Agent :=
  match jid with
  | none => .error ⟨.bug, a⟩
  | some jid =>
      match a.store.lookup jid sid with
      | none => .ok a
      | some xcs => a.sessionRemove xcs.addr

/-! ## Handlers -/

/-- `setattr(_AGET(tmpparam,"name"), _AGET(tmpparam,"value"), &payload->attrs)` -/
def assignParameter (attrs : AttrList) (tmpparam : AttrList) : Except Fault AttrList :=
  setattrPtr (getattr (lit "name") tmpparam) (getattr (lit "value") tmpparam) attrs

/-- The lookup of a class that `x_session_add_payload_to_channel` begins with, and the two names of
the object that is made if a class is found: what it is looked up with, and the `id`. -/
def addPayload (ptype ptname : Option Text) (hints : AttrList) : Except Fault Unit :=
  match ptname with
  | some ptname =>
      if lowcaseBuf ≤ (objectName ptname).length then .error .overflow
      else if c.media ptname hints then
        match ptype with
        | some ptype =>
            if NameFits (objectName ptname) ∧ NameFits ptype then .ok () else .error .overflow
        | none => .error .bug
      else .ok ()
  | none => .ok ()

/-- A turn of the loop over the payloads.  A parameter with the key `name` frees the text that
`ptname` points to. -/
def handlePayload (payload : Payload) : Except Fault Unit := do
  let ptname := getattr (lit "name") payload.attrs
  let attrs ← run assignParameter payload.attrs payload.parameters
  if ptname.isSome ∧ payload.assigns (lit "name") then .error .freed
  else addPayload c (getattr (lit "id") attrs) ptname attrs

/-- The loop over the payloads of a description. -/
def handlePayloads (payloads : List Payload) : Except Fault Unit :=
  run (fun _ payload => handlePayload c payload) () payloads

/-- What `_ENV` finds for a candidate. -/
def candidateEnv (candidate : AttrList) (transport : Transport) (chan : Content)
    (o : JingleObject) (key : Text) : Option Text :=
  getattr key candidate <|> getattr key transport.attrs <|> chan.env o key

/-- The credentials of a candidate, as `session-initiate` and `session-accept` set them. -/
def withCredentials (transport : Transport) (chan : Content) (o : JingleObject)
    (candidate : AttrList) : AttrList :=
  let tmpstr1 := candidateEnv candidate transport chan o (lit "ufrag")
  let tmpstr2 := candidateEnv candidate transport chan o (lit "pwd")
  setattr (lit "password") tmpstr2 (setattr (lit "username") tmpstr1 candidate)

/-- The credentials of a candidate, as `transport-info` sets them. -/
def withMissingCredentials (transport : Transport) (chan : Content) (o : JingleObject)
    (candidate : AttrList) : AttrList :=
  let tmpstr1 := candidateEnv candidate transport chan o (lit "ufrag")
  let tmpstr2 := candidateEnv candidate transport chan o (lit "pwd")
  let candidate :=
    if tmpstr1.isSome ∧ getattr (lit "username") candidate = none then
      setattr (lit "username") tmpstr1 candidate
    else candidate
  if tmpstr2.isSome ∧ getattr (lit "password") candidate = none then
    setattr (lit "password") tmpstr2 candidate
  else candidate

/-- The loop over the candidates of a transport. -/
def addCandidates (xcs k : Nat) (candidates : List AttrList) : Agent :=
  candidates.foldl (fun a candidate => a.addTransportCandidate i xcs k candidate) a

/-- A turn of the first loop of `__jingle_session_on_initiate`. -/
def openPending (xcs : Nat) (a : Agent) (chan : Content) : Except Crash Agent := do
  let (a, _) ← a.channelOpen2 xcs chan.name
  let pending ← a.checked (setattrPtr chan.name chan.name (a.object i).pendingChannels)
  let o := { a.object i with pendingChannels := pending }
  .ok { a with object := Function.update a.object i o }

/-- The transport profile for the namespace of a `transport`. -/
def profileOf (tmpstr : Option Text) : Option Text :=
  match tmpstr with
  | none => none
  | some tmpstr =>
      if strstr tmpstr (lit "ice") then some (lit "urn:xmpp:jingle:transports:ice-udp:1")
      else if strstr tmpstr (lit "p2p") then some (lit "http://www.google.com/transport/p2p")
      else none

/-- The channel gets the transport that a `transport` asks for. -/
def addProfile (xcs k : Nat) (transport : Transport) : Agent :=
  match profileOf (getattr (lit "xmlns") transport.attrs) with
  | some ns => a.setTransportProfile c xcs k ns transport.attrs
  | none => a

/-- The candidates of a `session-initiate` go to the transport of the channel, if it has one. -/
def takeCandidates (xcs k : Nat) (transport : Transport) (chan : Content) : Agent :=
  match a.transport xcs k with
  | some _ =>
      a.addCandidates i xcs k
        (transport.candidates.map (withCredentials transport chan (a.object i)))
  | none => a

/-- A turn of the second loop of `__jingle_session_on_initiate`. -/
def initiateContent (xcs : Nat) (a : Agent) (chan : Content) : Except Crash Agent := do
  let (a, k) ← a.channelOpen2 xcs chan.name
  match chan.transport, chan.description with
  | some transport, some descr => do
      let a := (a.addProfile c xcs k transport).takeCandidates i xcs k transport chan
      if descr.isRtp then do
        a.checked (handlePayloads c descr.payloads)
        .ok a
      else .ok a
  | some transport, none =>
      .error ⟨.segv, (a.addProfile c xcs k transport).takeCandidates i xcs k transport chan⟩
  | none, _ => .error ⟨.segv, a⟩

/-- The two loops of `__jingle_session_on_initiate`. -/
def takeContents (xcs : Nat) (contents : List Content) : Except Crash Agent := do
  let a ← run (openPending i xcs) a contents
  run (initiateContent c i xcs) a contents

/-- Whether `__jingle_session_on_initiate` goes on: the object is new, or the agent calls itself. -/
def admits (sender : Text) : Except Fault Bool :=
  let o := a.object i
  if o.regs.state = .gnew then .ok true
  else
    match o.env (lit "jid") with
    | none => .error .segv
    | some jid => .ok (eqText sender jid)

/-- `__jingle_session_on_initiate` -/
def onInitiate : Except Crash Agent :=
  let o := a.object i
  match o.env (lit "from") with
  | none => .error ⟨.bug, a⟩
  | some sender => do
      let admitted ← a.checked (a.admits i sender)
      if admitted then do
        let (a, sess) ← a.sessionOpen c (some sender) (getattr (lit "sid") o.attrs) true
        match sess with
        | none => .error ⟨.bug, a⟩
        | some xcs => do
            let a ← a.takeContents c i xcs o.contents
            let a := a.setRegs i (a.object i).regs.turnPending
            a.sessionStart c xcs
      else .error ⟨.bug, a⟩

/-- A turn of the loop of `__jingle_session_on_transport_info`. -/
def infoContent (a : Agent) (chan : Content) : Except Crash Agent := do
  let o := a.object i
  let (a, xcs, k) ← a.channelOpen c (chan.env o (lit "from")) (chan.env o (lit "sid")) chan.name
  match a.transport xcs k, chan.transport with
  | none, _ => .ok a
  | some _, none => .error ⟨.segv, a⟩
  | some _, some transport =>
      let a := a.addCandidates i xcs k
        (transport.candidates.map (withMissingCredentials transport chan o))
      let regs := (a.object i).regs
      .ok (a.setRegs i { regs with
        remoteCandidate := regs.remoteCandidate || !transport.candidates.isEmpty })

/-- `__jingle_session_on_transport_info` -/
def onTransportInfo : Except Crash Agent := do
  let a ← run (infoContent c i) a (a.object i).contents
  if (a.object i).regs.state = .incoming then a.stateStep c i else .ok a

/-- A turn of the loop of `__jingle_session_on_accept`. -/
def acceptContent (a : Agent) (chan : Content) : Except Crash Agent := do
  let o := a.object i
  let (a, xcs, k) ← a.channelOpen c (chan.env o (lit "from")) (chan.env o (lit "sid")) chan.name
  match a.transport xcs k, chan.transport with
  | none, _ => .ok a
  | some _, none => .error ⟨.segv, a⟩
  | some _, some transport => do
      let a := a.addCandidates i xcs k
        (transport.candidates.map (withCredentials transport chan o))
      a.checked (handlePayloads c ((chan.description.map Description.payloads).getD []))
      .ok a

/-- `__jingle_session_on_accept` -/
def onAccept : Except Crash Agent :=
  let a := a.setRegs i (a.object i).regs.turnRunning
  run (acceptContent c i) a (a.object i).contents

/-- `__jingle_session_on_terminate` -/
def onTerminate : Except Crash Agent :=
  let o := a.object i
  if o.regs.stopped then .ok a
  else do
    let a := a.setRegs i { o.regs with stopped := true }
    let sid := getattr (lit "sid") o.attrs
    let (a, _) ← a.sessionOpen c (o.env (lit "from")) sid false
    a.sessionClose (o.env (lit "from")) sid

/-- `jingle_actions[atyp].handler(thiz)` -/
def handle (action : Action) : Except Crash Agent :=
  match action with
  | .sessionAccept => a.onAccept c i
  | .sessionInitiate => a.onInitiate c i
  | .sessionTerminate => a.onTerminate c i
  | .transportInfo => a.onTransportInfo c i
  | _ => .ok a

/-- The jingle object that an element is parsed into. -/
def enter (e : Element) : Agent × Nat :=
  match a.find (getattr (lit "from") e.iq) (getattr (lit "sid") e.attrs) with
  | some i =>
      let o := { a.object i with
        iq := e.iq, outer := e.outer, attrs := assigned e.attrs (a.object i).attrs
        contents := e.contents }
      ({ a with object := Function.update a.object i o }, i)
  | none =>
      (a.create
        { iq := e.iq, outer := e.outer, attrs := assigned e.attrs [], contents := e.contents
          pendingChannels := [], regs := {} }, a.count)

/-- The children of a jingle object are dropped. -/
def clear : Agent :=
  { a with object := Function.update a.object i { a.object i with contents := [] } }

/-- `jingle_parse_commit` -/
def parseCommit : Except Crash Agent :=
  let o := a.object i
  match o.env (lit "type") with
  | none => .error ⟨.segv, a⟩
  | some type =>
      if eqText (lit "error") type then .ok (a.clear i)
      else
        -- the answer is sent first
        let a := a.note (.result i)
        match getattr (lit "action") o.attrs with
        | none => .error ⟨.segv, a⟩
        | some action => do
            let a ← a.handle c i (getActionType action)
            .ok (a.clear i)

/-- A received element. -/
def receive (a : Agent) (e : Element) : Except Crash Agent :=
  let entered := a.enter e
  entered.1.parseCommit c entered.2

/-- A bus without sessions. -/
def start : Agent where
  store := .empty
  top := 0
  channels _ := []
  listener _ := 0
  count := 0
  object _ := ⟨[], [], [], [], [], {}⟩
  log := []

/-! ## Opening sessions that are there -/

variable {c a} {b : Agent} {jid : Text} {sid : Option Text}

theorem openSession_false (jid : Text) (sid : Option Text) : a.openSession c jid sid false =
    ({ a with store := (a.store.xSessionOpen jid sid false (c.random a.top) a.top).1 },
      (a.store.lookup jid sid).map Session.addr) := by
  simp [openSession, Store.xSessionOpen_false_snd]

theorem openSession_of_lookup {creat : Bool} {xcs : Session}
    (found : a.store.lookup jid sid = some xcs) :
    a.openSession c jid sid creat = (a, some xcs.addr) := by
  simp [openSession, found, Store.xSessionOpen_of_lookup found]

/-- Opening a session without creating one only touches the store. -/
theorem eq_of_sessionOpen {rjid : Option Text} {xcs : Option Nat}
    (result : a.sessionOpen c rjid sid false = .ok (b, xcs)) :
    ∃ store, b = { a with store := store } := by
  cases rjid with
  | none => cases result
  | some jid =>
      rw [sessionOpen] at result
      split at result
      · rw [openSession_false] at result
        cases result
        exact ⟨_, rfl⟩
      · cases result

/-! ## Computations that do not change the agent -/

@[simp]
theorem checked_ok {α : Type} (x : α) : a.checked (.ok x) = .ok x :=
  rfl

@[simp]
theorem checked_error {α : Type} (fault : Fault) :
    (a.checked (.error fault) : Except Crash α) = .error ⟨fault, a⟩ :=
  rfl

@[simp]
theorem succeeds_checked {α : Type} {x : Except Fault α} :
    Succeeds (a.checked x) ↔ Succeeds x := by
  cases x with
  | error fault => simp
  | ok value => simp

end Agent

end Xwbot.Jingle
