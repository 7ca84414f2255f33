import Xwbot.Jingle.Core
import Xwbot.Object.Node

/-!
# Payload negotiation

The element that `__jingle_session_send_initiate` builds of a session, and what the two loops of
`__jingle_session_on_initiate` make of one.  Opening the session before the loops and starting it
behind them is in the agent; the classes of the objects and where they write to are left out.
-/

namespace Xwbot.Jingle.Negotiation

open Runs

/-! ## Sending -/

/-- The attributes of a payload that its element keeps. -/
def isElementKey (key : Text) : Bool :=
  eqText key (lit "id") || eqText key (lit "name") || eqText key (lit "clockrate")

/-- `*key == '$'` -/
def isPrivate (key : Text) : Bool :=
  key.head? = some (ch '$')

/-- The `parameter` for an attribute. -/
def parameter (attr : Text × Text) : Node :=
  ((Node.new (lit "parameter")).aset (lit "name") (some attr.1)).aset (lit "value") (some attr.2)

/-- A turn of the loop over the attributes of a payload. -/
def describeAttr (pload : Node) (attr : Text × Text) : Node :=
  if isElementKey attr.1 then pload.aset attr.1 (some attr.2)
  else if !isPrivate attr.1 then pload.append (parameter attr)
  else pload

/-- The `payload-type` for a payload. -/
def payloadType (tmp : Node) : Node :=
  tmp.attrs.cells.foldl describeAttr (Node.new (lit "payload-type"))

/-- The `description` of a channel. -/
def description (chan : Node) : Node :=
  let descr := (Node.new (lit "description")).aset (lit "xmlns")
    (some (lit "urn:xmpp:jingle:apps:rtp:1"))
  let descr := descr.aset (lit "media") (chan.aget (lit "mtype"))
  match chan.child (lit "out$media") with
  | none => descr
  | some media => media.sons.foldl (fun descr tmp => descr.append (payloadType tmp)) descr

/-- The `transport` of a channel. -/
def transportCopy (transp : Node) : Except Fault Node := do
  let tr ← transp.copy
  let tr := tr.aset (lit "ufrag") (transp.aget (lit "ufrag"))
  let tr := tr.aset (lit "pwd") (transp.aget (lit "pwd"))
  .ok (tr.aset (lit "xmlns") (transp.aget (lit "xmlns")))

/-- The `content` of a channel, with the copy of its transport. -/
def content (chan tr : Node) : Node :=
  let content := (Node.new (lit "content")).aset (lit "name") (some chan.name)
  let content := content.aset (lit "senders") (some (lit "both"))
  let content := content.aset (lit "creator") (some (lit "initiator"))
  (content.append tr).append (description chan)

/-- A turn of the loop over the channels. -/
def sendChannel (msg chan : Node) : Except Fault Node :=
  match chan.child (lit "transport") with
  | none => .ok msg
  | some transp => do
      let tr ← transportCopy transp
      .ok (msg.append (content chan tr))

/-- The element that `__jingle_session_send_initiate` sends for the session that it has found. -/
def sendInitiate (o : Node) (jid : Option Text) (sess : Node) : Except Fault Node := do
  let msg ← o.copy
  let msg := msg.aset (lit "action") (some (lit "session-initiate"))
  let msg := msg.aset (lit "xmlns") (some (lit "urn:xmpp:jingle:1"))
  let msg := msg.aset (lit "initiator") jid
  run sendChannel msg sess.sons

/-! ## Channels -/

/-- `x_session_channel_open2` on the channels of a session: those in front of the one that is
opened, this one, and those behind it. -/
def channelOpen2 (chName : Option Text) : List Node → Except Fault (List Node × Node × List Node)
  | [] =>
      match chName with
      | some chName => if NameFits chName then .ok ([], Node.new chName, []) else .error .overflow
      | none => .error .bug
  | cho :: rest =>
      if answersTo chName cho.name then .ok ([], cho, rest)
      else do
        let (before, found, behind) ← channelOpen2 chName rest
        .ok (cho :: before, found, behind)

/-- `x_session_channel_set_transport_profile_ns` -/
def setTransportProfile (c : Config) (cho : Node) (ns : Text) (hints : AttrList) : Node :=
  if c.icectl ns hints then cho.append (Node.new (lit "transport")) else cho

/-- `x_session_channel_set_media_profile_ns` -/
def setMediaProfile (cho : Node) : Node :=
  (cho.append (Node.new (lit "in$media"))).append (Node.new (lit "out$media"))

/-- `io_mod` -/
inductive IoMode where
  | decoder
  | encoder
  deriving DecidableEq, Repr

/-- The private mode attribute. -/
def IoMode.text : IoMode → Text
  | .decoder => lit "in"
  | .encoder => lit "out"

/-- `MEDIA_IN_CLASS_STR` and `MEDIA_OUT_CLASS_STR` -/
def IoMode.media : IoMode → Text
  | .decoder => lit "in$media"
  | .encoder => lit "out$media"

/-- `x_session_add_payload_to_channel`, and what it leaves of the hints.  The class sets no
attributes of its own; its lookup and the naming are those of the agent. -/
def addPayload (c : Config) (cho : Node) (ptype ptname : Option Text) (ioMod : IoMode)
    (hints : AttrMap) : Except Fault (Node × AttrMap) := do
  Agent.addPayload c ptype ptname hints.cells
  match ptname, ptype with
  | some ptname, some ptype =>
      if c.media ptname hints.cells then
        let payloado := (Node.new ptype).aset (lit "id") (some ptype)
        let payloado := payloado.aset (lit "name") (some ptname)
        let payloado := payloado.aset (lit "$mode") (some ioMod.text)
        match cho.child ioMod.media with
        | none => .ok (cho, hints)
        | some _ =>
            let hints := hints.set (lit "$mode") none
            let payloado := payloado.assign hints.cells
            .ok (cho.modifyChild ioMod.media (·.append payloado), hints)
      else .ok (cho, hints)
  | _, _ => .ok (cho, hints)

/-! ## Receiving -/

/-- `setattr(_AGET(tmpparam,"name"), _AGET(tmpparam,"value"), &payload->attrs)` -/
def assignParameter (attrs : AttrMap) (tmpparam : Node) : Except Fault AttrMap :=
  match tmpparam.aget (lit "name") with
  | some key => .ok (attrs.set key (tmpparam.aget (lit "value")))
  | none =>
      if tmpparam.aget (lit "value") = none ∧ attrs.cells = [] then .ok attrs else .error .segv

/-- A turn of the loop over the payloads.  A parameter with the key `name` frees the text that
`ptname` points to. -/
def takePayload (c : Config) (cho payload : Node) : Except Fault Node := do
  let ptname := payload.aget (lit "name")
  let parameters := payload.children (lit "parameter")
  let hints ← run assignParameter payload.attrs parameters
  if ptname.isSome ∧ parameters.any fun tmpparam => tmpparam.aget (lit "name") = some (lit "name")
  then .error .freed
  else do
    let (cho, hints) ← addPayload c cho (hints.get (lit "id")) ptname .decoder hints
    let (cho, _) ← addPayload c cho (hints.get (lit "id")) ptname .encoder hints
    .ok cho

/-- `_ENV` -/
def env (around : List AttrList) (key : Text) : Option Text :=
  around.findSome? (getattr key)

/-- A turn of the loop over the candidates.  `icectl_assign` does not keep attributes. -/
def takeCandidate (around : List AttrList) (cho candidate : Node) : Except Fault Node := do
  let around := candidate.attrs.cells :: around
  let named := candidate.aset (lit "username") (env around (lit "ufrag"))
  let candidate := named.aset (lit "password") (env around (lit "pwd"))
  let copy ← candidate.copy
  .ok (cho.modifyChild (lit "transport") (·.append copy))

/-- The channel gets the transport that a `transport` asks for. -/
def addProfile (c : Config) (cho transport : Node) : Node :=
  match Agent.profileOf (transport.aget (lit "xmlns")) with
  | some ns => setTransportProfile c cho ns transport.attrs.cells
  | none => cho

/-- The transport of a channel and its candidates. -/
def takeTransport (c : Config) (around : List AttrList) (cho transport : Node) :
    Except Fault Node :=
  let cho := addProfile c cho transport
  match cho.child (lit "transport") with
  | none => .ok cho
  | some _ =>
      run (takeCandidate (transport.attrs.cells :: around)) cho
        (transport.children (lit "candidate"))

/-- `iostream_on_assign` for the attribute `mtype`. -/
def assignMtype (chan : Node) (mtype : Option Text) : Node :=
  match mtype with
  | none => chan
  | some mtype =>
      let chan := chan.aset (lit "mtype") (some mtype)
      if eqText mtype (lit "video") then
        ((((chan.append (Node.new (lit "dataplayer"))).append (Node.new (lit "datasrc"))).append
          (Node.new (lit "hiddemux"))).append (Node.new (lit "hidmux")))
      else if eqText mtype (lit "audio") then
        (chan.append (Node.new (lit "dataplayer"))).append (Node.new (lit "datasrc"))
      else chan

/-- `iostream_on_assign` for the attribute `$commit`. -/
def commit (chan : Node) : Node :=
  (chan.aset (lit "$commit") (some (lit "yes"))).aset (lit "$commit") none

/-- What the second loop does to the channel that it has opened. -/
def fillChannel (c : Config) (around : List AttrList) (cho chan : Node) : Except Fault Node :=
  match chan.child (lit "transport"), chan.child (lit "description") with
  | some transport, some descr => do
      let cho ← takeTransport c (chan.attrs.cells :: around) cho transport
      let cho := assignMtype cho (descr.aget (lit "media"))
      let cho := setMediaProfile cho
      if (descr.aget (lit "xmlns")).any fun tmpstr => strstr tmpstr (lit "rtp") then do
        let cho ← run (takePayload c) cho (descr.children (lit "payload-type"))
        .ok (commit cho)
      else .ok (commit cho)
  | _, _ => .error .segv

/-- A turn of the first loop. -/
def openPending (s : List Node × AttrList) (chan : Node) : Except Fault (List Node × AttrList) := do
  let (before, found, behind) ← channelOpen2 (chan.aget (lit "name")) s.1
  let pending ← setattrPtr (chan.aget (lit "name")) (chan.aget (lit "name")) s.2
  .ok (before ++ found :: behind, pending)

/-- A turn of the second loop. -/
def takeContent (c : Config) (around : List AttrList) (channels : List Node) (chan : Node) :
    Except Fault (List Node) := do
  let (before, found, behind) ← channelOpen2 (chan.aget (lit "name")) channels
  let cho ← fillChannel c around found chan
  .ok (before ++ cho :: behind)

/-- The two loops of `__jingle_session_on_initiate` over the contents of a jingle object, on the
channels of the session and on `pending_channels`; `outer` are the attributes around the object. -/
def onInitiate (c : Config) (outer : List AttrList) (s : List Node × AttrList) (thiz : Node) :
    Except Fault (List Node × AttrList) := do
  let (channels, pending) ← run openPending s (thiz.children (lit "content"))
  let channels ← run (takeContent c (thiz.attrs.cells :: outer)) channels
    (thiz.children (lit "content"))
  .ok (channels, pending)

end Xwbot.Jingle.Negotiation
