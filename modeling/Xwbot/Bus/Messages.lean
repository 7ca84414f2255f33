import Xwbot.Bus.Core
import Xwbot.Object.Node
import Xwbot.Session.Store
import Xwbot.StringRuns

/-!
# Messages

The objects below the stream stay when a stanza ends, and a later stanza of the same sender uses
its object again.  A message object opens a session with the sender when it gets its attributes for
the first time, and writes the text of its body to the channel `msg` of this session at its end.
Elements come with the namespace that the bus finds for them.
-/

namespace Xwbot.Messages

/-- The classes of `message.c`, and the prototype that stands for everything else here. -/
inductive PartClass where
  | message
  | body
  | proto
  deriving DecidableEq, Repr

/-- `x_obj_get_class` -/
def classOf (name ns : Text) : PartClass :=
  if eqText ns (lit "jabber:client") then
    if eqText name (lit "message") then .message
    else if eqText name (lit "body") then .body
    else .proto
  else .proto

/-- An object below the stream; `session` is the `iosession` of a message object. -/
structure Part where
  name : Text
  ns : Text
  attrs : AttrMap
  content : XString
  session : Option Nat
  sons : List Part

/-- `objclass` -/
def Part.cls (o : Part) : PartClass :=
  classOf o.name o.ns

/-- A new object. -/
def Part.new (name ns : Text) : Part :=
  ⟨objectName name, ns, .empty, .zero, none, []⟩

/-- Elements next to each other, each with the text that is directly in it. -/
inductive Elements where
  | nil
  | node (name ns : Text) (attrs : AttrMap) (text : List Byte) (sons siblings : Elements)

/-- A message stanza. -/
structure Stanza where
  attrs : AttrMap
  text : List Byte
  sons : Elements

/-- What is around the stream: the sessions, and what was written to their channels `msg` since
the stanza began. -/
structure World where
  store : Store
  /-- The address of the next session. -/
  top : Nat
  written : List (Nat × List Byte)

/-- What is below the stream and around it. -/
structure State where
  sons : List Part
  world : World

/-- What the program works with. -/
structure Env where
  m : Memory
  /-- `__ibshell_t_profile` is registered. -/
  transports : Bool
  random : Nat → Text

/-- Why a stanza is not read to its end. -/
inductive Stop where
  | fault (fault : Fault)
  /-- The end tag does not fit the object, which keeps the focus. -/
  | lostFocus
  deriving DecidableEq, Repr

/-! ## Opening -/

/-- `msg_match` -/
def msgMatch (o : Part) (attrs : AttrMap) : Bool :=
  match attrs.get (lit "from"), o.attrs.get (lit "from") with
  | some from1, some from2 => eqText from1 from2
  | _, _ => false

/-- `x_object_match` -/
def objectMatch (o : Part) (attrs : AttrMap) : Bool :=
  match o.cls with
  | .message => msgMatch o attrs
  | .body => true
  | .proto => false

/-- The place of the object that `x_object_get_child` gives. -/
def childIndex (parts : List Part) (cname : Text) : Option Nat :=
  parts.findIdx? fun x => eqnText x.name cname

/-- The test of `_FIND(x_object_get_child(r_obj, name), attrs)` for an object: it is chained to the
one that the lookup gives, and its class takes it. -/
def found (parts : List Part) (name : Text) (attrs : AttrMap) (o : Part) : Bool :=
  childIndex parts o.name = childIndex parts name && objectMatch o attrs

/-- The object that an element is opened on, between those in front of it and behind it.  What is
not found is made. -/
def openPart (name ns : Text) (attrs : AttrMap) (parts : List Part) :
    Except Stop (List Part × Part × List Part) :=
  match parts.dropWhile fun o => !found parts name attrs o with
  | o :: behind => .ok (parts.takeWhile fun o => !found parts name attrs o, o, behind)
  | [] =>
      if Xwbot.Env.Creatable name ns then .ok (parts, Part.new name ns, [])
      else .error (.fault .overflow)

/-- `msg_on_assign`.  The channel of a new session gets a transport if there is a class for it, and
is asked for one in any case. -/
def msgOnAssign (env : Env) (o : Part) (attrs : AttrMap) (w : World) : Except Stop (Part × World) :=
  let o := { o with attrs := o.attrs.assign attrs.cells }
  match o.session with
  | some _ => .ok (o, w)
  | none =>
      match o.attrs.get (lit "from") with
      | none => .error (.fault .bug)
      | some sender =>
          if w.store.Hosts sender then
            if env.transports then
              let opened := w.store.xSessionOpen sender none true (env.random w.top) w.top
              .ok ({ o with session := opened.2 }, { w with store := opened.1, top := w.top + 1 })
            else .error (.fault .segv)
          else .error (.fault .overflow)

/-- `x_object_assign` -/
def onAssign (env : Env) (o : Part) (attrs : AttrMap) (w : World) : Except Stop (Part × World) :=
  match o.cls with
  | .message => msgOnAssign env o attrs w
  | .body => .ok ({ o with attrs := o.attrs.assign attrs.cells }, w)
  | .proto => .ok ({ o with attrs := o.attrs.assign attrs.cells }, w)

/-! ## Closing -/

/-- `_CHLD(o, "body")` -/
def bodyOf (parts : List Part) : Option Part :=
  parts.find? fun x => eqnText x.name (lit "body")

/-- `x_string_rew` for the content of this object. -/
def rewBody : List Part → List Part
  | [] => []
  | x :: rest =>
      if eqnText x.name (lit "body") then { x with content := x.content.rew } :: rest
      else x :: rewBody rest

/-- `msg_exit` -/
def msgExit (o : Part) (w : World) : Part × World :=
  match bodyOf o.sons, o.session with
  | some body, some iosession =>
      if body.content.pos ≠ 0 then
        ({ o with sons := rewBody o.sons },
          { w with written := w.written ++ [(iosession, body.content.bytes)] })
      else (o, w)
  | _, _ => (o, w)

/-- `x_object_lost_focus` -/
def lostFocus (o : Part) (w : World) : Part × World :=
  match o.cls with
  | .message => msgExit o w
  | .body => (o, w)
  | .proto => (o, w)

/-! ## Stanzas -/

/-- The elements below an object, one after the other.  What comes behind an end tag that does not
fit goes to the wrong object and is left out. -/
def openElements (env : Env) :
    Elements → World → List Part → Except Stop (World × List Part)
  | .nil, w, parts => .ok (w, parts)
  | .node name ns attrs text sons siblings, w, parts => do
      let (before, o, behind) ← openPart name ns attrs parts
      let (o, w) ← onAssign env o attrs w
      let (w, inner) ← openElements env sons w o.sons
      if eqText name o.name then
        let closed := lostFocus { o with content := o.content.puts env.m text, sons := inner } w
        openElements env siblings closed.2 (before ++ closed.1 :: behind)
      else .error .lostFocus

/-- A stanza. -/
def step (env : Env) (s : State) (a : Stanza) : Except Stop State := do
  let (w, sons) ← openElements env
    (.node (lit "message") (lit "jabber:client") a.attrs a.text a.sons .nil)
    { s.world with written := [] } s.sons
  .ok ⟨sons, w⟩

/-! ## Delivery -/

/-- A body element. -/
def IsBody (name ns : Text) : Prop :=
  name = lit "body" ∧ ns = lit "jabber:client"

instance decidableIsBody (name ns : Text) : Decidable (IsBody name ns) :=
  inferInstanceAs (Decidable (_ ∧ _))

/-- The text of the body elements among some elements. -/
def bodyText : Elements → List Byte
  | .nil => []
  | .node name ns _ text _ siblings =>
      (if IsBody name ns then text else []) ++ bodyText siblings

/-- What is written for a stanza is the text of its body, once, and to the session with its sender;
nothing is written if there is none. -/
def Delivered (env : Env) (s : State) (a : Stanza) : Prop :=
  ∃ s', step env s a = .ok s' ∧
    if bodyText a.sons = [] then s'.world.written = []
    else ∃ sender xcs, a.attrs.get (lit "from") = some sender ∧ xcs ∈ s'.world.store.sessions ∧
      eqText xcs.remote sender = true ∧ s'.world.written = [(xcs.addr, bodyText a.sons)]

/-! ## The condition -/

/-- Where an element is: in the stanza, in a message object inside it, or elsewhere. -/
inductive Place where
  | stanza
  | message
  | other
  deriving DecidableEq, Repr

/-- The place of what is in an object. -/
def Place.inside (o : Part) : Place :=
  match o.cls with
  | .message => .message
  | .body => .other
  | .proto => .other

/-- An object behind some others is the one that `msg_exit` looks up. -/
def takesBody (before : List Part) (o : Part) : Bool :=
  eqnText o.name (lit "body") && before.all fun x => !eqnText x.name (lit "body")

/-- In a stanza the elements whose text is written are those of the body, and nowhere else is text
put where a message object would write it. -/
def Place.Allows (place : Place) (name ns : Text) (text : List Byte) (before : List Part)
    (o : Part) : Prop :=
  text ≠ [] → match place with
    | .stanza => IsBody name ns ↔ takesBody before o = true
    | .message => takesBody before o = false
    | .other => True

/-- An element is opened on an object that is there, or a new one can be made for it. -/
def Opens (name ns : Text) (attrs : AttrMap) (parts : List Part) : Prop :=
  (∃ o ∈ parts, found parts name attrs o = true) ∨ Xwbot.Env.Creatable name ns
deriving Decidable

/-- A message object that needs a session can open one. -/
def Ready (env : Env) (o : Part) (attrs : AttrMap) (w : World) : Prop :=
  o.cls = .message → o.session = none → env.transports = true ∧
    ∃ sender ∈ (o.attrs.assign attrs.cells).get (lit "from"), w.store.Hosts sender

/-- Each element has the name of the object that it is opened on, which is ready for it, and its
text is allowed where it is. -/
def Fits (env : Env) (place : Place) : Elements → World → List Part → Prop
  | .nil, _, _ => True
  | .node name ns attrs text sons siblings, w, parts =>
      Opens name ns attrs parts ∧ ∀ before o behind,
        openPart name ns attrs parts = .ok (before, o, behind) →
          place.Allows name ns text before o ∧ eqText name o.name = true ∧ Ready env o attrs w ∧
            ∀ o' w', onAssign env o attrs w = .ok (o', w') →
              Fits env (.inside o') sons w' o'.sons ∧
                ∀ w'' inner, openElements env sons w' o'.sons = .ok (w'', inner) →
                  let closed := lostFocus
                    { o' with content := o'.content.puts env.m text, sons := inner } w''
                  Fits env place siblings closed.2 (before ++ closed.1 :: behind)

/-- The stanza finds a session or can open one, and what is in it fits. -/
def Apart (env : Env) (s : State) (a : Stanza) : Prop :=
  ∀ before o behind,
    openPart (lit "message") (lit "jabber:client") a.attrs s.sons = .ok (before, o, behind) →
      Ready env o a.attrs { s.world with written := [] } ∧
        ∀ o' w', onAssign env o a.attrs { s.world with written := [] } = .ok (o', w') →
          Fits env .stanza a.sons w' o'.sons

end Xwbot.Messages
