import Xwbot.Bus.Classes
import Xwbot.Parser.Core
import Xwbot.Runs

/-!
# The bus

`x_bus.c` reads the server's bytes into a tree of objects.  The focus `r_obj` is
the object of the innermost open element; the parser's callbacks move it.
-/

namespace Xwbot

open Links Xwbot.Parser

/-- The buffer of an `x_string` that started without one, after the bytes were put. -/
def cbuf (t : Text) : Option Text :=
  if t = [] then none else some t

/-- The buffers that `__x_bus_objopen` and `__x_bus_objclose` copy a name into. -/
structure QName where
  hasNs : Bool
  ns : Text
  sname : Text

namespace QName

/-- The two copying loops: up to the first colon, and behind it. -/
def split (name : Text) : QName where
  hasNs := ch ':' ∈ name
  ns := name.takeWhile (· ≠ ch ':')
  sname := (name.dropWhile (· ≠ ch ':')).tail

/-- The name without its prefix; NULL when nothing is left of it. -/
def name (q : QName) : Option Text :=
  cbuf (if q.hasNs then q.sname else q.ns)

end QName

/-- The test for a key that begins with `xmlns:` in `__x_bus_fill_nsmap`. -/
def isNsDecl (key : Text) : Bool :=
  (key.take 6).map toLower = lit "xmlns:"

/-- What stands behind the first colon of a key. -/
def declaredPrefix (key : Text) : Text :=
  (key.dropWhile (· ≠ ch ':')).tail

/-- One turn of the loop of `__x_bus_fill_nsmap`: the map, and the value `ptr2`. -/
def fillNsmapStep (nsToReplace : Option Text) (acc : HashTable × Option Text)
    (p : Text × Text) : HashTable × Option Text :=
  if isNsDecl p.1 then
    let ptr := declaredPrefix p.1
    (acc.1.htSet ptr p.2, if nsToReplace.any (eqText ptr) then some p.2 else acc.2)
  else
    acc

/-- `__x_bus_fill_nsmap`.  The key that is deleted at the end is cut to its buffer. -/
def fillNsmap (nsmap : HashTable) (attrs : AttrList) (nsToReplace : Option Text) :
    HashTable × AttrList :=
  let (nsmap, ptr2) := attrs.foldl (fillNsmapStep nsToReplace) (nsmap, none)
  match nsToReplace, ptr2 with
  | some ns, some ptr2 =>
      (nsmap, setattr ((lit "xmlns:" ++ ns).take 54) none (setattr xmlns (some ptr2) attrs))
  | _, _ => (nsmap, attrs)

/-- What a bus works with: the registered classes, the listeners of the application, the
TLS library, and the commit of the bus itself, which connects anew. -/
structure Env where
  classes : Nat → ObjectClass
  /-- `x_obj_get_class`: the class registered for a name, a namespace and attributes. -/
  getClass : Text → Text → AttrList → Option Nat
  /-- `x_path_listeners_notify`. -/
  pathListeners : Hook Unit
  /-- The answers to the calls of `xmpp_start_tls`, in their order. -/
  ssl : Nat → Handshake
  /-- `__x_bus_finalize`. -/
  finalize : PushParser × Bus → Except Fault (PushParser × Bus)

/-- The number of handshakes so far. -/
def handshakes : List Io → Nat
  | [] => 0
  | .handshake _ :: rest => handshakes rest + 1
  | .sent _ _ :: rest => handshakes rest

namespace Env

variable (env : Env) (m : Memory)

/-- The class of an object. -/
def classOf (h : Heap) (x : Addr) : ObjectClass :=
  match h.objclass x with
  | none => protoclass
  | some i => env.classes i

/-- `x_object_match`. -/
def objectMatch (h : Heap) (o : Addr) (attrs : AttrList) : Except Fault Bool :=
  (env.classOf h o).match_ h o attrs

/-- The loop of `x_object_find` ends at an object unless its callback answers FALSE. -/
def stopsFind (h : Heap) (attrs : AttrList) (o : Addr) : Bool :=
  match env.objectMatch h o attrs with
  | .ok false => false
  | _ => true

/-- `x_object_find`. -/
def objectFind (h : Heap) (starto : Option Addr) (hints : AttrList) :
    Except Fault (Option Addr) := do
  let (_, found) ← h.follow h.next (env.stopsFind h hints) starto
  match found with
  | none => .ok none
  | some o => do
      let _ ← env.objectMatch h o hints
      .ok (some o)

/-- `x_object_new_ns_match` with a prototype for what is not registered. -/
def newNsMatch (b : Bus) (pName ns : Text) (hints : AttrList) : Except Fault (Bus × Addr) :=
  if lowcaseBuf ≤ ns.length ∨ lowcaseBuf ≤ (objectName pName).length then .error .overflow
  else do
    let (h, xobj) ← b.heap.newObject pName (env.getClass (objectName pName) ns hints)
    .ok ((env.classOf h xobj).onCreate.run () { b with heap := h } xobj, xobj)

/-- The buffers of the class lookup have room for a name and a namespace, and the block of the
new object's name for the name. -/
structure Creatable (pName ns : Text) : Prop where
  ns_lt : ns.length < lowcaseBuf
  name_lt : (objectName pName).length < lowcaseBuf
  fits : NameFits (objectName pName)

instance decidableCreatable (pName ns : Text) : Decidable (Creatable pName ns) :=
  decidable_of_iff
    (ns.length < lowcaseBuf ∧ (objectName pName).length < lowcaseBuf ∧ NameFits (objectName pName))
    ⟨fun ⟨ns_lt, name_lt, fits⟩ => ⟨ns_lt, name_lt, fits⟩,
      fun creatable => ⟨creatable.ns_lt, creatable.name_lt, creatable.fits⟩⟩

/-- A new object, on which the callback of its class has been called. -/
def created (b : Bus) (pName ns : Text) (hints : AttrList) : Bus × Addr :=
  let new := b.heap.alloc (objectName pName) (env.getClass (objectName pName) ns hints)
  ((env.classOf new.1 new.2).onCreate.run () { b with heap := new.1 } new.2, new.2)

/-- **Spec of `x_object_new_ns_match`.** -/
theorem newNsMatch_eq_ok_iff {b : Bus} {pName ns : Text} {hints : AttrList}
    {result : Bus × Addr} :
    env.newNsMatch b pName ns hints = .ok result ↔
      Creatable pName ns ∧ result = env.created b pName ns hints := by
  unfold newNsMatch
  split
  · next long =>
      constructor
      · intro impossible
        cases impossible
      · rintro ⟨creatable, -⟩
        rcases long with long | long
        · exact absurd creatable.ns_lt (not_lt.mpr long)
        · exact absurd creatable.name_lt (not_lt.mpr long)
  · next short =>
      rw [not_or, not_le, not_le] at short
      rw [Heap.newObject_eq]
      split
      · next fits =>
          have creatable : Creatable pName ns := ⟨short.1, short.2, fits⟩
          rw [ok_bind, Except.ok.injEq]
          exact ⟨fun same => ⟨creatable, same.symm⟩, fun same => same.2.symm⟩
      · next tight =>
          constructor
          · intro impossible
            cases impossible
          · rintro ⟨creatable, -⟩
            exact absurd creatable.fits tight

/-- `x_object_append_child`.  The message about it is made and dropped. -/
def appendChild (b : Bus) (parent child : Addr) : Except Fault Bus := do
  let h ← b.heap.appendChildNoCb parent child
  let b := { b with heap := h }
  let b := (env.classOf b.heap parent).onChildAppend.run () b child
  let b := (env.classOf b.heap child).onAppend.run () b child
  let b := env.pathListeners.run () b child
  b.heap.getIndex child
  let h ← b.heap.notify
  .ok { b with heap := h }

/-- `x_object_assign`. -/
def assign (b : Bus) (o : Addr) (attrs : AttrList) : Bus :=
  (env.classOf b.heap o).onAssign.run attrs b o

/-! ## The stream -/

/-- `x_bus_reset_stream`. -/
def resetStream (s : PushParser × Bus) : Except Fault (PushParser × Bus) := do
  let p := s.1.reset m
  let b := { s.2 with rObj := some s.2.self }
  let old ← b.heap.getChild (some b.self) (some (lit "stream"))
  let h ← b.heap.refPut old
  -- append stream object
  let (b, streamo) ← env.newNsMatch { b with heap := h } (lit "stream")
    (lit "http://etherx.jabber.org/streams") []
  let h := b.heap.setattr streamo (lit "remote") (getattr (lit "domain") (b.heap.attrs b.self))
  let h := h.setattr streamo (lit "local") (getattr (lit "jid") (h.attrs b.self))
  let b ← env.appendChild { b with heap := h } b.self streamo
  .ok (p, b)

/-- The call of `xmpp_start_tls` in `tls_exit`, and the transport that is then in place. -/
def startTls (b : Bus) : Bus :=
  let t := xmppStartTls (env.ssl (handshakes b.log))
  let b := { b with log := .handshake t.isSome :: b.log }
  match t with
  | some t => b.setTransport t
  | none => b

/-- `tls_exit`.  The stream is reset whether or not there is a new transport. -/
def tlsExit (s : PushParser × Bus) (o : Addr) : Except Fault (PushParser × Bus) :=
  let oname := s.2.heap.name o
  if eqText oname (lit "proceed") then
    if s.2.heap.bus o ≠ some s.2.self then .error .segv
    else env.resetStream m (s.1, env.startTls s.2)
  else if eqText oname (lit "failure") then .ok s
  else if eqText oname (lit "starttls") then .ok s
  else .error .bug

/-- `x_object_lost_focus`. -/
def lostFocus (s : PushParser × Bus) (o : Addr) : Except Fault (PushParser × Bus) :=
  if o = s.2.self then env.finalize s
  else
    match (env.classOf s.2.heap o).commit with
    | .tlsExit => env.tlsExit m s o
    | .call run _ =>
        if (run s.2 o).2 then env.resetStream m (s.1, (run s.2 o).1) else .ok (s.1, (run s.2 o).1)

end Env

/-! ## The parser's callbacks -/

/-- `__x_bus_putchar`. -/
def busPutchar (m : Memory) (c : Byte) (s : PushParser × Bus) :
    Except Fault (PushParser × Bus) := do
  let o_ ← s.2.heap.deref s.2.rObj
  .ok (s.1, { s.2 with heap := s.2.heap.setContent o_ ((s.2.heap.content o_).putc m c) })

/-- The namespace `_ns` of an element, before it is cut: the one declared for its prefix,
or the nearest default. -/
def Bus.namespaceOf (b : Bus) (q : QName) (attrs : AttrList) : Except Fault (Option Text) :=
  if q.hasNs then
    match cbuf q.ns with
    | none => .error .segv
    | some ns => .ok (b.nsmap.htGet ns)
  else
    match getattr xmlns attrs with
    | some ns => .ok (some ns)
    | none => b.heap.getenv b.rObj xmlns

/-- The cut of a namespace at `#`, which looks at its bytes. -/
def cutNamespace : Option Text → Except Fault Text
  | none => .error .segv
  | some ns => .ok (ns.takeWhile (· ≠ ch '#'))

/-- The bus after `__x_bus_fill_nsmap`, and the attributes it leaves. -/
def Bus.declare (b : Bus) (q : QName) (attrs : AttrList) : Bus × AttrList :=
  let (nsmap, attrs) := fillNsmap b.nsmap attrs (if q.hasNs then cbuf q.ns else none)
  ({ b with nsmap := nsmap }, attrs)

namespace Env

variable (env : Env) (m : Memory)

/-- The label `objopen_end` of `__x_bus_objopen`: the focus moves to the object, which
gets the attributes. -/
def enter (b : Bus) (o_ : Addr) (attrs : AttrList) : Bus :=
  env.assign { b with rObj := some o_ } o_ attrs

/-- The part of `__x_bus_objopen` that makes a new object. -/
def instantiate (b : Bus) (name : Option Text) (ns : Text) (attrs : AttrList) :
    Except Fault Bus :=
  match name with
  | none => .ok b
  | some name => do
      let (b, o_) ← env.newNsMatch b name ns attrs
      match b.rObj with
      | none => .ok b
      | some r => do
          let b ← env.appendChild b r o_
          .ok (env.enter b o_ attrs)

/-- The part of `__x_bus_objopen` behind the search for declarations. -/
def openElement (b : Bus) (q : QName) (attrs : AttrList) : Except Fault Bus := do
  let ns ← b.namespaceOf q attrs
  let ns ← cutNamespace ns
  let start ← b.heap.getChild b.rObj q.name
  let found ← env.objectFind b.heap start attrs
  match found with
  | some o_ => .ok (env.enter b o_ attrs)
  | none => env.instantiate b q.name ns attrs

/-- `__x_bus_objopen`. -/
def objopen (name : Option Text) (s : PushParser × Bus) : Except Fault (PushParser × Bus) :=
  match name with
  | none => .error .segv
  | some name => do
      let q := QName.split name
      let declared := s.2.declare q s.1.attrs
      let b ← env.openElement declared.1 q declared.2
      .ok ({ s.1 with attrs := declared.2 }, b)

/-- The part of `__x_bus_objclose` behind the copying loops.  The namespace is looked up,
as for an element without attributes, and not used. -/
def closeElement (q : QName) (s : PushParser × Bus) : Except Fault (PushParser × Bus) := do
  let _ ← s.2.namespaceOf q []
  match q.name with
  | none => .error .segv
  | some name => do
      let o_ ← s.2.heap.deref s.2.rObj
      if eqText name (s.2.heap.name o_) then
        env.lostFocus m (s.1, { s.2 with rObj := s.2.heap.parent o_ }) o_
      else
        .ok s

/-- `__x_bus_objclose`. -/
def objclose (name : Option Text) (s : PushParser × Bus) : Except Fault (PushParser × Bus) :=
  match name with
  | none => .error .segv
  | some name => env.closeElement m (QName.split name) s

/-- The callbacks that the bus gives its parser. -/
def callbacks : Callbacks Bus where
  xobjopen := env.objopen
  xputchar := busPutchar m
  xobjclose := env.objclose m

/-- The call `bus->p->r_putc(bus->p, c)` for one byte from the server. -/
def step (s : PushParser × Bus) (c : Byte) : Except Fault (PushParser × Bus) :=
  putChar (env.callbacks m) m s c

/-- One turn of the loop of `__x_bus_on_signal_data`: the bytes of a read, which went
through the transport in place, are given to the parser. -/
def onRead (s : PushParser × Bus) (buf : List Byte) : Except Fault (PushParser × Bus) :=
  Runs.run (env.step m) s buf

end Env

/-- Feeding the parser of a bus is taking its steps. -/
theorem feed_callbacks (env : Env) (m : Memory) (s : PushParser × Bus) (bs : List Byte) :
    feed (env.callbacks m) m s bs = Runs.run (env.step m) s bs := by
  induction bs generalizing s with
  | nil => rfl
  | cons c rest ih =>
      rw [feed_cons, Runs.run_cons]
      congr 1
      funext s'
      exact ih s'

/-! ## Closing an element -/

/-- The object that `__x_bus_objclose` takes the focus from, if the name fits. -/
def Bus.closing (b : Bus) (name : Option Text) : Option Addr := do
  let name ← name
  let name ← (QName.split name).name
  let o ← b.rObj
  if eqText name (b.heap.name o) then some o else none

/-- The object that a byte closes. -/
def closesAt (m : Memory) (s : PushParser × Bus) (c : Byte) : Option Addr :=
  match dispatch m s.1 c with
  | .ok o => if o.call = .xobjclose then s.2.closing (o.parser.r0.cstr m) else none
  | .error _ => none

/-! ## A new bus -/

/-- The lookup of `xmppstream_init` and `stream_features_init`, which register three
classes under five names. -/
def coreClass (name ns : Text) : Option Nat :=
  if eqText ns (lit "http://etherx.jabber.org/streams") then
    if eqText name (lit "stream") then some 0
    else if eqText name (lit "features") then some 2
    else none
  else if eqText ns (lit "urn:ietf:params:xml:ns:xmpp-tls") then
    if eqText name (lit "starttls") || eqText name (lit "proceed") || eqText name (lit "failure")
    then some 1
    else none
  else none

/-- A program with these classes only, in which nothing is sent down. -/
def coreEnv (ssl : Nat → Handshake) : Env where
  classes i :=
    match i with
    | 0 => streamClass
    | 1 => starttlsClass (.absent Unit)
    | 2 => featuresClass protoclass.commit
    | _ => protoclass
  getClass name ns _ := coreClass name ns
  pathListeners := .absent Unit
  ssl := ssl
  finalize _ := .error .hang

/-- A connected bus with no objects but itself. -/
def newBus : Bus where
  heap := (Heap.empty.alloc (lit "example.org") none).1.setBus 0 (some 0)
  self := 0
  rObj := some 0
  nsmap := .empty
  transport := .plain
  log := []

theorem linked_newBus : newBus.heap.Linked := by
  have nothing : Heap.empty.Linked := by
    constructor
    case rep => exact ⟨fun _ => [], by constructor <;> intro p alive <;> cases alive⟩
    case allocated =>
      intro x alive
      cases alive
  rcases nothing.alloc (lit "example.org") none with ⟨⟨kids, rep⟩, allocated⟩
  exact ⟨⟨kids, rep.path, rep.mem, rep.count, rep.loose⟩, allocated⟩

/-- The state of its parser and of the bus after the stream is reset for the first time. -/
def Env.started (env : Env) : Except Fault (PushParser × Bus) :=
  env.resetStream (.filled 0) (PushParser.init (.filled 0), newBus)

end Xwbot
