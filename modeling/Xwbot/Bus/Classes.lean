import Xwbot.HashTable
import Xwbot.Object.Linked

/-!
# Object classes

An object's class is a record of callbacks, which the plugins register.  The
bus calls them while an element is opened and closed.  `Frame` says what a
callback leaves alone: the registers of the bus, and the objects that enclose
the focus.  Every class carries the proofs that its callbacks keep to it.
-/

namespace Xwbot

open Links

/-- The transports of a bus: the socket, and the one that `xmpp_start_tls` returns. -/
inductive Transport where
  | plain
  | tls
  deriving DecidableEq, Repr

/-- What happens on the connection. -/
inductive Io where
  /-- A call of `x_bus_write`, which uses the transport in place. -/
  | sent (t : Transport) (buf : Text)
  /-- A call of `xmpp_start_tls`, and whether it returned a transport. -/
  | handshake (established : Bool)
  deriving DecidableEq, Repr

/-- `struct x_bus`.  The log holds what has happened on the connection, newest first. -/
structure Bus where
  heap : Heap
  /-- The bus as an object. -/
  self : Addr
  /-- The focus `regs.r_obj`. -/
  rObj : Option Addr
  nsmap : HashTable
  transport : Transport
  log : List Io

/-- `x_object_setattr`. -/
def Heap.setattr (h : Heap) (x : Addr) (k : Text) (v : Option Text) : Heap :=
  h.setAttrs x (Xwbot.setattr k v (h.attrs x))

/-- The key of the default namespace. -/
def xmlns : Text := lit "xmlns"

/-- The default namespace that an object declares. -/
def Heap.xmlnsOf (h : Heap) (x : Addr) : Option Text :=
  getattr xmlns (h.attrs x)

namespace Bus

/-- `x_bus_write`. -/
def write (b : Bus) (buf : Text) : Bus :=
  { b with log := .sent b.transport buf :: b.log }

/-- `x_bus_set_transport`. -/
def setTransport (b : Bus) (t : Transport) : Bus :=
  { b with transport := t }

end Bus

/-! ## What a callback leaves alone -/

/-- `y` is `x` or one of the objects around it. -/
def Heap.Encloses (h : Heap) : Addr → Addr → Prop :=
  Relation.ReflTransGen fun x y => h.parent x = some y

/-- The objects that stay in their places during a callback for `own`: the bus, the
object itself, and what encloses it or the focus. -/
def Bus.Stays (b : Bus) (own : Option Addr) (y : Addr) : Prop :=
  y = b.self ∨ ∃ x, (b.rObj = some x ∨ own = some x) ∧ b.heap.Encloses x y

/-- The object is in the same place. -/
structure SamePlace (h h' : Heap) (y : Addr) : Prop where
  live : h'.live y = h.live y
  parent : h'.parent y = h.parent y
  name : h'.name y = h.name y
  bus : h'.bus y = h.bus y
  objclass : h'.objclass y = h.objclass y

/-- What a callback does not do: it does not move the focus or change the transport, it
writes to the connection by `x_bus_write` only, it leaves the tree in order, and it does
not touch the enclosing objects or their namespaces. -/
structure Frame (own : Option Addr) (b b' : Bus) : Prop where
  self : b'.self = b.self
  rObj : b'.rObj = b.rObj
  nsmap : b'.nsmap = b.nsmap
  transport : b'.transport = b.transport
  log : ∃ new, b'.log = new ++ b.log ∧ ∀ e ∈ new, ∃ buf, e = .sent b.transport buf
  linked : b.heap.Linked → b'.heap.Linked
  chained : b.heap.Linked → b.heap.Chained → b'.heap.Chained
  stays : ∀ y, b.Stays own y → b.heap.live y = true → SamePlace b.heap b'.heap y
  xmlns : ∀ y, b.Stays own y → b.heap.live y = true → own ≠ some y →
    b'.heap.xmlnsOf y = b.heap.xmlnsOf y

theorem SamePlace.refl (h : Heap) (y : Addr) : SamePlace h h y :=
  ⟨rfl, rfl, rfl, rfl, rfl⟩

theorem Frame.refl (own : Option Addr) (b : Bus) : Frame own b b where
  self := rfl
  rObj := rfl
  nsmap := rfl
  transport := rfl
  log := ⟨[], rfl, by simp⟩
  linked := id
  chained _ := id
  stays y _ _ := .refl b.heap y
  xmlns _ _ _ _ := rfl

/-- Attributes of the own object may change. -/
theorem Frame.setAttrs (b : Bus) (o : Addr) (l : AttrList) :
    Frame (some o) b { b with heap := b.heap.setAttrs o l } where
  self := rfl
  rObj := rfl
  nsmap := rfl
  transport := rfl
  log := ⟨[], rfl, by simp⟩
  linked linked := linked.setAttrs l
  chained _ chained := chained.setAttrs l
  stays _ _ _ := ⟨rfl, rfl, rfl, rfl, rfl⟩
  xmlns y _ _ other := by
    have different : y ≠ o := fun same => other (by rw [same])
    rw [Heap.xmlnsOf, Heap.xmlnsOf, Heap.setAttrs_attrs, Function.update_of_ne different]

/-- Something may be written after the rest is done. -/
theorem Frame.write {own : Option Addr} {b b' : Bus} (frame : Frame own b b') (buf : Text) :
    Frame own b (b'.write buf) where
  self := frame.self
  rObj := frame.rObj
  nsmap := frame.nsmap
  transport := frame.transport
  log := by
    obtain ⟨new, log_eq, sent⟩ := frame.log
    refine ⟨.sent b.transport buf :: new, ?_, ?_⟩
    · rw [Bus.write, frame.transport, log_eq]
      rfl
    · rintro e (_ | ⟨_, member⟩)
      · exact ⟨buf, rfl⟩
      · exact sent e member
  linked := frame.linked
  chained := frame.chained
  stays := frame.stays
  xmlns := frame.xmlns

/-! ## Callbacks -/

/-- A callback of an object with an argument of type `ι`. -/
structure Hook (ι : Type) where
  run : ι → Bus → Addr → Bus
  /-- What becomes of the object's own default namespace. -/
  xmlns : ι → Option Text → Option Text
  frame : ∀ i b o, b.heap.live o = true → Frame (some o) b (run i b o)
  xmlns_eq : ∀ i b o, b.heap.live o = true →
    (run i b o).heap.xmlnsOf o = xmlns i (b.heap.xmlnsOf o)

namespace Hook

/-- A callback that is not set. -/
def absent (ι : Type) : Hook ι where
  run _ b _ := b
  xmlns _ v := v
  frame _ b o _ := .refl (some o) b
  xmlns_eq _ _ _ _ := rfl

/-- `x_object_default_assign_cb`. -/
def defaultAssign : Hook AttrList where
  run attrs b o := { b with heap := b.heap.setAttrs o (assigned attrs (b.heap.attrs o)) }
  xmlns attrs v := (getattr Xwbot.xmlns attrs.reverse).or v
  frame attrs b o _ := .setAttrs b o _
  xmlns_eq attrs b o _ := by
    rw [Heap.xmlnsOf, Heap.setAttrs_attrs, Function.update_self, getattr_assigned]
    rfl

end Hook

/-- The callback for the end of an element.  `tls_exit` is the only one that changes the
transport; of the others the result says whether their last act is a call of
`x_bus_reset_stream`.  The object itself may be gone afterwards. -/
inductive Commit where
  | call (run : Bus → Addr → Bus × Bool)
      (frame : ∀ b o, b.heap.live o = true → Frame none b (run b o).1)
  | tlsExit

/-- `struct xobjectclass`, as far as the bus uses it. -/
structure ObjectClass where
  /-- The callback `match`, which compares an object with attributes. -/
  match_ : Heap → Addr → AttrList → Except Fault Bool
  onCreate : Hook Unit
  /-- The callback of the parent; its argument is the new child. -/
  onChildAppend : Hook Unit
  onAppend : Hook Unit
  onAssign : Hook AttrList
  commit : Commit

/-- `__protoclass`, and every callback that a class leaves out. -/
def protoclass : ObjectClass where
  match_ _ _ _ := .ok false
  onCreate := .absent Unit
  onChildAppend := .absent Unit
  onAppend := .absent Unit
  onAssign := .defaultAssign
  commit := .call (fun b _ => (b, false)) fun b _ _ => .refl none b

/-! ## The stream -/

/-- `stream_match`. -/
def streamMatch (h : Heap) (o : Addr) (hints : AttrList) : Except Fault Bool :=
  match getattr (lit "from") hints with
  | none => .ok false
  | some a2 =>
      match getattr (lit "remote") (h.attrs o) with
      | none => .error .segv
      | some a1 => .ok (eqText a1 a2)

/-- The name under which `__stream_publish` writes an attribute. -/
def publishedKey (key : Text) : Text :=
  if (key.take 5).map toLower = lit "remot" then lit "to"
  else if (key.take 5).map toLower = lit "local" then lit "from"
  else key

/-- The text that `__stream_publish` writes. -/
def streamHeader (name : Text) (attrs : AttrList) : Text :=
  lit "<?xml version='1.0'?>" ++ lit "<" ++ name ++ lit ":" ++ name ++
    attrs.flatMap (fun a =>
      lit " " ++ publishedKey a.1 ++ [ch '='] ++ [apos] ++ a.2 ++ [apos]) ++ lit ">"

/-- The attributes that `stream_append` sets, in its order. -/
def streamAttrs : AttrList :=
  [(xmlns, lit "jabber:client"), (lit "xmlns:stream", lit "http://etherx.jabber.org/streams"),
    (lit "version", lit "1.0"), (lit "xml:lang", lit "en"),
    (lit "xmlns:xml", lit "http://www.w3.org/XML/1998/namespace")]

/-- `stream_append`.  The stream belongs to the bus: appending it has just set that. -/
def streamAppend : Hook Unit where
  run _ b so :=
    let h := b.heap.setAttrs so (assigned streamAttrs (b.heap.attrs so))
    { b with heap := h }.write (streamHeader (h.name so) (h.attrs so))
  xmlns _ _ := some (lit "jabber:client")
  frame _ b so _ := (Frame.setAttrs b so _).write _
  xmlns_eq _ b so _ := by
    change getattr xmlns (Function.update b.heap.attrs so _ so) = _
    rw [Function.update_self, getattr_assigned]
    rfl

/-- `stream_class`. -/
def streamClass : ObjectClass where
  match_ := streamMatch
  onCreate := .absent Unit
  onChildAppend := .absent Unit
  onAppend := streamAppend
  onAssign := .absent AttrList
  commit := .call (fun b _ => (b, false)) fun b _ _ => .refl none b

/-! ## The switch to TLS -/

/-- What OpenSSL answers during one call of `xmpp_start_tls`. -/
structure Handshake where
  /-- `SSL_set_fd` succeeds. -/
  setFd : Bool
  /-- The result of `SSL_connect`. -/
  connect : Int

/-- `xmpp_start_tls`. -/
def xmppStartTls (ssl : Handshake) : Option Transport :=
  if !ssl.setFd then none
  else if ssl.connect ≤ 0 then none
  else some .tls

/-- `tls_match`. -/
def tlsMatch (_h : Heap) (_o : Addr) (hints : AttrList) : Except Fault Bool :=
  match getattr xmlns hints with
  | none => .ok true
  | some a => .ok (eqText a (lit "urn:ietf:params:xml:ns:xmpp-tls"))

/-- `starttls_class`.  What `tls_append` sends down is left to the hook. -/
def starttlsClass (tlsAppend : Hook Unit) : ObjectClass where
  match_ := tlsMatch
  onCreate := .absent Unit
  onChildAppend := .absent Unit
  onAppend := tlsAppend
  onAssign := .defaultAssign
  commit := .tlsExit

/-! ## The features of a stream -/

/-- `features_class`.  Its commit sends on what a child has left with it. -/
def featuresClass (featuresExit : Commit) : ObjectClass where
  match_ _ _ _ := .ok true
  onCreate := .absent Unit
  onChildAppend := .absent Unit
  onAppend := .absent Unit
  onAssign := .absent AttrList
  commit := featuresExit

end Xwbot
