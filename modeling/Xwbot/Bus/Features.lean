import Xwbot.AttrList
import Xwbot.AuthPlain
import Xwbot.Bus.Core

/-!
# The answer to the features of a stream

The features element holds one message, which it sends when it closes: the first that one of its
children sends down.  `starttls` sends its message when it is appended, and `mechanisms` appends
an object that sends the credentials when it closes, so it depends on the order of the children
which of them is answered.
-/

namespace Xwbot

/-- A message as it goes out. -/
structure Message where
  name : Text
  attrs : AttrList
  content : Text
  deriving DecidableEq, Repr

/-- What `x_object_getenv` finds for `username`, `pword` and `domain`. -/
structure Account where
  unam : Option Text
  pw : Option Text
  jiddomain : Option Text
  deriving DecidableEq, Repr

/-- The class of a child of the features. -/
inductive ChildClass where
  /-- `starttls_class`, which is also that of `proceed` and `failure`. -/
  | starttls
  /-- `sasl_class`: `mechanisms`, `success` and `failure`. -/
  | sasl
  /-- Any other class, with the messages that its callbacks send down. -/
  | other (onAppend commit : List Message)
  deriving DecidableEq, Repr

/-- A child element of the features, as its callbacks see it. -/
structure Child where
  name : Text
  /-- The attribute `xmlns`. -/
  xmlns : Option Text
  objclass : ChildClass
  /-- The bus has made an object for the element, and did not find one. -/
  appended : Bool
  /-- `content.cbuf` of the children named `mechanism`, in their order. -/
  mechanism : List (Option Text)
  deriving DecidableEq, Repr

namespace Features

/-- The namespace of STARTTLS. -/
def tlsNs : Text :=
  lit "urn:ietf:params:xml:ns:xmpp-tls"

/-- The namespace of SASL. -/
def saslNs : Text :=
  lit "urn:ietf:params:xml:ns:xmpp-sasl"

/-- The message of `tls_append`. -/
def starttlsMessage : Message :=
  ⟨lit "starttls", [(lit "xmlns", tlsNs)], []⟩

/-- `features_tx`. -/
def featuresTx (msgslot : Option Message) (msg : Message) : Option Message :=
  if msgslot.isNone then some msg else msgslot

/-- `features_exit`: what it sends, and the slot that it leaves. -/
def featuresExit (msgslot : Option Message) : List Message × Option Message :=
  match msgslot with
  | some msg => ([msg], none)
  | none => ([], none)

/-- `tls_append`: what it sends down. -/
def tlsAppend (me : Child) : List Message :=
  if eqText me.name (lit "starttls") then [starttlsMessage] else []

/-- `tls_exit`: the stream is reset. -/
def tlsExit (o : Child) : Except Fault Bool :=
  if eqText o.name (lit "proceed") then .ok true
  else if eqText o.name (lit "failure") then .ok false
  else if eqText o.name (lit "starttls") then .ok false
  else .error .bug

/-- On the bus the stream is reset behind the handshake. -/
theorem tlsExit_bus (env : Env) (m : Memory) (s : Parser.PushParser × Bus) (x : Addr) {o : Child}
    (name_eq : o.name = s.2.heap.name x) : env.tlsExit m s x = (do
      if ← tlsExit o then
        if s.2.heap.bus x ≠ some s.2.self then .error .segv
        else env.resetStream m (s.1, env.startTls s.2)
      else .ok s) := by
  unfold Env.tlsExit tlsExit
  rw [name_eq]
  dsimp only
  split
  · rfl
  · split
    · rfl
    · split
      · rfl
      · rfl

/-- The loop of `sasl_exit`: one of the mechanisms is `PLAIN`. -/
def findPlain : List (Option Text) → Except Fault Bool
  | [] => .ok false
  | none :: _ => .error .segv
  | some cbuf :: rest => if eqText cbuf (lit "PLAIN") then .ok true else findPlain rest

/-- The message of `auth_plain_on_append`. -/
def authMessage (hash : Text) : Message :=
  ⟨lit "auth", [(lit "xmlns", saslNs), (lit "mechanism", lit "PLAIN")], hash⟩

section Session

variable (heap : Nat → Byte) (account : Account)

/-- `auth_plain_on_append`: what it sends down. -/
def authPlainOnAppend : Except Fault Message :=
  match account.unam, account.pw, account.jiddomain with
  | some unam, some pw, some jiddomain => do
      let hash ← AuthPlain.xmppAuthGetPlainHash heap unam pw jiddomain
      .ok (authMessage hash)
  | _, _, _ => .error .segv

/-- `sasl_exit`: what the object it appends sends down, and whether the stream is reset. -/
def saslExit (o : Child) : Except Fault (List Message × Bool) :=
  match o.xmlns with
  | none => .ok ([], false)
  | some xmlns =>
      if !eqText xmlns saslNs then .ok ([], false)
      else if eqText o.name (lit "success") then .ok ([], true)
      else if eqText o.name (lit "failure") then .ok ([], true)
      else do
        if ← findPlain o.mechanism then
          let msg ← authPlainOnAppend heap account
          .ok ([msg], false)
        else .ok ([], false)

/-- What a child sends down when it is appended. -/
def onAppend (c : Child) : List Message :=
  match c.objclass with
  | .starttls => tlsAppend c
  | .sasl => []
  | .other onAppend _ => onAppend

/-- What a child sends down when it closes, and whether the stream is reset. -/
def commit (c : Child) : Except Fault (List Message × Bool) :=
  match c.objclass with
  | .starttls => (tlsExit c).map fun reset => ([], reset)
  | .sasl => saslExit heap account c
  | .other _ commit => .ok (commit, false)

/-- The children of the features, one after the other, up to a reset. -/
def children (msgslot : Option Message) : List Child → Except Fault (Option Message × Bool)
  | [] => .ok (msgslot, false)
  | c :: rest => do
      let msgslot := if c.appended then (onAppend c).foldl featuresTx msgslot else msgslot
      let (msgs, reset) ← commit heap account c
      let msgslot := msgs.foldl featuresTx msgslot
      if reset then .ok (msgslot, true) else children msgslot rest

/-- The features element: what is sent when it closes.  When a child has reset the stream, the
end tag does not close it any more. -/
def features (cs : List Child) : Except Fault (List Message) := do
  let (msgslot, reset) ← children heap account none cs
  if reset then .ok [] else .ok (featuresExit msgslot).1

end Session

/-! ## What the children are -/

/-- The element is `starttls`. -/
def IsStarttls (c : Child) : Prop :=
  c.objclass = .starttls ∧ eqText c.name (lit "starttls") = true

/-- An object of the SASL class that its commit takes for mechanisms. -/
def IsMechanisms (c : Child) : Prop :=
  c.objclass = .sasl ∧ (∃ xmlns, c.xmlns = some xmlns ∧ eqText xmlns saslNs = true) ∧
    eqText c.name (lit "success") = false ∧ eqText c.name (lit "failure") = false

/-- The text is `PLAIN`. -/
def isPlain (cbuf : Option Text) : Bool :=
  cbuf.any fun cbuf => eqText cbuf (lit "PLAIN")

/-- The element lists `PLAIN`. -/
def ListsPlain (c : Child) : Prop :=
  IsMechanisms c ∧ ∃ cbuf ∈ c.mechanism, isPlain cbuf = true

/-- The element does not send anything. -/
def Silent (c : Child) : Prop :=
  ¬(IsStarttls c ∧ c.appended = true) ∧ ¬ListsPlain c ∧
    ∀ onAppend commit, c.objclass = .other onAppend commit → onAppend = [] ∧ commit = []

/-- The element closes and the stream goes on: in their namespaces it is none of `proceed`,
`success` and `failure`, and every mechanism in front of `PLAIN` has a text. -/
def Closes (c : Child) : Prop :=
  (c.objclass = .starttls → eqText c.name (lit "proceed") = false ∧
    (eqText c.name (lit "failure") = true ∨ eqText c.name (lit "starttls") = true)) ∧
  (c.objclass = .sasl → (∃ xmlns, c.xmlns = some xmlns ∧ eqText xmlns saslNs = true) →
    IsMechanisms c ∧ none ∉ c.mechanism.takeWhile fun cbuf => !isPlain cbuf)

/-- The parameters of the session are set, and the allocator rounds the length of the message that
is made of them up. -/
def Complete (account : Account) : Prop :=
  ∃ unam pw jiddomain, account = ⟨some unam, some pw, some jiddomain⟩ ∧
    AuthPlain.size unam pw jiddomain % strBufsiz ≠ 0

/-! ## One child -/

variable (heap : Nat → Byte) {account : Account} {c : Child} {cs before behind : List Child}
  {msg : Message} {msgslot : Option Message}

theorem findPlain_eq {l : List (Option Text)}
    (readable : none ∉ l.takeWhile fun cbuf => !isPlain cbuf) :
    findPlain l = .ok (l.any isPlain) := by
  induction l with
  | nil => rfl
  | cons cbuf rest ih =>
      cases cbuf with
      | none => simp [isPlain] at readable
      | some cbuf =>
          rw [findPlain, List.any_cons]
          cases plain : eqText cbuf (lit "PLAIN") with
          | true => simp [isPlain, plain]
          | false =>
              rw [if_neg Bool.false_ne_true, ih]
              · simp [isPlain, plain]
              · simpa [isPlain, plain] using readable

/-- The message of a session whose parameters are complete. -/
theorem authPlainOnAppend_eq (complete : Complete account) :
    ∃ hash, authPlainOnAppend heap account = .ok (authMessage hash) := by
  rcases complete with ⟨unam, pw, jiddomain, rfl, rounded⟩
  have hashed := @AuthPlain.xmppAuthGetPlainHash_eq heap unam pw jiddomain
  rw [if_pos rounded] at hashed
  refine ⟨base64Encode (AuthPlain.message unam pw jiddomain), ?_⟩
  rw [authPlainOnAppend]
  dsimp only
  rw [hashed, ok_bind]

/-- **Spec of `sasl_exit`** for an element that lets the stream go on. -/
theorem saslExit_eq (complete : Complete account) (closes : Closes c) (sasl : c.objclass = .sasl) :
    ∃ msgs, saslExit heap account c = .ok (msgs, false) ∧ (¬ListsPlain c → msgs = []) ∧
      (ListsPlain c → ∃ msg, authPlainOnAppend heap account = .ok msg ∧ msgs = [msg]) := by
  rcases authPlainOnAppend_eq heap complete with ⟨hash, auth⟩
  unfold saslExit
  by_cases other : ∃ xmlns, c.xmlns = some xmlns ∧ eqText xmlns saslNs = true
  · rcases closes.2 sasl other with ⟨mechanisms, readable⟩
    rcases other with ⟨xmlns, xmlns_eq, same⟩
    have lists : ListsPlain c ↔ c.mechanism.any isPlain = true := by
      rw [List.any_eq_true]
      exact and_iff_right mechanisms
    rw [xmlns_eq]
    simp only [same, mechanisms.2.2.1, mechanisms.2.2.2, findPlain_eq readable, auth, ok_bind,
      Bool.not_true, Bool.false_eq_true, if_false, lists]
    cases c.mechanism.any isPlain with
    | true => exact ⟨_, rfl, fun absent => absurd rfl absent, fun _ => ⟨_, rfl, rfl⟩⟩
    | false => exact ⟨[], rfl, fun _ => rfl, fun impossible => by cases impossible⟩
  · have silent : ¬ListsPlain c := fun lists => other lists.1.2.1
    refine ⟨[], ?_, fun _ => rfl, fun lists => absurd lists silent⟩
    cases xmlns_eq : c.xmlns with
    | none => rfl
    | some xmlns =>
        have different : eqText xmlns saslNs = false := by
          rw [← Bool.not_eq_true]
          exact fun same => other ⟨xmlns, xmlns_eq, same⟩
        simp [different]

/-- What a child sends when it closes. -/
theorem commit_eq (complete : Complete account) (closes : Closes c) :
    ∃ msgs, commit heap account c = .ok (msgs, false) ∧ (Silent c → msgs = []) ∧
      (ListsPlain c → ∃ msg, authPlainOnAppend heap account = .ok msg ∧ msgs = [msg]) := by
  unfold commit
  cases class_eq : c.objclass with
  | starttls =>
      have unlisted : ¬ListsPlain c := fun lists => by
        rw [lists.1.1] at class_eq
        cases class_eq
      refine ⟨[], ?_, fun _ => rfl, fun lists => absurd lists unlisted⟩
      rcases closes.1 class_eq with ⟨notProceed, failure | starttls⟩
      · simp [tlsExit, notProceed, failure, Except.map]
      · cases failure : eqText c.name (lit "failure") <;>
          simp [tlsExit, notProceed, starttls, failure, Except.map]
  | sasl =>
      rcases saslExit_eq heap complete closes class_eq with ⟨msgs, result, nothing, plain⟩
      exact ⟨msgs, result, fun silent => nothing silent.2.1, plain⟩
  | other onAppend commit =>
      refine ⟨commit, rfl, fun silent => (silent.2.2 onAppend commit class_eq).2, fun lists => ?_⟩
      rw [lists.1.1] at class_eq
      cases class_eq

/-- A message in the slot stays there. -/
theorem foldl_featuresTx_some (msgs : List Message) :
    msgs.foldl featuresTx (some msg) = some msg := by
  induction msgs with
  | nil => rfl
  | cons msg' rest ih => exact ih

theorem isSome_foldl_featuresTx (msgs : List Message) (slot : msgslot.isSome = true) :
    msgs.foldl featuresTx msgslot = msgslot := by
  rcases Option.isSome_iff_exists.mp slot with ⟨msg, rfl⟩
  exact foldl_featuresTx_some msgs

/-- **All children.**  The slot keeps what it has, and is filled when `PLAIN` is listed. -/
theorem children_eq (complete : Complete account)
    (closes : ∀ c ∈ cs, Closes c) (msgslot : Option Message) :
    ∃ left, children heap account msgslot cs = .ok (left, false) ∧
      (msgslot.isSome = true → left = msgslot) ∧
      ((∃ c ∈ cs, ListsPlain c) → left.isSome = true) := by
  induction cs generalizing msgslot with
  | nil => exact ⟨msgslot, rfl, fun _ => rfl, by simp⟩
  | cons c rest ih =>
      rw [List.forall_mem_cons] at closes
      rcases commit_eq heap complete closes.1 with ⟨msgs, committed, -, plain⟩
      rw [children]
      simp only [committed, ok_bind, Bool.false_eq_true, if_false]
      generalize before_eq : (if c.appended = true then (onAppend c).foldl featuresTx msgslot
        else msgslot) = before
      rcases ih closes.2 (msgs.foldl featuresTx before) with ⟨left, result, kept, filled⟩
      refine ⟨left, result, fun slot => ?_, ?_⟩
      · have before_slot : before = msgslot := by
          rw [← before_eq]
          split
          · exact isSome_foldl_featuresTx _ slot
          · rfl
        rw [before_slot, isSome_foldl_featuresTx msgs slot] at kept
        exact kept slot
      · rintro ⟨c', member, lists⟩
        rcases List.mem_cons.mp member with rfl | member
        · rcases plain lists with ⟨msg, -, rfl⟩
          have sent : (List.foldl featuresTx before [msg]).isSome = true := by
            cases before <;> rfl
          rw [kept sent]
          exact sent
        · exact filled ⟨c', member, lists⟩

/-- A user with a password of one byte. -/
def user : Account :=
  ⟨some (lit "u"), some (lit "p"), some (lit "d")⟩

end Features

end Xwbot
