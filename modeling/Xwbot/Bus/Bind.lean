import Xwbot.Bus.Core

/-!
# Resource binding

How far the binding is, is an attribute of the object that stands for the bind element.  The
features of a stream and an iq have different children, so the element that brings the JID gets a
new object, which asks for a resource once more.
-/

namespace Xwbot.Bind

open Runs

/-- The namespace of the elements. -/
def bindNs : Text :=
  lit "urn:ietf:params:xml:ns:xmpp-bind"

/-- A child of a bind object: its name, and `content.cbuf`. -/
structure Son where
  name : Text
  cbuf : Option Text
  deriving DecidableEq, Repr

/-- The object for a bind element. -/
structure BindObject where
  attrs : AttrList
  sons : List Son
  deriving DecidableEq, Repr

/-- An iq or the features below the stream, with the bind objects below it.  They have one name,
so their `next` links pass them in their order. -/
structure Holder where
  isIq : Bool
  attrs : AttrList
  binds : List BindObject
  deriving DecidableEq, Repr

/-- The bus and its stream. -/
structure State where
  busAttrs : AttrList
  streamAttrs : AttrList
  /-- The names of the children of the bus, with the stream among them. -/
  busNames : List Text
  streaming : ∃ name ∈ busNames, eqnText name (lit "stream:stream") = true
  holders : List Holder

/-- A bind element: the attribute `xmlns` of its own, and the names and texts of its children. -/
structure BindElement where
  xmlns : Option Text
  sons : List (Text × Text)
  deriving DecidableEq, Repr

/-- A stanza: the attributes of an iq, or none for the features, and a bind element if there is
one.  A stanza with several is as many of these. -/
structure Arrival where
  iq : Option AttrList
  bind : Option BindElement
  deriving DecidableEq, Repr

/-- What a bind object does to the stream and to the bus. -/
inductive Output where
  /-- The iq `bind_1`, with the wanted resource. -/
  | bindRequest (resource : Text)
  /-- The attribute `jid` of the bus is set. -/
  | setJid (jid : Text)
  /-- The iq `bind_2`. -/
  | sessionRequest
  /-- The presence object is appended to the stream. -/
  | presence
  deriving DecidableEq, Repr

/-! ## Opening -/

/-- `iq_match` -/
def iqMatch (o : Holder) (attrs : AttrList) : Bool :=
  match getattr (lit "from") attrs, getattr (lit "from") o.attrs with
  | none, none => true
  | some from1, some from2 => eqText from1 from2
  | _, _ => false

/-- The object is one that `__x_bus_objopen` uses again.  `features_match` takes everything. -/
def holderFor (iq : Option AttrList) (o : Holder) : Bool :=
  match iq with
  | none => !o.isIq
  | some attrs => o.isIq && iqMatch o attrs

/-- `iq_on_assign`; `features_assign` does not keep the attributes. -/
def assignHolder (iq : Option AttrList) (o : Holder) : Holder :=
  match iq with
  | none => o
  | some attrs => { o with attrs := assigned attrs o.attrs }

/-- `__x_bus_objopen` for an iq or the features: the objects in front of the one that is used, this
one, and those behind it. -/
def openHolder (iq : Option AttrList) : List Holder → List Holder × Holder × List Holder
  | [] => ([], assignHolder iq ⟨iq.isSome, [], []⟩, [])
  | o :: rest =>
      if holderFor iq o then ([], assignHolder iq o, rest)
      else
        let (before, found, behind) := openHolder iq rest
        (o :: before, found, behind)

/-- `bind_match`, which does not look at the object. -/
def bindMatch (xmlns : Option Text) : Bool :=
  xmlns.any fun xmlns => eqText xmlns bindNs

/-- `__x_bus_objopen` for a bind element. -/
def openBind (xmlns : Option Text) : List BindObject →
    List BindObject × BindObject × List BindObject
  | [] => ([], ⟨[], []⟩, [])
  | o :: rest =>
      if bindMatch xmlns then ([], o, rest) else (o :: rest, ⟨[], []⟩, [])

/-! ## The callbacks -/

/-- The attribute `$bind_state`. -/
def bindState (o : BindObject) : Option Text :=
  getattr (lit "$bind_state") o.attrs

/-- The object is in a state. -/
def inState (o : BindObject) (state : Text) : Bool :=
  (bindState o).any fun val => eqText val state

/-- The object with another state. -/
def setState (o : BindObject) (state : Text) : BindObject :=
  { o with attrs := setattr (lit "$bind_state") (some state) o.attrs }

/-- `_ENV(this__, "resource")` -/
def envResource (s : State) (holder : Holder) (o : BindObject) : Option Text :=
  (getattr (lit "resource") o.attrs).or <| (getattr (lit "resource") holder.attrs).or <|
    (getattr (lit "resource") s.streamAttrs).or (getattr (lit "resource") s.busAttrs)

/-- `bind_on_assign`.  The length of a resource that is NULL is asked for as well. -/
def bindOnAssign (resource : Option Text) (o : BindObject) :
    Except Fault (BindObject × List Output) :=
  if inState o (lit "BIND_SENT") then .ok (o, [])
  else if inState o (lit "BIND_OK") then .ok (o, [])
  else
    match resource with
    | none => .error .segv
    | some resource => .ok (setState o (lit "BIND_SENT"), [.bindRequest resource])

/-- What stands behind the last slash. -/
def behindSlash (jid : Text) : Option Text :=
  if ch '/' ∈ jid then some (jid.reverse.takeWhile (· ≠ ch '/')).reverse else none

/-- The two assignments to the bus in `bind_exit`. -/
def setJid (busAttrs : AttrList) (jid : Text) : AttrList :=
  let busAttrs := setattr (lit "jid") (some jid) busAttrs
  match behindSlash jid with
  | some ptr => setattr (lit "resource") (some ptr) busAttrs
  | none => busAttrs

/-- `_CHLD(this__, "jid")` -/
def jidSon (o : BindObject) : Option Son :=
  o.sons.find? fun son => eqnText son.name (lit "jid")

/-- `bind_exit`, with the attributes of the bus.  `strrchr` reads a content that is NULL. -/
def bindExit (busNames : List Text) (busAttrs : AttrList) (o : BindObject) :
    Except Fault (AttrList × BindObject × List Output) :=
  if inState o (lit "BIND_SENT") then
    match jidSon o with
    | none => .ok (busAttrs, o, [])
    | some son =>
        match son.cbuf with
        | none => .error .segv
        | some jid => .ok (setJid busAttrs jid, setState o (lit "BIND_OK"), .setJid jid ::
            if busNames.any fun name => eqnText name (lit "stream:stream") then
              [.sessionRequest, .presence]
            else [])
  else .ok (busAttrs, o, [])

/-- The children of an element become children of its object: the prototype does not match. -/
def appendSons (o : BindObject) (e : BindElement) : BindObject :=
  { o with sons := o.sons ++ e.sons.map fun son => ⟨son.1, cbuf son.2⟩ }

/-- A stanza, and what is sent because of it. -/
def step (s : State) (a : Arrival) : Except Fault (State × List Output) :=
  let (before, holder, behind) := openHolder a.iq s.holders
  match a.bind with
  | none => .ok ({ s with holders := before ++ holder :: behind }, [])
  | some e => do
      let (first, o, others) := openBind e.xmlns holder.binds
      let (o, requests) ← bindOnAssign (envResource s holder o) o
      let (busAttrs, o, bound) ← bindExit s.busNames s.busAttrs (appendSons o e)
      let holder := { holder with binds := first ++ o :: others }
      .ok ({ s with busAttrs := busAttrs, holders := before ++ holder :: behind },
        requests ++ bound)

/-! ## What binding is -/

/-- How far the binding of a stream is. -/
structure Progress where
  requested : Bool
  bound : Bool
  deriving DecidableEq, Repr

/-- The text of the first jid of an element. -/
def firstJid (e : BindElement) : Option Text :=
  (e.sons.find? fun son => eqText son.1 (lit "jid")).map Prod.snd

/-- The JID that a stanza binds. -/
def binds (p : Progress) (a : Arrival) : Option Text :=
  if p.bound then none else a.bind.bind firstJid

/-- A stanza brings the binding further. -/
def Progress.next (p : Progress) (a : Arrival) : Progress where
  requested := p.requested || a.bind.isSome
  bound := p.bound || (binds p a).isSome

/-- What a JID brings with it. -/
def boundBy (jid : Option Text) : List Output :=
  match jid with
  | some jid => [.setJid jid, .sessionRequest, .presence]
  | none => []

/-- What is to be sent for a stanza: a request with the first bind element, and the JID, the
session and the presence with the first jid. -/
def foretold (resource : Text) (p : Progress) (a : Arrival) : List Output :=
  (if p.requested || a.bind.isNone then [] else [.bindRequest resource]) ++ boundBy (binds p a)

/-- A stream, and how far its binding should be. -/
structure Watched where
  state : State
  progress : Progress

/-- A stream that has just begun. -/
def Watched.begun (s : State) : Watched :=
  ⟨{ s with holders := [] }, ⟨false, false⟩⟩

/-- One stanza. -/
def receive (w : Watched) (a : Arrival) : Except Fault Watched := do
  let (s, _) ← step w.state a
  .ok ⟨s, w.progress.next a⟩

/-- What the stanza makes the stream do is what binding is. -/
def BindsOnce (w : Watched) (a : Arrival) : Prop :=
  ∃ s' out resource, step w.state a = .ok (s', out) ∧ out = foretold resource w.progress a ∧
    getattr (lit "jid") s'.busAttrs =
      (binds w.progress a).or (getattr (lit "jid") w.state.busAttrs)

/-- The first child of an element whose name begins `jid`. -/
def jidElement (e : BindElement) : Option (Text × Text) :=
  e.sons.find? fun son => eqnText son.1 (lit "jid")

/-- A resource is wanted at the first bind element; every other one declares the namespace itself
and arrives where the first did.  Until a jid has arrived, what the lookup for one finds is the
text of the first jid, and not empty. -/
def InPlace (w : Watched) (a : Arrival) : Prop :=
  ∀ e, a.bind = some e →
    (if w.progress.requested then
      (openHolder a.iq w.state.holders).2.1.binds ≠ [] ∧ bindMatch e.xmlns = true
    else (envResource w.state (openHolder a.iq w.state.holders).2.1 ⟨[], []⟩).isSome = true) ∧
    (w.progress.bound = false → ∀ son, jidElement e = some son →
      son.2 ≠ [] ∧ firstJid e = some son.2)

/-! ## One object -/

variable {s s' : State} {w w' : Watched} {a : Arrival} {e : BindElement} {o o' : BindObject}
  {busNames : List Text} {busAttrs : AttrList} {resource : Option Text} {jid : Text}

theorem inState_new (state : Text) : inState ⟨[], []⟩ state = false :=
  rfl

theorem inState_setState (state state' : Text) :
    inState (setState o state) state' = eqText state state' := by
  rw [inState, bindState, setState, getattr_setattr, if_pos rfl]
  rfl

theorem inState_appendSons (state : Text) : inState (appendSons o e) state = inState o state :=
  rfl

/-- The object has sent its request, and has no child that is taken for a jid. -/
def Waits (o : BindObject) : Prop :=
  inState o (lit "BIND_SENT") = true ∧ jidSon o = none

/-- The object has got its jid. -/
def Bound (o : BindObject) : Prop :=
  inState o (lit "BIND_SENT") = false ∧ inState o (lit "BIND_OK") = true

/-- How an object stands that has sent its request. -/
def Stands (bound : Bool) (o : BindObject) : Prop :=
  if bound then Bound o else Waits o

/-- What the lookup for a jid finds in the element is the text of the first jid. -/
def Plain (e : BindElement) : Prop :=
  ∀ son, jidElement e = some son → son.2 ≠ [] ∧ firstJid e = some son.2

theorem bindOnAssign_new (resource : Option Text) : bindOnAssign resource ⟨[], []⟩ =
    match resource with
    | none => .error .segv
    | some resource => .ok (setState ⟨[], []⟩ (lit "BIND_SENT"), [.bindRequest resource]) := by
  unfold bindOnAssign
  rw [inState_new, inState_new]
  rfl

theorem bindOnAssign_of_waits (waits : Waits o) (resource : Option Text) :
    bindOnAssign resource o = .ok (o, []) := by
  unfold bindOnAssign
  rw [if_pos waits.1]

theorem bindOnAssign_of_bound (bound : Bound o) (resource : Option Text) :
    bindOnAssign resource o = .ok (o, []) := by
  unfold bindOnAssign
  rw [bound.1, if_neg Bool.false_ne_true, if_pos bound.2]

theorem waits_new : Waits (setState ⟨[], []⟩ (lit "BIND_SENT")) := by
  constructor
  · rw [inState_setState]
    exact eqText_refl _
  · rfl

theorem bindExit_of_bound (bound : Bound o) :
    bindExit busNames busAttrs (appendSons o e) = .ok (busAttrs, appendSons o e, []) := by
  rw [bindExit, inState_appendSons, bound.1, if_neg Bool.false_ne_true]

/-- The first child that is taken for a jid is one of the element. -/
theorem jidSon_appendSons (none : jidSon o = none) :
    jidSon (appendSons o e) = (jidElement e).map fun son => ⟨son.1, cbuf son.2⟩ := by
  rw [jidSon, appendSons, List.find?_append]
  rw [jidSon] at none
  rw [none, Option.none_or, List.find?_map]
  rfl

/-- A jid is found. -/
theorem jidElement_of_firstJid (first : firstJid e = some jid) :
    ∃ son, jidElement e = some son := by
  rcases Option.map_eq_some_iff.mp first with ⟨son, found, -⟩
  have named : eqText son.1 (lit "jid") = true :=
    List.find?_some (p := fun son : Text × Text => eqText son.1 (lit "jid")) found
  have member : son ∈ e.sons := List.mem_of_find?_eq_some found
  cases looked : jidElement e with
  | some other => exact ⟨other, rfl⟩
  | none =>
      have differs := List.find?_eq_none.mp looked son member
      exact absurd (eqnText_of_eqText named) differs

theorem bindExit_of_waits (waits : Waits o) : bindExit busNames busAttrs (appendSons o e) =
    match jidElement e with
    | none => .ok (busAttrs, appendSons o e, [])
    | some son =>
        match cbuf son.2 with
        | none => .error .segv
        | some jid => .ok (setJid busAttrs jid, setState (appendSons o e) (lit "BIND_OK"),
            .setJid jid ::
              if busNames.any fun name => eqnText name (lit "stream:stream") then
                [.sessionRequest, .presence]
              else []) := by
  rw [bindExit, inState_appendSons, waits.1, if_pos rfl, jidSon_appendSons waits.2]
  cases jidElement e with
  | none => rfl
  | some son => rfl

theorem getattr_setJid : getattr (lit "jid") (setJid busAttrs jid) = some jid := by
  have other : lit "jid" ≠ lit "resource" := by decide
  rw [setJid]
  split
  · rw [getattr_setattr, if_neg other, getattr_setattr, if_pos rfl]
  · rw [getattr_setattr, if_pos rfl]

/-- The end of an element for an object that waits. -/
theorem bindExit_of_plain (busAttrs : AttrList) (waits : Waits o) (plain : Plain e)
    (streaming : (busNames.any fun name => eqnText name (lit "stream:stream")) = true) :
    ∃ busAttrs' o', bindExit busNames busAttrs (appendSons o e) =
        .ok (busAttrs', o', boundBy (firstJid e)) ∧
      getattr (lit "jid") busAttrs' = (firstJid e).or (getattr (lit "jid") busAttrs) ∧
      Stands (firstJid e).isSome o' := by
  rw [bindExit_of_waits waits, streaming, if_pos rfl]
  cases found : jidElement e with
  | none =>
      have nothing : firstJid e = none := by
        cases first : firstJid e with
        | none => rfl
        | some jid =>
            rcases jidElement_of_firstJid first with ⟨son, there⟩
            rw [found] at there
            cases there
      rw [nothing]
      refine ⟨_, _, rfl, rfl, waits.1, ?_⟩
      rw [jidSon_appendSons waits.2, found]
      rfl
  | some son =>
      rcases plain son found with ⟨nonempty, first⟩
      rw [first]
      simp only [cbuf, if_neg nonempty]
      refine ⟨_, _, rfl, getattr_setJid, ?_⟩
      constructor
      · rw [inState_setState]
        decide
      · rw [inState_setState]
        decide

theorem plain_of_bindExit (waits : Waits o) {busAttrs' : AttrList} {out : List Output}
    (result : bindExit busNames busAttrs (appendSons o e) = .ok (busAttrs', o', out))
    (same : out = boundBy (firstJid e)) : Plain e := by
  intro son found
  rw [bindExit_of_waits waits, found] at result
  by_cases empty : son.2 = []
  · simp only [cbuf, if_pos empty] at result
    cases result
  · refine ⟨empty, ?_⟩
    simp only [cbuf, if_neg empty] at result
    cases result
    cases first : firstJid e with
    | none =>
        rw [first] at same
        cases same
    | some jid =>
        rw [first, boundBy] at same
        rw [List.cons.injEq, Output.setJid.injEq] at same
        rw [same.1]

/-- The element of an object that has sent its request. -/
theorem bindExit_of_stands (busAttrs : AttrList) {bound : Bool} (stands : Stands bound o)
    (plain : bound = false → Plain e)
    (streaming : (busNames.any fun name => eqnText name (lit "stream:stream")) = true) :
    ∃ busAttrs' o', bindExit busNames busAttrs (appendSons o e) =
        .ok (busAttrs', o', boundBy (if bound then none else firstJid e)) ∧
      getattr (lit "jid") busAttrs' =
        (if bound then none else firstJid e).or (getattr (lit "jid") busAttrs) ∧
      Stands (bound || (if bound then none else firstJid e).isSome) o' := by
  cases bound with
  | true => exact ⟨_, _, bindExit_of_bound stands, rfl, stands⟩
  | false => exact bindExit_of_plain busAttrs stands (plain rfl) streaming

/-! ## One stanza -/

/-- All bind objects of the stream. -/
def objects (holders : List Holder) : List BindObject :=
  holders.flatMap Holder.binds

theorem objects_openHolder (iq : Option AttrList) (holders : List Holder) :
    objects holders = objects (openHolder iq holders).1 ++
      ((openHolder iq holders).2.1.binds ++ objects (openHolder iq holders).2.2) := by
  have kept : ∀ o, (assignHolder iq o).binds = o.binds := by
    intro o
    cases iq with
    | none => rfl
    | some attrs => rfl
  induction holders with
  | nil =>
      change [] = [] ++ ((assignHolder iq _).binds ++ [])
      rw [kept]
      rfl
  | cons o rest ih =>
      rw [openHolder]
      split
      · change o.binds ++ objects rest = [] ++ ((assignHolder iq o).binds ++ objects rest)
        rw [kept, List.nil_append]
      · change o.binds ++ objects rest = (o.binds ++ objects (openHolder iq rest).1) ++ _
        rw [ih, List.append_assoc]

theorem objects_split (before : List Holder) (holder : Holder) (behind : List Holder) :
    objects (before ++ holder :: behind) = objects before ++ (holder.binds ++ objects behind) := by
  simp [objects]

/-- Nothing has been sent and nothing is there, or there is one object, which has sent the
request. -/
structure Kept (w : Watched) : Prop where
  idle : w.progress.requested = false →
    objects w.state.holders = [] ∧ w.progress.bound = false
  busy : w.progress.requested = true →
    ∃ o, objects w.state.holders = [o] ∧ Stands w.progress.bound o

theorem step_of_bind {before behind : List Holder} {holder : Holder}
    {first others : List BindObject} (here : a.bind = some e)
    (opened : openHolder a.iq s.holders = (before, holder, behind))
    (found : openBind e.xmlns holder.binds = (first, o, others)) :
    step s a = bindOnAssign (envResource s holder o) o >>= fun assigned =>
      bindExit s.busNames s.busAttrs (appendSons assigned.1 e) >>= fun closed =>
        .ok ({ s with
            busAttrs := closed.1
            holders := before ++ { holder with binds := first ++ closed.2.1 :: others } :: behind },
          assigned.2 ++ closed.2.2) := by
  unfold step
  rw [here]
  simp only [opened, found]

theorem State.streams (s : State) :
    (s.busNames.any fun name => eqnText name (lit "stream:stream")) = true := by
  rcases s.streaming with ⟨name, member, begins⟩
  exact List.any_eq_true.mpr ⟨name, member, begins⟩

/-- The object that is used is the only one. -/
theorem openBind_of_single {before behind : List BindObject} {l : List BindObject}
    (single : before ++ (l ++ behind) = [o]) (there : l ≠ [])
      (declares : bindMatch e.xmlns = true) :
    before = [] ∧ behind = [] ∧ openBind e.xmlns l = ([], o, []) := by
  rcases List.exists_cons_of_ne_nil there with ⟨x, rest, rfl⟩
  rcases List.append_eq_singleton_iff.mp single with ⟨rfl, same⟩ | ⟨-, none⟩
  · rw [List.cons_append, List.cons.injEq, List.append_eq_nil_iff] at same
    rcases same with ⟨rfl, rfl, rfl⟩
    exact ⟨rfl, rfl, by rw [openBind, if_pos declares]⟩
  · cases none

/-- The object that is used is a new one. -/
theorem openBind_of_other {l : List BindObject} (other : ¬(l ≠ [] ∧ bindMatch e.xmlns = true)) :
    openBind e.xmlns l = (l, ⟨[], []⟩, []) := by
  cases l with
  | nil => rfl
  | cons x rest =>
      rw [openBind, if_neg fun declares => other ⟨List.cons_ne_nil x rest, declares⟩]

/-- A stanza in its place does what binding is, and leaves one object. -/
theorem Kept.step (kept : Kept w) (inPlace : InPlace w a) :
    ∃ s' out resource, step w.state a = .ok (s', out) ∧ out = foretold resource w.progress a ∧
      getattr (lit "jid") s'.busAttrs =
        (binds w.progress a).or (getattr (lit "jid") w.state.busAttrs) ∧
      Kept ⟨s', w.progress.next a⟩ := by
  rcases w with ⟨s, ⟨requested, bound⟩⟩
  have split := objects_openHolder a.iq s.holders
  rcases opened : openHolder a.iq s.holders with ⟨before, holder, behind⟩
  rw [opened] at split
  dsimp only at split
  cases here : a.bind with
  | none =>
      have same : step s a = .ok ({ s with holders := before ++ holder :: behind }, []) := by
        unfold Bind.step
        rw [here]
        simp only [opened]
      have nothing : binds ⟨requested, bound⟩ a = none := by
        rw [binds, here]
        cases bound <;> rfl
      refine ⟨_, _, [], same, ?_, ?_, ?_, ?_⟩
      · rw [foretold, here, nothing]
        simp [boundBy]
      · rw [nothing]
        rfl
      · intro idle
        simp only [Progress.next, nothing, here, Option.isSome_none, Bool.or_false] at idle ⊢
        rw [objects_split, ← split]
        exact kept.idle idle
      · intro busy
        simp only [Progress.next, nothing, here, Option.isSome_none, Bool.or_false] at busy ⊢
        rw [objects_split, ← split]
        exact kept.busy busy
  | some e =>
      rcases inPlace e here with ⟨place, plain⟩
      simp only [opened] at place plain
      have jid : binds ⟨requested, bound⟩ a = if bound then none else firstJid e := by
        rw [binds, here]
        rfl
      cases requested with
      | false =>
          rcases kept.idle rfl with ⟨none, rfl⟩
          rw [split, List.append_eq_nil_iff, List.append_eq_nil_iff] at none
          rcases none with ⟨noneBefore, noBinds, noneBehind⟩
          rcases Option.isSome_iff_exists.mp place with ⟨resource, wanted⟩
          have waits : Stands false (setState ⟨[], []⟩ (lit "BIND_SENT")) := waits_new
          rcases bindExit_of_stands s.busAttrs waits plain s.streams with
            ⟨busAttrs', o', closed, attrs, stands⟩
          have found : openBind e.xmlns holder.binds = ([], ⟨[], []⟩, []) := by
            rw [noBinds]
            rfl
          have result := step_of_bind here opened found
          rw [wanted, bindOnAssign_new] at result
          simp only [ok_bind, closed] at result
          refine ⟨_, _, resource, result, ?_, ?_, ?_, ?_⟩
          · rw [foretold, here, jid]
            rfl
          · rw [jid]
            exact attrs
          · intro idle
            simp [Progress.next, here] at idle
          · intro _
            refine ⟨o', ?_, ?_⟩
            · simp only [objects_split, noneBefore, noneBehind, List.nil_append, List.append_nil]
            · simp only [Progress.next, jid]
              exact stands
      | true =>
          rcases kept.busy rfl with ⟨o, single, stands⟩
          rw [split] at single
          rcases openBind_of_single single place.1 place.2 with ⟨noneBefore, noneBehind, found⟩
          rcases bindExit_of_stands s.busAttrs stands plain s.streams with
            ⟨busAttrs', o', closed, attrs, stands'⟩
          have result := step_of_bind here opened found
          have assigned : bindOnAssign (envResource s holder o) o = .ok (o, []) := by
            cases bound with
            | true => exact bindOnAssign_of_bound stands _
            | false => exact bindOnAssign_of_waits stands _
          simp only [assigned, ok_bind, closed] at result
          refine ⟨_, _, [], result, ?_, ?_, ?_, ?_⟩
          · rw [foretold, jid]
            rfl
          · rw [jid]
            exact attrs
          · intro idle
            cases idle
          · intro _
            refine ⟨o', ?_, ?_⟩
            · simp only [objects_split, noneBefore, noneBehind, List.nil_append, List.append_nil]
            · simp only [Progress.next, jid]
              exact stands'

/-- A stanza that does what binding is has been in its place. -/
theorem Kept.inPlace (kept : Kept w) (once : BindsOnce w a) : InPlace w a := by
  intro e here
  rcases once with ⟨s', out, resource, result, same, -⟩
  rcases w with ⟨s, ⟨requested, bound⟩⟩
  have split := objects_openHolder a.iq s.holders
  rcases opened : openHolder a.iq s.holders with ⟨before, holder, behind⟩
  rw [opened] at split
  dsimp only at split result same ⊢
  have jid : binds ⟨requested, bound⟩ a = if bound then none else firstJid e := by
    rw [binds, here]
    rfl
  cases requested with
  | false =>
      rcases kept.idle rfl with ⟨none, rfl⟩
      rw [split, List.append_eq_nil_iff, List.append_eq_nil_iff] at none
      have found : openBind e.xmlns holder.binds = ([], ⟨[], []⟩, []) := by
        rw [none.2.1]
        rfl
      rw [step_of_bind here opened found, bindOnAssign_new] at result
      rw [foretold, here, jid] at same
      cases wanted : envResource s holder ⟨[], []⟩ with
      | none =>
          rw [wanted] at result
          cases result
      | some wish =>
          rw [wanted] at result
          simp only [ok_bind] at result
          rcases bind_eq_ok_iff.mp result with ⟨⟨busAttrs', o', sent⟩, closed, done⟩
          cases done
          rw [List.singleton_append] at same
          exact ⟨rfl, fun _ => plain_of_bindExit waits_new closed (List.cons.inj same).2⟩
  | true =>
      rcases kept.busy rfl with ⟨o, single, stands⟩
      rw [split] at single
      rw [foretold, jid] at same
      by_cases place : holder.binds ≠ [] ∧ bindMatch e.xmlns = true
      · refine ⟨place, ?_⟩
        rintro rfl
        rcases openBind_of_single single place.1 place.2 with ⟨-, -, found⟩
        rw [step_of_bind here opened found, bindOnAssign_of_waits stands, ok_bind]
          at result
        rcases bind_eq_ok_iff.mp result with ⟨⟨busAttrs', o', sent⟩, closed, done⟩
        cases done
        exact plain_of_bindExit stands closed same
      · -- a new object sends a second request
        rw [step_of_bind here opened (openBind_of_other place), bindOnAssign_new] at result
        cases wanted : envResource s holder ⟨[], []⟩ with
        | none =>
            rw [wanted] at result
            cases result
        | some wish =>
            rw [wanted] at result
            simp only [ok_bind] at result
            rcases bind_eq_ok_iff.mp result with ⟨⟨busAttrs', o', sent⟩, -, done⟩
            cases done
            cases nothing : (if bound then none else firstJid e) with
            | none =>
                rw [nothing] at same
                cases same
            | some jid =>
                rw [nothing] at same
                cases same

/-- **One stanza** does what binding is exactly if it is in its place. -/
theorem bindsOnce_iff (kept : Kept w) : BindsOnce w a ↔ InPlace w a := by
  constructor
  · exact kept.inPlace
  · intro inPlace
    rcases kept.step inPlace with ⟨s', out, resource, result, same, attrs, -⟩
    exact ⟨s', out, resource, result, same, attrs⟩

theorem Kept.receive (kept : Kept w) (inPlace : InPlace w a) (next : receive w a = .ok w') :
    Kept w' := by
  rcases kept.step inPlace with ⟨s', out, resource, result, -, -, kept'⟩
  rw [Bind.receive, result] at next
  cases next
  exact kept'

theorem kept_begun (s : State) : Kept (Watched.begun s) where
  idle _ := ⟨rfl, rfl⟩
  busy busy := by cases busy

/-- **Binding.**  One request is sent, and the first jid behind it is bound with one session and
one presence, in exactly the runs in which every stanza is in its place. -/
theorem along_bindsOnce_iff (s : State) (l : List Arrival) :
    Along receive BindsOnce (Watched.begun s) l ↔ Along receive InPlace (Watched.begun s) l := by
  refine along_congr Kept ?_ ?_ (kept_begun s)
  · intro w a w' kept once next
    exact kept.receive (kept.inPlace once) next
  · intro w a kept
    exact bindsOnce_iff kept

/-- A bus with a resource, and its stream. -/
def robot : State where
  busAttrs := [(lit "resource", lit "bot")]
  streamAttrs := []
  busNames := [lit "stream"]
  streaming := ⟨_, List.mem_cons_self, by decide⟩
  holders := []

/-- The features with a bind element. -/
def offer : Arrival :=
  ⟨none, some ⟨some bindNs, []⟩⟩

/-- The result with the JID. -/
def granted : Arrival :=
  ⟨some [(lit "type", lit "result"), (lit "id", lit "bind_1")],
    some ⟨some bindNs, [(lit "jid", lit "bot@example.org/bot")]⟩⟩

/-- The object for the element of the result asks for a resource again. -/
theorem not_along_bindsOnce_granted :
    ¬Along receive BindsOnce (Watched.begun robot) [offer, granted] := by
  intro along
  have inPlace := along.imp Kept (fun w a w' kept once next =>
    kept.receive (kept.inPlace once) next) (fun w a kept once => kept.inPlace once)
    (kept_begun robot)
  rcases inPlace with ⟨-, later⟩
  rcases (later _ rfl).1 _ rfl with ⟨place, -⟩
  exact place.1 rfl

end Xwbot.Bind
