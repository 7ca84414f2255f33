import Xwbot.Jingle.Outline

/-!
# The handlers of Jingle elements

For the handlers of `transport-info`, `session-accept` and `session-terminate`
the condition, on the element and on the state in which it arrives, under which
the handler gets to its end.  `Tidy` is what every handler leaves behind, and
`Sends` what sending changes.
-/

namespace Xwbot.Jingle

open Runs

/-! ## Payloads -/

/-- A parameter without a name only passes as long as there is no attribute. -/
def ParameterFits (attrs : AttrList) (tmpparam : AttrList) : Prop :=
  (getattr (lit "name") tmpparam).isSome = true ∨
    getattr (lit "value") tmpparam = none ∧ attrs = []
deriving Decidable

namespace Payload

/-- The attributes of a payload with its parameters among them. -/
def assigned (payload : Payload) : AttrList :=
  payload.parameters.foldl
    (fun attrs tmpparam =>
      match getattr (lit "name") tmpparam with
      | some k => setattr k (getattr (lit "value") tmpparam) attrs
      | none => attrs)
    payload.attrs

/-- An object of a class that is found gets its names: there is room for the one that the class
was looked up with, and there is an identifier, with room for it. -/
def Nameable (ptname : Text) (ptype : Option Text) : Prop :=
  NameFits (objectName ptname) ∧ ∃ id ∈ ptype, NameFits id

instance (ptname : Text) (ptype : Option Text) : Decidable (Nameable ptname ptype) :=
  inferInstanceAs (Decidable (_ ∧ ∃ id ∈ ptype, _))

/-- The payload names its parameters.  If it has a name, then no parameter takes its place, the
lookup of a class is within its buffer, and what is made of a class that is found can be named. -/
def Fits (c : Config) (payload : Payload) : Prop :=
  Along Agent.assignParameter ParameterFits payload.attrs payload.parameters ∧
    ∀ ptname ∈ getattr (lit "name") payload.attrs,
      payload.assigns (lit "name") = false ∧ (objectName ptname).length < lowcaseBuf ∧
        (c.media ptname payload.assigned = true →
          Nameable ptname (getattr (lit "id") payload.assigned))

instance (c : Config) (payload : Payload) : Decidable (payload.Fits c) :=
  inferInstanceAs (Decidable (_ ∧ ∀ ptname ∈ getattr (lit "name") payload.attrs, _))

end Payload

/-- The payloads of a content, if it has a description, can be added. -/
def Content.payloadsFit (c : Config) (chan : Content) : Bool :=
  decide (∀ payload ∈ (chan.description.map Description.payloads).getD [], payload.Fits c)

namespace Agent

variable {c : Config} {a b : Agent} {i xcs k : Nat}

theorem assignParameter_eq_ok {attrs tmpparam : AttrList} :
    (Succeeds (assignParameter attrs tmpparam) ↔ ParameterFits attrs tmpparam) ∧
      ∀ attrs', assignParameter attrs tmpparam = .ok attrs' →
        attrs' = match getattr (lit "name") tmpparam with
          | some k => setattr k (getattr (lit "value") tmpparam) attrs
          | none => attrs := by
  unfold assignParameter setattrPtr ParameterFits
  cases getattr (lit "name") tmpparam with
  | some k => simp
  | none =>
      simp only
      split
      · next empty => simp [empty]
      · next full => simp [full]

theorem succeeds_addPayload {ptype : Option Text} {ptname : Text} {hints : AttrList} :
    Succeeds (addPayload c ptype (some ptname) hints) ↔
      (objectName ptname).length < lowcaseBuf ∧
        (c.media ptname hints = true → Payload.Nameable ptname ptype) := by
  unfold addPayload Payload.Nameable
  dsimp only
  split
  · next long => simp [not_lt.mpr long]
  · next short =>
      rw [not_le] at short
      split
      · next found =>
          cases ptype with
          | none => simp [found]
          | some ptype =>
              dsimp only
              split
              · next fits => simp [short, fits.1, fits.2]
              · next tight => simpa [short, found] using tight
      · next missing => simp [short, missing]

theorem succeeds_handlePayload {payload : Payload} :
    Succeeds (handlePayload c payload) ↔ payload.Fits c := by
  have runs : Succeeds (run assignParameter payload.attrs payload.parameters) ↔
      Along assignParameter ParameterFits payload.attrs payload.parameters :=
    succeeds_run_iff (fun _ _ _ (_ : True) _ => trivial)
      (fun _ _ (_ : True) => assignParameter_eq_ok.1) trivial
  have result : ∀ attrs, run assignParameter payload.attrs payload.parameters = .ok attrs →
      attrs = payload.assigned := by
    rw [Payload.assigned]
    generalize payload.attrs = start
    induction payload.parameters generalizing start with
    | nil =>
        intro attrs ended
        cases ended
        rfl
    | cons tmpparam rest ih =>
        intro attrs ended
        rcases bind_eq_ok_iff.mp ended with ⟨middle, first, later⟩
        rw [ih middle attrs later, assignParameter_eq_ok.2 middle first, List.foldl_cons]
  have added : Succeeds (if (getattr (lit "name") payload.attrs).isSome ∧
        payload.assigns (lit "name") then .error .freed
      else addPayload c (getattr (lit "id") payload.assigned)
        (getattr (lit "name") payload.attrs) payload.assigned) ↔
      ∀ ptname ∈ getattr (lit "name") payload.attrs,
        payload.assigns (lit "name") = false ∧ (objectName ptname).length < lowcaseBuf ∧
          (c.media ptname payload.assigned = true →
            Payload.Nameable ptname (getattr (lit "id") payload.assigned)) := by
    cases getattr (lit "name") payload.attrs with
    | none => simp [addPayload]
    | some ptname =>
        cases payload.assigns (lit "name") with
        | true => simp
        | false => simpa using succeeds_addPayload
  rw [handlePayload, succeeds_bind_iff, Payload.Fits, ← runs, ← added]
  constructor
  · rintro ⟨attrs, ended, succeeds⟩
    rw [result attrs ended] at succeeds
    exact ⟨⟨attrs, ended⟩, succeeds⟩
  · rintro ⟨⟨attrs, ended⟩, succeeds⟩
    refine ⟨attrs, ended, ?_⟩
    rw [result attrs ended]
    exact succeeds

theorem succeeds_handlePayloads (c : Config) (payloads : List Payload) :
    Succeeds (handlePayloads c payloads) ↔ ∀ payload ∈ payloads, payload.Fits c := by
  rw [handlePayloads]
  induction payloads with
  | nil => simp
  | cons payload rest ih =>
      rw [run_cons, succeeds_bind_iff, List.forall_mem_cons, ← succeeds_handlePayload, ← ih]
      constructor
      · rintro ⟨u, first, later⟩
        exact ⟨⟨u, first⟩, later⟩
      · rintro ⟨⟨u, first⟩, later⟩
        exact ⟨u, first, later⟩

/-! ## Accepting -/

/-- A turn of the loop over the contents of a received `session-accept`. -/
theorem acceptContent_agrees (chan : Content) :
    Agrees outline (fun b => ∃ n, Loops i n (a.object i).regs.remoteCandidate a b)
      ((a.outline.visit (a.contentSession i) (Content.payloadsFit c) chan).map Prod.fst)
      (acceptContent c i a chan) := by
  unfold acceptContent
  rw [Outline.visit, contentSession, ← Option.bind_assoc, Option.map_bind]
  refine (channelOpen_agrees _ _ chan.name).bind fun p only => ?_
  rcases p with ⟨b, xcs, k⟩
  rcases only with ⟨channels, only⟩
  have opened : Loops i 0 (a.object i).regs.remoteCandidate a b := .of_channels i only
  simp only
  cases here : b.transport xcs k with
  | none => exact ⟨rfl, 0, opened⟩
  | some candidates =>
      cases given : chan.transport with
      | none => trivial
      | some transport =>
          have present : (b.transport xcs k).isSome = true := by rw [here]; rfl
          simp only [Function.comp_apply, Option.isSome_some, Bool.true_and]
          generalize transport.candidates.map _ = candidates
          rcases loops_addCandidates i candidates present with ⟨added, same⟩
          rw [opened.bit_eq] at added
          have fits : Succeeds (handlePayloads c
              ((chan.description.map Description.payloads).getD [])) ↔
                chan.payloadsFit c = true := by
            rw [succeeds_handlePayloads, Content.payloadsFit, decide_eq_true_eq]
          cases handled : handlePayloads c ((chan.description.map Description.payloads).getD [])
            with
          | error fault =>
              rw [handled] at fits
              simp only [not_succeeds_error, false_iff, Bool.not_eq_true] at fits
              rw [fits, checked_error]
              trivial
          | ok u =>
              rw [handled] at fits
              simp only [succeeds_ok, true_iff] at fits
              rw [fits, checked_ok]
              exact ⟨same, _, opened.trans added⟩

/-- The loop over the contents of a received `session-accept`. -/
theorem acceptContents_agrees (contents : List Content) :
    Agrees outline (fun b => ∃ n, Loops i n (a.object i).regs.remoteCandidate a b)
      (a.outline.walk (a.contentSession i) (Content.payloadsFit c) contents)
      (run (acceptContent c i) a contents) := by
  refine agrees_run (fun b chan kept => ?_) ⟨0, Loops.refl i a⟩
  have once := acceptContent_agrees (c := c) (a := b) (i := i) chan
  rcases kept with ⟨n, loops⟩
  rw [loops.contentSession_eq, loops.bit_eq] at once
  apply once.mono
  rintro d ⟨m, second⟩
  exact ⟨n + m, loops.trans second⟩

/-! ## Between elements -/

/-- What holds of the agent while the jingle objects that are `busy` handle an element: objects
that have left the first state know their peer, and the objects that are subscribed to a session
have left it. -/
structure Tidy (busy : Nat → Prop) (a : Agent) : Prop where
  housed : a.store.Housed
  cleared : ∀ j, ¬busy j → (a.object j).contents = []
  named : ∀ j, (a.object j).regs.state ≠ .gnew →
    (getattr (lit "from") (a.object j).iq).isSome = true
  heard : ∀ xcs ∈ a.store.sessions, a.listener xcs.addr < a.count ∧
    (a.object (a.listener xcs.addr)).regs.state ≠ .gnew

namespace Tidy

variable {busy : Nat → Prop}

theorem start : Tidy busy .start where
  housed _ member := by cases member
  cleared _ _ := rfl
  named _ left := absurd rfl left
  heard _ member := by cases member

/-- An object is changed in place: its peer and its state stay. -/
theorem update (tidy : Tidy busy a) {o : JingleObject} (housed : b.store.Housed)
    (sessions_eq : b.store.sessions = a.store.sessions)
    (object_eq : b.object = Function.update a.object i o)
    (listener_eq : b.listener = a.listener) (count_eq : b.count = a.count)
    (iq_eq : o.iq = (a.object i).iq) (contents_eq : o.contents = (a.object i).contents)
    (state_eq : o.regs.state = (a.object i).regs.state) : Tidy busy b where
  housed := housed
  cleared j idle := by
    rw [object_eq]
    by_cases same : j = i
    · subst same
      rw [Function.update_self, contents_eq]
      exact tidy.cleared j idle
    · rw [Function.update_of_ne same]
      exact tidy.cleared j idle
  named j := by
    rw [object_eq]
    by_cases same : j = i
    · subst same
      rw [Function.update_self, iq_eq, state_eq]
      exact tidy.named j
    · rw [Function.update_of_ne same]
      exact tidy.named j
  heard xcs member := by
    rw [sessions_eq] at member
    rw [object_eq, listener_eq, count_eq]
    by_cases same : a.listener xcs.addr = i
    · subst same
      rw [Function.update_self, state_eq]
      exact tidy.heard xcs member
    · rw [Function.update_of_ne same]
      exact tidy.heard xcs member

theorem loops {n : Nat} {bit : Bool} (tidy : Tidy busy a) (loops : Loops i n bit a b) :
    Tidy busy b :=
  tidy.update (by rw [loops.store]; exact tidy.housed) (by rw [loops.store]) loops.object
    loops.listener loops.count rfl rfl rfl

theorem note (tidy : Tidy busy a) (event : Event) : Tidy busy (a.note event) :=
  ⟨tidy.housed, tidy.cleared, tidy.named, tidy.heard⟩

theorem setRegs (tidy : Tidy busy a) {regs : Regs}
    (state_eq : regs.state = (a.object i).regs.state) :
    Tidy busy (a.setRegs i regs) :=
  tidy.update tidy.housed rfl rfl rfl rfl rfl rfl state_eq

theorem env_isSome (tidy : Tidy busy a) {j : Nat} (left : (a.object j).regs.state ≠ .gnew) :
    ((a.object j).env (lit "from")).isSome = true := by
  have known := tidy.named j left
  rw [JingleObject.env]
  cases getattr (lit "from") (a.object j).attrs with
  | some sender => rfl
  | none =>
      cases found : getattr (lit "from") (a.object j).iq with
      | none =>
          rw [found] at known
          cases known
      | some sender => rfl

end Tidy

/-! ## Sending -/

/-- The session that an object sends for. -/
def ownSession (a : Agent) (j : Nat) : Option Nat :=
  a.sessionOf ((a.object j).env (lit "from")) ((a.object j).env (lit "sid"))

/-- The node of the peer that an object sends to is there, or can be made. -/
def Callable (a : Agent) (j : Nat) : Prop :=
  ∀ jid ∈ (a.object j).env (lit "from"), a.store.Hosts jid

/-- The contents of an object can be sent back. -/
structure Copyable (a : Agent) (j : Nat) : Prop where
  callable : a.Callable j
  walks : ∀ xcs ∈ a.ownSession j,
    (a.outline.walk (fun _ => some xcs) (fun _ => true) (a.object j).contents).isSome = true

/-- What sending for the object `j` does: besides the events, the registers of the object, and
nodes and channels that are opened. -/
structure Sends (j : Nat) (regs : Regs) (events : List Event) (a b : Agent) : Prop where
  store : a.store.Kept b.store
  top : b.top = a.top
  listener : b.listener = a.listener
  count : b.count = a.count
  object : b.object = Function.update a.object j { a.object j with regs := regs }
  log : b.log = a.log ++ events

namespace Sends

variable {d : Agent} {j : Nat} {regs regs' : Regs} {events events' : List Event}

theorem refl (housed : a.store.Housed) (j : Nat) : Sends j (a.object j).regs [] a a :=
  ⟨.refl housed, rfl, rfl, rfl, (Function.update_eq_self j a.object).symm,
    (List.append_nil _).symm⟩

theorem trans (first : Sends j regs events a b) (second : Sends j regs' events' b d) :
    Sends j regs' (events ++ events') a d where
  store := first.store.trans second.store
  top := second.top.trans first.top
  listener := second.listener.trans first.listener
  count := second.count.trans first.count
  object := by
    rw [second.object, first.object, Function.update_idem, Function.update_self]
  log := by
    rw [second.log, first.log, List.append_assoc]

theorem env_eq (sends : Sends j regs events a b) (k : Nat) (key : Text) :
    (b.object k).env key = (a.object k).env key := by
  rw [sends.object]
  by_cases same : k = j
  · subst same
    rw [Function.update_self]
    rfl
  · rw [Function.update_of_ne same]

theorem ownSession_eq (sends : Sends j regs events a b) (k : Nat) :
    b.ownSession k = a.ownSession k := by
  rw [ownSession, ownSession, sends.env_eq, sends.env_eq, sessionOf, sessionOf]
  simp only [sends.store.lookup]

/-- Nodes that are there stay. -/
theorem callable (sends : Sends j regs events a b) {k : Nat} (callable : a.Callable k) :
    b.Callable k := by
  intro jid known
  rw [sends.env_eq] at known
  exact (callable jid known).imp_left (sends.store.nodes jid)

theorem tidy {busy : Nat → Prop} (sends : Sends j regs events a b) (tidy : Tidy busy a)
    (state_eq : regs.state = (a.object j).regs.state) : Tidy busy b :=
  tidy.update sends.store.housed sends.store.sessions sends.object sends.listener sends.count rfl
    rfl state_eq

end Sends

/-- A session that is there, or not, is opened without being created. -/
theorem sessionOpen_eq {jid : Text} (sid : Option Text) (housed : a.store.Housed)
    (hosts : a.store.Hosts jid) : ∃ store, a.sessionOpen c (some jid) sid false =
      .ok ({ a with store := store }, a.sessionOf (some jid) sid) ∧ a.store.Kept store := by
  have kept : a.store.Kept (a.store.xSessionOpen jid sid false (c.random a.top) a.top).1 :=
    Store.kept_xSessionOpen housed
  refine ⟨_, ?_, kept⟩
  rw [sessionOpen, if_pos hosts, openSession_false]
  rfl

theorem sessionOpen_of_not_hosts {jid : Text} {sid : Option Text} {creat : Bool}
    (tight : ¬a.store.Hosts jid) :
    a.sessionOpen c (some jid) sid creat = .error ⟨.overflow, a⟩ := by
  rw [sessionOpen]
  exact if_neg tight

theorem callable_iff {j : Nat} {jid : Text} (known : (a.object j).env (lit "from") = some jid) :
    a.Callable j ↔ a.store.Hosts jid := by
  simp [Callable, known]

theorem sendTransportInfo_spec (housed : a.store.Housed) {j : Nat}
    (known : ((a.object j).env (lit "from")).isSome = true) :
    (Succeeds (a.sendTransportInfo c j) ↔ a.Callable j) ∧
      ∀ b, a.sendTransportInfo c j = .ok b → Sends j (a.object j).regs
        (if (a.ownSession j).isSome then [.sent j .transportInfo] else []) a b := by
  rcases Option.isSome_iff_exists.mp known with ⟨jid, known⟩
  rw [callable_iff known]
  unfold sendTransportInfo
  dsimp only
  by_cases hosts : a.store.Hosts jid
  · rcases sessionOpen_eq (c := c) ((a.object j).env (lit "sid")) housed hosts with
      ⟨store, opened, kept⟩
    have sends (events : List Event) :
        Sends j (a.object j).regs events a { a with store := store, log := a.log ++ events } :=
      ⟨kept, rfl, rfl, rfl, (Function.update_eq_self j a.object).symm, rfl⟩
    rw [known, opened, ok_bind, ownSession, known]
    cases a.sessionOf (some jid) ((a.object j).env (lit "sid")) with
    | none =>
        refine ⟨by simp [hosts], fun b result => ?_⟩
        cases result
        simpa using sends []
    | some xcs =>
        refine ⟨by simp [hosts], fun b result => ?_⟩
        cases result
        exact sends [.sent j .transportInfo]
  · rw [known, sessionOpen_of_not_hosts hosts, error_bind]
    exact ⟨by simp [hosts], fun b result => by cases result⟩

theorem sendInitiate_spec (housed : a.store.Housed) {j : Nat}
    (known : ((a.object j).env (lit "from")).isSome = true) :
    (Succeeds (a.sendInitiate c j) ↔ a.Callable j) ∧
      ∀ b, a.sendInitiate c j = .ok b → ∃ regs events, regs.state = (a.object j).regs.state ∧
        Sends j regs events a b := by
  rcases Option.isSome_iff_exists.mp known with ⟨jid, known⟩
  rw [callable_iff known]
  unfold sendInitiate
  dsimp only
  by_cases hosts : a.store.Hosts jid
  · rcases sessionOpen_eq (c := c) ((a.object j).env (lit "sid")) housed hosts with
      ⟨store, opened, kept⟩
    rw [known, opened, ok_bind]
    cases a.sessionOf (some jid) ((a.object j).env (lit "sid")) with
    | none =>
        refine ⟨by simp [hosts], fun b result => ?_⟩
        cases result
        exact ⟨(a.object j).regs, [], rfl, kept, rfl, rfl, rfl,
          (Function.update_eq_self j a.object).symm, (List.append_nil _).symm⟩
    | some xcs =>
        refine ⟨by simp [hosts], fun b result => ?_⟩
        cases result
        exact ⟨(a.object j).regs.turnPending, [.sent j .sessionInitiate], rfl, kept, rfl, rfl, rfl,
          rfl, rfl⟩
  · rw [known, sessionOpen_of_not_hosts hosts, error_bind]
    exact ⟨by simp [hosts], fun b result => by cases result⟩

/-- `session-accept` is sent if there is a session. -/
theorem sendAccept_spec (housed : a.store.Housed) {j : Nat}
    (known : ((a.object j).env (lit "from")).isSome = true) :
    (Succeeds (a.sendAccept c j) ↔ a.Copyable j) ∧
      ∀ b, a.sendAccept c j = .ok b → Sends j (a.object j).regs
        (if (a.ownSession j).isSome then [.sent j .sessionAccept] else []) a b := by
  rcases Option.isSome_iff_exists.mp known with ⟨jid, known⟩
  unfold sendAccept
  dsimp only
  by_cases hosts : a.store.Hosts jid
  · rcases sessionOpen_eq (c := c) ((a.object j).env (lit "sid")) housed hosts with
      ⟨store, opened, kept⟩
    have own : a.ownSession j = a.sessionOf (some jid) ((a.object j).env (lit "sid")) := by
      rw [ownSession, known]
    have copyable : a.Copyable j ↔ ∀ xcs ∈ a.ownSession j,
        (a.outline.walk (fun _ => some xcs) (fun _ => true) (a.object j).contents).isSome = true :=
      ⟨Copyable.walks, fun walks => ⟨(callable_iff known).mpr hosts, walks⟩⟩
    rw [copyable, known, opened, ok_bind, ← own]
    cases a.ownSession j with
    | none =>
        refine ⟨by simp, fun b result => ?_⟩
        cases result
        exact ⟨kept, rfl, rfl, rfl, (Function.update_eq_self j a.object).symm,
          (List.append_nil _).symm⟩
    | some xcs =>
        have copies : Agrees outline
            (Loops j 0 (a.object j).regs.remoteCandidate { a with store := store })
            (a.outline.walk (fun _ => some xcs) (fun _ => true) (a.object j).contents)
            (run (copyContent xcs) { a with store := store } (a.object j).contents) :=
          copyContents_agrees (a := { a with store := store }) (i := j) xcs (a.object j).contents
        simp only
        cases copied : run (copyContent xcs) { a with store := store } (a.object j).contents with
        | error fault =>
            rw [copied] at copies
            have stuck := copies.succeeds_iff
            simp only [not_succeeds_error, false_iff] at stuck
            exact ⟨by simpa using stuck, fun b result => by cases result⟩
        | ok d =>
            rw [copied] at copies
            have foretold := copies.succeeds_iff.mp (succeeds_ok d)
            have loops := copies.of_ok.2
            refine ⟨by simpa using foretold, fun b result => ?_⟩
            cases result
            refine ⟨?_, loops.top, loops.listener, loops.count, ?_, ?_⟩
            · rw [note, loops.store]
              exact kept
            · exact loops.object
            · rw [note, loops.log]
              simp
  · rw [known, sessionOpen_of_not_hosts hosts, error_bind]
    refine ⟨?_, fun b result => by cases result⟩
    simp only [not_succeeds_error, false_iff]
    exact fun copyable => hosts ((callable_iff known).mp copyable.callable)

/-- The session is still to be accepted, and a candidate of the peer is there. -/
def Ready (a : Agent) (j : Nat) : Prop :=
  (a.object j).regs.pending = true ∧ (a.object j).regs.remoteCandidate = true
deriving Decidable

theorem stateStep_spec (housed : a.store.Housed) {j : Nat}
    (known : ((a.object j).env (lit "from")).isSome = true) :
    (Succeeds (a.stateStep c j) ↔ (a.Ready j → a.Copyable j)) ∧
      ∀ b, a.stateStep c j = .ok b → Sends j
        (if a.Ready j then (a.object j).regs.turnRunning else (a.object j).regs)
        (if a.Ready j ∧ (a.ownSession j).isSome then [.sent j .sessionAccept] else []) a b := by
  rcases sendAccept_spec (c := c) housed known with ⟨succeeds, sent⟩
  by_cases ready : a.Ready j
  · have accepts : a.stateStep c j = (a.sendAccept c j >>= fun a =>
        .ok (a.setRegs j (a.object j).regs.turnRunning)) :=
      if_pos ready
    rw [accepts, ← succeeds, succeeds_bind_iff]
    constructor
    · constructor
      · rintro ⟨b, result, -⟩ -
        exact ⟨b, result⟩
      · intro later
        rcases later ready with ⟨b, result⟩
        exact ⟨b, result, succeeds_ok _⟩
    · intro d result
      rcases bind_eq_ok_iff.mp result with ⟨b, accepted, ended⟩
      cases ended
      have sends := sent b accepted
      simp only [ready, if_true, true_and]
      refine ⟨sends.store, sends.top, sends.listener, sends.count, ?_, sends.log⟩
      rw [Agent.setRegs, sends.object, Function.update_idem, Function.update_self]
  · have stays : a.stateStep c j = .ok a := if_neg ready
    rw [stays]
    refine ⟨by simp [ready], fun b result => ?_⟩
    cases result
    simp only [ready, if_false, false_and]
    exact .refl housed j

/-- `session-activate` for an object that has nothing to send back. -/
theorem sessionActivate_spec {busy : Nat → Prop} (tidy : Tidy busy a) {j : Nat}
    (left : (a.object j).regs.state ≠ .gnew)
    (waits : (a.object j).contents = [] ∨ (a.object j).regs.remoteCandidate = false) :
    (Succeeds (a.sessionActivate c j) ↔ a.Callable j) ∧
      ∀ b, a.sessionActivate c j = .ok b → ∃ regs events,
        regs.state = (a.object j).regs.state ∧ Sends j regs events a b := by
  have known := tidy.env_isSome left
  unfold sessionActivate
  cases state : (a.object j).regs.state with
  | gnew => exact absurd state left
  | outcoming =>
      rcases sendInitiate_spec (c := c) tidy.housed known with ⟨succeeds, sent⟩
      simp only [succeeds_bind_iff]
      have second : ∀ d, a.sendInitiate c j = .ok d →
          (Succeeds (d.sendTransportInfo c j) ↔ d.Callable j) ∧
            ∀ b, d.sendTransportInfo c j = .ok b → Sends j (d.object j).regs
              (if (d.ownSession j).isSome then [.sent j .transportInfo] else []) d b := by
        intro d result
        rcases sent d result with ⟨_, _, _, sends⟩
        exact sendTransportInfo_spec sends.store.housed (by rw [sends.env_eq]; exact known)
      constructor
      · constructor
        · rintro ⟨d, result, -⟩
          exact succeeds.mp ⟨d, result⟩
        · intro callable
          rcases succeeds.mpr callable with ⟨d, result⟩
          rcases sent d result with ⟨_, _, _, sends⟩
          exact ⟨d, result, (second d result).1.mpr (sends.callable callable)⟩
      · intro b ended
        rcases bind_eq_ok_iff.mp ended with ⟨d, result, informed⟩
        rcases sent d result with ⟨regs, events, same, sends⟩
        have later := (second d result).2 b informed
        rw [sends.object, Function.update_self] at later
        exact ⟨_, _, same.trans state, sends.trans later⟩
  | incoming =>
      rcases sendTransportInfo_spec (c := c) tidy.housed known with ⟨succeeds, sent⟩
      simp only [succeeds_bind_iff]
      have second (d : Agent) (result : a.sendTransportInfo c j = .ok d) :=
        let sends := sent d result
        stateStep_spec (c := c) (j := j) sends.store.housed (by rw [sends.env_eq]; exact known)
      constructor
      · constructor
        · rintro ⟨d, result, -⟩
          exact succeeds.mp ⟨d, result⟩
        · intro callable
          rcases succeeds.mpr callable with ⟨d, result⟩
          refine ⟨d, result, (second d result).1.mpr fun ready => ?_⟩
          refine ⟨(sent d result).callable callable, fun xcs _ => ?_⟩
          have same := (sent d result).object
          rw [Ready, same, Function.update_self] at ready
          rcases waits with empty | quiet
          · rw [same, Function.update_self, empty]
            rfl
          · rw [quiet] at ready
            cases ready.2
      · intro b ended
        rcases bind_eq_ok_iff.mp ended with ⟨d, result, stepped⟩
        have sends := sent d result
        refine ⟨_, _, ?_, sends.trans ((second d result).2 b stepped)⟩
        rw [sends.object, Function.update_self]
        split
        · exact state
        · exact state

/-! ## Handlers -/

/-- The contents of a `transport-info` are for channels that can be opened, and can be sent back
if the element completes what the session waits for. -/
def InformFits (a : Agent) (i : Nat) : Prop :=
  match (a.object i).contents.foldlM (Outline.visitInfo (a.contentSession i))
      (a.outline, (a.object i).regs.remoteCandidate) with
  | none => False
  | some (o, bit) =>
      (a.object i).regs.state = .incoming → (a.object i).regs.pending = true → bit = true →
        a.Callable i ∧ ∀ xcs ∈ a.ownSession i,
          (o.walk (fun _ => some xcs) (fun _ => true) (a.object i).contents).isSome = true

theorem Informs.ownSession_eq (informs : Informs i a b) : b.ownSession i = a.ownSession i := by
  rcases informs with ⟨n, loops⟩
  rw [ownSession, ownSession, loops.sessionOf_eq, loops.env_eq, loops.env_eq]

/-- Whether the node of a peer is there depends on the store and on the attributes. -/
theorem Callable.congr {j : Nat} (store_eq : b.store = a.store)
    (env_eq : ∀ key, (b.object j).env key = (a.object j).env key) :
    b.Callable j ↔ a.Callable j := by
  rw [Callable, Callable, env_eq]
  simp only [store_eq]

theorem Informs.callable_iff (informs : Informs i a b) : b.Callable i ↔ a.Callable i :=
  informs.elim fun _ loops => Callable.congr loops.store (loops.env_eq i)

theorem copyable_iff {j : Nat} : a.Copyable j ↔ a.Callable j ∧ ∀ xcs ∈ a.ownSession j,
    (a.outline.walk (fun _ => some xcs) (fun _ => true) (a.object j).contents).isSome = true :=
  ⟨fun copyable => ⟨copyable.callable, copyable.walks⟩, fun both => ⟨both.1, both.2⟩⟩

theorem succeeds_onTransportInfo {busy : Nat → Prop} (tidy : Tidy busy a) :
    Succeeds (a.onTransportInfo c i) ↔ a.InformFits i := by
  have informs := infoContents_agrees (c := c) (a := a) (i := i) (a.object i).contents
  rw [onTransportInfo, InformFits, succeeds_bind_iff]
  cases result : run (infoContent c i) a (a.object i).contents with
  | error fault =>
      rw [result] at informs
      have stuck := informs.succeeds_iff
      simp only [not_succeeds_error, false_iff, Bool.not_eq_true, Option.isSome_eq_false_iff,
        Option.isNone_iff_eq_none] at stuck
      rw [stuck]
      simp
  | ok b =>
      rw [result] at informs
      rcases informs.of_ok with ⟨foretold, informs⟩
      rw [foretold]
      have tidy' : Tidy busy b := informs.elim fun n loops => tidy.loops loops
      have same : (b.object i).regs.state = (a.object i).regs.state ∧
          (b.object i).regs.pending = (a.object i).regs.pending ∧
            (b.object i).contents = (a.object i).contents := by
        rcases informs with ⟨n, loops⟩
        rw [loops.object, Function.update_self]
        exact ⟨rfl, rfl, rfl⟩
      rw [← same.1, ← same.2.1, ← same.2.2, ← informs.ownSession_eq, ← informs.callable_iff]
      by_cases state : (b.object i).regs.state = .incoming
      · have known := tidy'.env_isSome (j := i) (by rw [state]; simp)
        have steps := (stateStep_spec (c := c) tidy'.housed known).1
        simp only [Except.ok.injEq, exists_eq_left', state, if_true, steps, Ready, copyable_iff,
          and_imp, forall_const]
      · simp [state]

theorem tidy_onTransportInfo {busy : Nat → Prop} (tidy : Tidy busy a)
    (result : a.onTransportInfo c i = .ok b) : Tidy busy b := by
  rcases bind_eq_ok_iff.mp result with ⟨d, looped, stepped⟩
  have informs := infoContents_agrees (c := c) (a := a) (i := i) (a.object i).contents
  rw [looped] at informs
  rcases informs.of_ok.2 with ⟨n, loops⟩
  have tidy' := tidy.loops loops
  split at stepped
  · next state =>
      have known := tidy'.env_isSome (j := i) (by rw [state]; simp)
      apply ((stateStep_spec (c := c) tidy'.housed known).2 b stepped).tidy tidy'
      split
      · rfl
      · rfl
  · cases stepped
    exact tidy'

/-- The contents of a `session-accept` are for channels that can be opened, and their payloads can
be added. -/
def AcceptFits (c : Config) (a : Agent) (i : Nat) : Prop :=
  (a.outline.walk (a.contentSession i) (Content.payloadsFit c) (a.object i).contents).isSome = true
deriving Decidable

theorem onAccept_agrees :
    Agrees outline (fun b => ∃ n, Loops i n (a.object i).regs.remoteCandidate
        (a.setRegs i (a.object i).regs.turnRunning) b)
      (a.outline.walk (a.contentSession i) (Content.payloadsFit c) (a.object i).contents)
      (a.onAccept c i) := by
  have agrees := acceptContents_agrees (c := c) (i := i)
    (a := a.setRegs i (a.object i).regs.turnRunning) (a.object i).contents
  have session : (a.setRegs i (a.object i).regs.turnRunning).contentSession i =
      a.contentSession i := by
    funext chan
    simp [contentSession, sessionOf, setRegs, Content.env, JingleObject.env]
  have bit : ((a.setRegs i (a.object i).regs.turnRunning).object i).regs.remoteCandidate =
      (a.object i).regs.remoteCandidate := by
    simp [setRegs, Regs.turnRunning]
  have contents : ((a.setRegs i (a.object i).regs.turnRunning).object i).contents =
      (a.object i).contents := by
    simp [setRegs]
  rw [session, bit] at agrees
  rw [onAccept, contents]
  exact agrees

theorem tidy_onAccept {busy : Nat → Prop} (tidy : Tidy busy a) (result : a.onAccept c i = .ok b) :
    Tidy busy b := by
  have agrees := onAccept_agrees (c := c) (a := a) (i := i)
  rw [result] at agrees
  rcases agrees.of_ok.2 with ⟨n, loops⟩
  have turned : Tidy busy (a.setRegs i (a.object i).regs.turnRunning) := tidy.setRegs rfl
  exact turned.loops loops

/-- A `session-terminate` gets to its end if the session has been stopped already, or if the node
of the peer is there or can be made, and there is no session to close. -/
def TerminateFits (a : Agent) (i : Nat) : Prop :=
  (a.object i).regs.stopped = true ∨ ∃ jid, (a.object i).env (lit "from") = some jid ∧
    a.store.Hosts jid ∧ a.store.lookup jid (getattr (lit "sid") (a.object i).attrs) = none

/-- Only the close of a session that is not found gets to its end. -/
theorem sessionClose_eq_ok_iff {jid : Text} {sid : Option Text} :
    a.sessionClose (some jid) sid = .ok b ↔ a.store.lookup jid sid = none ∧ a = b := by
  rw [sessionClose]
  cases a.store.lookup jid sid with
  | none => simp
  | some xcs => simp [sessionRemove]

theorem onTerminate_spec {busy : Nat → Prop} (tidy : Tidy busy a) :
    (Succeeds (a.onTerminate c i) ↔ a.TerminateFits i) ∧
      ∀ b, a.onTerminate c i = .ok b → Tidy busy b := by
  simp only [onTerminate, TerminateFits]
  cases stopped : (a.object i).regs.stopped with
  | true =>
      refine ⟨by simp, fun b result => ?_⟩
      cases result
      exact tidy
  | false =>
      have tidy' : Tidy busy (a.setRegs i { (a.object i).regs with stopped := true }) :=
        tidy.setRegs rfl
      simp only [Bool.false_eq_true, if_false, false_or]
      cases known : (a.object i).env (lit "from") with
      | none => exact ⟨by simp [sessionOpen], fun b result => by cases result⟩
      | some jid =>
          by_cases hosts : a.store.Hosts jid
          · rcases sessionOpen_eq (c := c) (getattr (lit "sid") (a.object i).attrs) tidy'.housed
              hosts with ⟨store, opened, kept⟩
            have closes : ∀ b, sessionClose { a.setRegs i { (a.object i).regs with stopped := true }
                  with store := store } (some jid) (getattr (lit "sid") (a.object i).attrs) =
                .ok b ↔ _ :=
              fun b => sessionClose_eq_ok_iff
            rw [kept.lookup] at closes
            rw [opened, ok_bind]
            dsimp only
            constructor
            · constructor
              · rintro ⟨b, closed⟩
                exact ⟨jid, rfl, hosts, ((closes b).mp closed).1⟩
              · rintro ⟨_, same, -, absent⟩
                cases same
                exact ⟨_, (closes _).mpr ⟨absent, rfl⟩⟩
            · intro b closed
              rw [← ((closes b).mp closed).2]
              refine ⟨kept.housed, tidy'.cleared, tidy'.named, fun xcs member => ?_⟩
              exact tidy'.heard xcs (kept.sessions ▸ member)
          · have overflows : (a.setRegs i { (a.object i).regs with stopped := true }).sessionOpen c
                (some jid) (getattr (lit "sid") (a.object i).attrs) false = .error _ :=
              sessionOpen_of_not_hosts hosts
            rw [overflows, error_bind]
            refine ⟨?_, fun b result => by cases result⟩
            simp only [not_succeeds_error, false_iff]
            rintro ⟨_, same, hosts', -⟩
            cases same
            exact hosts hosts'

end Agent

end Xwbot.Jingle
