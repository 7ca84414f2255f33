import Xwbot.Jingle.Dispatch

/-!
# Accepting an incoming session

`session-accept` is sent when the session is pending and a candidate of the peer
has been seen.  The handler of `transport-info` notes the candidates that it
delivers; the handler of `session-initiate` delivers candidates as well, but
does not note them.  `Disciplined` is what the protocol wants of the events of
the elements, one list for each element.
-/

namespace Xwbot.Jingle

open Runs

/-! ## Events of an incoming session -/

/-- What the protocol wants: the session is accepted once, after a candidate of the peer, and at
the end of the first element that delivers one. -/
structure Disciplined (i : Nat) (stanzas : List (List Event)) : Prop where
  once : stanzas.flatten.count (.sent i .sessionAccept) ≤ 1
  later : ∀ before behind, stanzas.flatten = before ++ .sent i .sessionAccept :: behind →
    .candidate i ∈ before
  prompt : ∀ before stanza behind, stanzas = before ++ stanza :: behind →
    .candidate i ∈ stanza → .sent i .sessionAccept ∈ (before ++ [stanza]).flatten

namespace Disciplined

variable {i : Nat} {stanza : List Event} {stanzas : List (List Event)}

theorem nil (i : Nat) : Disciplined i [] where
  once := Nat.zero_le 1
  later before behind split := by
    have empty := congrArg List.length split
    simp at empty
  prompt before stanza behind split := by
    have empty := congrArg List.length split
    simp at empty

/-- An element that neither delivers nor accepts changes nothing. -/
theorem cons_quiet (noCandidate : .candidate i ∉ stanza)
    (noAccept : .sent i .sessionAccept ∉ stanza) (rest : Disciplined i stanzas) :
    Disciplined i (stanza :: stanzas) where
  once := by
    rw [List.flatten_cons, List.count_append, List.count_eq_zero_of_not_mem noAccept, Nat.zero_add]
    exact rest.once
  later before behind split := by
    rw [List.flatten_cons] at split
    rcases List.append_eq_append_iff.mp split with ⟨more, cut, tail⟩ | ⟨more, cut, tail⟩
    · subst cut
      exact List.mem_append_right _ (rest.later more behind tail)
    · cases more with
      | nil =>
          rw [List.nil_append] at tail
          have first := rest.later [] behind tail.symm
          cases first
      | cons event more =>
          cases tail
          exact absurd (by rw [cut]; simp) noAccept
  prompt before other behind split delivers := by
    cases before with
    | nil =>
        cases split
        exact absurd delivers noCandidate
    | cons head before =>
        cases split
        rw [List.cons_append, List.flatten_cons]
        exact List.mem_append_right _ (rest.prompt before other behind rfl delivers)

/-- The first element that delivers a candidate ends with the accept, and no other comes. -/
theorem cons_first {events : List Event} (delivers : .candidate i ∈ events)
    (noAccept : .sent i .sessionAccept ∉ events)
    (done : .sent i .sessionAccept ∉ stanzas.flatten) :
    Disciplined i ((events ++ [.sent i .sessionAccept]) :: stanzas) where
  once := by
    rw [List.flatten_cons, List.count_append, List.count_append,
      List.count_eq_zero_of_not_mem noAccept, List.count_eq_zero_of_not_mem done,
      List.count_singleton_self]
  later before behind split := by
    rw [List.flatten_cons, List.append_assoc, List.singleton_append] at split
    rcases List.append_eq_append_iff.mp split with ⟨more, cut, tail⟩ | ⟨more, cut, tail⟩
    · subst cut
      exact List.mem_append_left _ delivers
    · cases more with
      | nil =>
          rw [List.append_nil] at cut
          rw [← cut]
          exact delivers
      | cons event more =>
          cases tail
          exact absurd (by rw [cut]; simp) noAccept
  prompt before stanza behind split _ := by
    cases before with
    | nil =>
        cases split
        simp
    | cons head before =>
        cases split
        simp

end Disciplined

/-! ## Elements of a session -/

theorem attrMatch_trans {s₁ s₂ s₃ : Option Text} (first : attrMatch s₁ s₂ = true)
    (second : attrMatch s₂ s₃ = true) : attrMatch s₁ s₃ = true := by
  cases s₁ <;> cases s₂ <;> cases s₃ <;> simp_all [attrMatch]
  exact Store.eqText_trans first second

theorem attrMatch_symm {s₁ s₂ : Option Text} (same : attrMatch s₁ s₂ = true) :
    attrMatch s₂ s₁ = true := by
  cases s₁ <;> cases s₂ <;> simp_all [attrMatch]
  exact eqText_symm same

namespace Agent

variable {c : Config} {a b d : Agent} {e : Element} {i : Nat} {jid sid : Text}

/-- The element belongs to the session with a peer and an identifier, is no error report and has
the given action. -/
@[mk_iff]
structure OfSession (jid sid : Text) (action : Action) (a : Agent) (e : Element) : Prop where
  sender : attrMatch (getattr (lit "from") e.iq) (some jid) = true
  ident : attrMatch (getattr (lit "sid") e.attrs) (some sid) = true
  peer : attrMatch (((a.enter e).1.object (a.enter e).2).env (lit "from")) (some jid) = true
  id : attrMatch (getattr (lit "sid") ((a.enter e).1.object (a.enter e).2).attrs) (some sid) = true
  handled : (((a.enter e).1.object (a.enter e).2).env (lit "type")).all
    (fun type => !eqText (lit "error") type) = true
  action : (getattr (lit "action") ((a.enter e).1.object (a.enter e).2).attrs).map getActionType =
    some action

instance (jid sid : Text) (action : Action) (a : Agent) (e : Element) :
    Decidable (OfSession jid sid action a e) :=
  decidable_of_iff' _ (ofSession_iff jid sid action a e)

theorem find_eq_some_iff {x y : Option Text} : a.find x y = some i ↔ i < a.count ∧
    (attrMatch (getattr (lit "from") (a.object i).iq) x = true ∧
      attrMatch (getattr (lit "sid") (a.object i).attrs) y = true) ∧
    ∀ j < i, ¬(attrMatch (getattr (lit "from") (a.object j).iq) x = true ∧
      attrMatch (getattr (lit "sid") (a.object j).attrs) y = true) := by
  rw [find, List.find?_range_eq_some]
  simp only [Bool.and_eq_true, List.mem_range, Bool.not_eq_true', Bool.and_eq_false_iff]
  constructor
  · rintro ⟨here, bound, before⟩
    refine ⟨bound, here, fun j less both => ?_⟩
    have differs := before j less
    rw [both.1, both.2] at differs
    simp at differs
  · rintro ⟨bound, here, before⟩
    refine ⟨here, bound, fun j less => ?_⟩
    by_cases first : attrMatch (getattr (lit "from") (a.object j).iq) x = true
    · exact .inr (by simpa [first] using before j less)
    · exact .inl (by simpa using first)

/-- Objects are found by peers and identifiers up to letter case. -/
theorem find_congr {x x' y y' : Option Text} (same : attrMatch x x' = true)
    (same' : attrMatch y y' = true) : a.find x y = a.find x' y' := by
  rw [find, find]
  congr 1
  funext j
  rw [Bool.eq_iff_iff, Bool.and_eq_true, Bool.and_eq_true]
  constructor
  · rintro ⟨first, second⟩
    exact ⟨attrMatch_trans first same, attrMatch_trans second same'⟩
  · rintro ⟨first, second⟩
    exact ⟨attrMatch_trans first (attrMatch_symm same),
      attrMatch_trans second (attrMatch_symm same')⟩

/-- An object that is changed in place is still found. -/
theorem find_update {x y : Option Text} {o : JingleObject} (found : a.find x y = some i)
    (object_eq : b.object = Function.update a.object i o) (count_eq : b.count = a.count)
    (sender : attrMatch (getattr (lit "from") o.iq) x = true)
    (ident : attrMatch (getattr (lit "sid") o.attrs) y = true) : b.find x y = some i := by
  rcases find_eq_some_iff.mp found with ⟨bound, -, before⟩
  refine find_eq_some_iff.mpr ⟨count_eq ▸ bound, ?_, fun j less => ?_⟩
  · rw [object_eq, Function.update_self]
    exact ⟨sender, ident⟩
  · rw [object_eq, Function.update_of_ne less.ne]
    exact before j less

/-- An incoming session that is open, with its jingle object. -/
structure InSession (jid sid : Text) (i : Nat) (a : Agent) : Prop where
  idle : a.Idle
  found : a.find (some jid) (some sid) = some i
  incoming : (a.object i).regs.state = .incoming
  session : (a.store.lookup jid (some sid)).isSome = true

/-- The bits of `cr0` when a `transport-info` has delivered `n` candidates. -/
structure Informed (n : Nat) (regs regs' : Regs) : Prop where
  state : regs'.state = regs.state
  remoteCandidate : regs'.remoteCandidate = (regs.remoteCandidate || decide (0 < n))
  pending : regs'.pending = (regs.pending && !(regs.remoteCandidate || decide (0 < n)))

/-- The events of a `transport-info` that delivers `n` candidates. -/
def informEvents (i n : Nat) (regs : Regs) : List Event :=
  List.replicate n (.candidate i) ++
    if (regs.pending && (regs.remoteCandidate || decide (0 < n))) = true
      then [.sent i .sessionAccept] else []

/-- The handler delivers some candidates, and completes what the session waits for. -/
theorem onTransportInfo_spec {busy : Nat → Prop} (tidy : Tidy busy a)
    (incoming : (a.object i).regs.state = .incoming) (session : (a.ownSession i).isSome = true)
    (result : a.onTransportInfo c i = .ok b) :
    ∃ n regs, Informed n (a.object i).regs regs ∧
      Sends i regs (informEvents i n (a.object i).regs) a b := by
  rcases bind_eq_ok_iff.mp result with ⟨d, looped, stepped⟩
  have informs := infoContents_agrees (c := c) (a := a) (i := i) (a.object i).contents
  rw [looped] at informs
  have told := informs.of_ok.2
  rcases told with ⟨n, loops⟩
  have own := Informs.ownSession_eq ⟨n, loops⟩
  have tidy' := tidy.loops loops
  have object_eq := congrFun loops.object i
  rw [Function.update_self] at object_eq
  have incoming' : (d.object i).regs.state = .incoming := by
    rw [object_eq]
    exact incoming
  rw [if_pos incoming'] at stepped
  have known := tidy'.env_isSome (j := i) (by rw [incoming']; simp)
  have sends := (stateStep_spec (c := c) tidy'.housed known).2 b stepped
  rw [own, session] at sends
  have first : Sends i (d.object i).regs (List.replicate n (.candidate i)) a d :=
    ⟨by rw [loops.store]; exact .refl tidy.housed, loops.top, loops.listener, loops.count,
      by rw [loops.object, Function.update_self], loops.log⟩
  have ready : d.Ready i ↔ ((a.object i).regs.pending &&
      ((a.object i).regs.remoteCandidate || decide (0 < n))) = true := by
    rw [Ready, object_eq, Bool.and_eq_true]
  refine ⟨n, if d.Ready i then (d.object i).regs.turnRunning else (d.object i).regs, ?_, ?_⟩
  · rw [object_eq]
    by_cases here : d.Ready i
    · rw [if_pos here]
      rw [ready, Bool.and_eq_true] at here
      exact ⟨rfl, rfl, by simp only [Regs.turnRunning, here.1, here.2]; rfl⟩
    · rw [if_neg here]
      rw [ready] at here
      refine ⟨rfl, rfl, ?_⟩
      cases pending : (a.object i).regs.pending with
      | false => rfl
      | true =>
          rw [pending, Bool.true_and, Bool.not_eq_true] at here
          rw [here]
          rfl
  · have both := first.trans sends
    simp only [and_true, ready] at both
    simpa only [informEvents, ready] using both

/-! ## A transport-info of the session -/

theorem OfSession.find_eq {action : Action} (ours : OfSession jid sid action a e) :
    a.find (getattr (lit "from") e.iq) (getattr (lit "sid") e.attrs) =
      a.find (some jid) (some sid) :=
  find_congr ours.sender ours.ident

/-- A matching peer and identifier lead to the session. -/
theorem sessionOf_congr {x y : Option Text} (peer : attrMatch x (some jid) = true)
    (id : attrMatch y (some sid) = true) :
    a.sessionOf x y = (a.store.lookup jid (some sid)).map Session.addr := by
  cases x with
  | none => cases peer
  | some x =>
      cases y with
      | none => cases id
      | some y =>
          rw [sessionOf, Option.bind_some, Store.lookup_congr peer id]

theorem env_of_attrs {o : JingleObject} {key : Text} {x : Text}
    (own : attrMatch (getattr key o.attrs) (some x) = true) : o.env key = getattr key o.attrs := by
  cases here : getattr key o.attrs with
  | none =>
      rw [here] at own
      cases own
  | some y =>
      rw [JingleObject.env, here]
      rfl

/-- What a received element comes to when it is handled. -/
theorem receive_eq_ok {action : Action} (ours : OfSession jid sid action a e)
    (result : a.receive c e = .ok b) : ∃ d,
      ((a.enter e).1.note (.result (a.enter e).2)).handle c (a.enter e).2 action = .ok d ∧
        b = d.clear (a.enter e).2 := by
  rcases Option.map_eq_some_iff.mp ours.action with ⟨named, read, type⟩
  have handled := ours.handled
  rw [receive, parseCommit] at result
  simp only [read, type] at result
  split at result
  · cases result
  · next given =>
      rw [given] at handled
      simp only [Option.all_some, Bool.not_eq_true'] at handled
      rw [handled] at result
      simp only [Bool.false_eq_true, if_false] at result
      rcases bind_eq_ok_iff.mp result with ⟨d, runs, cleared⟩
      cases cleared
      exact ⟨d, runs, rfl⟩

/-- An element whose object is there. -/
theorem enter_of_find
    (found : a.find (getattr (lit "from") e.iq) (getattr (lit "sid") e.attrs) = some i) :
    ∃ o, a.enter e = ({ a with object := Function.update a.object i o }, i) ∧
      o.regs = (a.object i).regs ∧ o.iq = e.iq := by
  rw [enter, found]
  exact ⟨_, rfl, rfl, rfl⟩

/-- A `transport-info` of the session leaves the session open. -/
theorem InSession.inform (inside : InSession jid sid i a)
    (ours : OfSession jid sid .transportInfo a e) (result : a.receive c e = .ok b) :
    InSession jid sid i b ∧ ∃ n, Informed n (a.object i).regs (b.object i).regs ∧
      b.log = a.log ++ .result i :: informEvents i n (a.object i).regs := by
  have idle' := (receive_spec inside.idle e).2 b result
  have entered := enter_spec inside.idle e
  rcases enter_of_find (ours.find_eq.trans inside.found) with ⟨o, enters, regs_eq, iq_eq⟩
  rcases receive_eq_ok ours result with ⟨d, handled, rfl⟩
  rcases ours with ⟨sender, ident, peer, id, -, -⟩
  simp only [enters, Function.update_self] at entered handled peer id idle' ⊢
  let f : Agent := { a with object := Function.update a.object i o }
  have object_eq : (f.note (.result i)).object i = o := by
    simp only [f, note, Function.update_self]
  have session : ((f.note (.result i)).ownSession i).isSome = true := by
    rw [ownSession, object_eq, env_of_attrs id, sessionOf_congr peer id, Option.isSome_map]
    exact inside.session
  have incoming : ((f.note (.result i)).object i).regs.state = .incoming := by
    rw [object_eq, regs_eq]
    exact inside.incoming
  rcases onTransportInfo_spec (entered.1.note (.result i)) incoming session handled with
    ⟨n, regs, informed, sends⟩
  rw [object_eq, regs_eq] at informed sends
  have after : d.object = Function.update a.object i { o with regs := regs } := by
    rw [sends.object, object_eq]
    exact Function.update_idem _ _ _
  have after' := congrFun after i
  rw [Function.update_self] at after'
  constructor
  · refine ⟨idle', ?_, ?_, ?_⟩
    · refine find_update (o := { o with regs := regs, contents := [] }) inside.found ?_
        sends.count ?_ id
      · rw [clear, after']
        exact (congrArg (Function.update · i _) after).trans (Function.update_idem _ _ _)
      · rw [iq_eq]
        exact sender
    · simp only [clear, Function.update_self, after', informed.state]
      exact inside.incoming
    · exact (congrArg Option.isSome (sends.store.lookup _ _)).trans inside.session
  · refine ⟨n, ?_, ?_⟩
    · simpa only [clear, Function.update_self, after'] using informed
    · rw [clear, sends.log]
      exact List.append_assoc _ _ _

/-! ## The session-initiate -/

/-- A candidate of the `session-initiate` reaches a transport: what the two loops foretell for a
session without channels. -/
def Announces (c : Config) (a : Agent) (e : Element) : Prop :=
  ((e.contents.foldlM (Outline.visitPending a.top)
      (Function.update a.outline a.top [], true)).bind fun s =>
    e.contents.foldlM (Outline.visitInitiate c a.top) (s.1, false)).any Prod.snd = true
deriving Decidable

/-- What the handler of a `session-initiate` leaves of a new object `o`: an incoming session with
the peer `x` that waits for candidates, and the candidates that it delivers itself. -/
structure Opened (c : Config) (x y : Text) (o : JingleObject) (a d : Agent) : Prop where
  lookup : ∀ jid sid, d.store.lookup jid sid =
    (a.store.xSessionOpen x (some y) true (c.random a.top) a.top).1.lookup jid sid
  count : d.count = a.count + 1
  object : ∃ pending, d.object = Function.update a.object a.count
    { o with pendingChannels := pending, regs := Regs.turnPending { state := .incoming } }
  log : ∃ n events, .sent a.count .sessionAccept ∉ events ∧ .candidate a.count ∉ events ∧
    d.log = a.log ++ (List.replicate n (.candidate a.count) ++ events) ∧
    (((o.contents.foldlM (Outline.visitPending a.top)
        (Function.update a.outline a.top [], true)).bind fun s =>
      o.contents.foldlM (Outline.visitInitiate c a.top) (s.1, false)).any Prod.snd = true ↔ 0 < n)

/-- The events of the elements that are handled, one list for each. -/
def logs (c : Config) : Agent → List Element → List (List Event)
  | _, [] => []
  | a, e :: rest =>
      match a.receive c e with
      | .ok b => b.log.drop a.log.length :: logs c b rest
      | .error _ => []

theorem logs_cons {rest : List Element} {stanza : List Event} (result : a.receive c e = .ok b)
    (log : b.log = a.log ++ stanza) : logs c a (e :: rest) = stanza :: logs c b rest := by
  rw [logs, result]
  simp only [log, List.drop_left]

/-- Nothing is accepted when nothing is pending. -/
theorem InSession.done (inside : InSession jid sid i a) {infos : List Element}
    (done : (a.object i).regs.pending = false)
    (ours : Along (receive c) (OfSession jid sid .transportInfo) a infos) :
    .sent i .sessionAccept ∉ (logs c a infos).flatten := by
  induction infos generalizing a with
  | nil => exact List.not_mem_nil
  | cons e rest ih =>
      cases result : a.receive c e with
      | error fault =>
          rw [logs, result]
          exact List.not_mem_nil
      | ok b =>
          rcases inside.inform ours.1 result with ⟨inside', n, informed, log⟩
          have done' : (b.object i).regs.pending = false := by
            rw [informed.pending, done, Bool.false_and]
          have later := ih inside' done' (ours.2 b result)
          rw [logs_cons result log, List.flatten_cons, informEvents, done]
          simpa using later

/-- A session that waits is accepted with the first candidate that a `transport-info` delivers. -/
theorem InSession.waiting (inside : InSession jid sid i a) {infos : List Element}
    (pending : (a.object i).regs.pending = true)
    (waits : (a.object i).regs.remoteCandidate = false)
    (ours : Along (receive c) (OfSession jid sid .transportInfo) a infos) :
    Disciplined i (logs c a infos) := by
  induction infos generalizing a with
  | nil => exact .nil i
  | cons e rest ih =>
      cases result : a.receive c e with
      | error fault =>
          rw [logs, result]
          exact .nil i
      | ok b =>
          rcases inside.inform ours.1 result with ⟨inside', n, informed, log⟩
          have pending' := informed.pending
          have remote' := informed.remoteCandidate
          rw [logs_cons result log, informEvents]
          rw [pending, waits, Bool.false_or, Bool.true_and] at pending' ⊢
          rw [waits, Bool.false_or] at remote'
          cases n with
          | zero =>
              refine .cons_quiet (by simp) (by simp) (ih inside' ?_ ?_ (ours.2 b result))
              · rw [pending']
                rfl
              · rw [remote']
                rfl
          | succ n =>
              have done := inside'.done (by rw [pending']; simp) (ours.2 b result)
              have first := @Disciplined.cons_first _ _
                (.result i :: List.replicate (n + 1) (.candidate i)) (by simp) (by simp) done
              simpa using first

/-- A transport class is registered. -/
def equipped : Config :=
  ⟨fun _ _ => true, fun _ _ => false, fun _ => lit "0"⟩

/-- The peer offers a channel, with candidates. -/
def offer (action : Text) (candidates : List AttrList) : Element where
  iq := [(lit "from", lit "peer"), (lit "type", lit "set")]
  outer := []
  attrs := [(lit "sid", lit "1"), (lit "action", action)]
  contents :=
    [⟨[(lit "name", lit "audio")],
      some ⟨[(lit "xmlns", lit "urn:xmpp:jingle:transports:ice-udp:1")], candidates⟩,
      some ⟨[], []⟩⟩]

end Agent

end Xwbot.Jingle
