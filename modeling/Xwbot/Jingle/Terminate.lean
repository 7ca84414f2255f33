import Xwbot.Jingle.Core

/-!
# Ending a Jingle session

A session is ended by the peer, whose `session-terminate` closes it, or by
`x_session_close`.  Closing tells the jingle object that is subscribed to the
session, and that sends a `session-terminate` of its own unless the stopped bit
is set.  `Ends` is what a step does to the bit and to the number of elements
sent; a received element is `Quiet`, since it sets the bit before it closes.
Both are said of what a step comes to, also where it ends in a fault.
-/

namespace Xwbot.Jingle

open Runs

namespace Agent

/-- The number of `session-terminate` elements that the object has sent. -/
def terminates (a : Agent) (i : Nat) : Nat :=
  a.log.count (.sent i .sessionTerminate)

/-- The stopped bit of `cr0`. -/
def stopped (a : Agent) (i : Nat) : Bool :=
  (a.object i).regs.stopped

/-- A step that sends no `session-terminate` and does not clear the bit. -/
structure Quiet (i : Nat) (a b : Agent) : Prop where
  count_le : a.count ≤ b.count
  still : a.stopped i = true → b.stopped i = true
  terminates_eq : b.terminates i = a.terminates i

/-- A step towards the end of a session: nothing is sent when the bit is set, and whatever is
sent sets it. -/
structure Ends (i : Nat) (a b : Agent) : Prop where
  count_le : a.count ≤ b.count
  quiet : a.stopped i = true → Quiet i a b
  sent : b.terminates i = a.terminates i ∨
    b.terminates i = a.terminates i + 1 ∧ b.stopped i = true

variable {c : Config} {a b d : Agent} {i : Nat}

theorem Quiet.refl (i : Nat) (a : Agent) : Quiet i a a :=
  ⟨le_rfl, id, rfl⟩

theorem Quiet.trans (first : Quiet i a b) (second : Quiet i b d) : Quiet i a d where
  count_le := first.count_le.trans second.count_le
  still := second.still ∘ first.still
  terminates_eq := second.terminates_eq.trans first.terminates_eq

theorem Quiet.ends (quiet : Quiet i a b) : Ends i a b :=
  ⟨quiet.count_le, fun _ => quiet, .inl quiet.terminates_eq⟩

theorem Ends.trans (first : Ends i a b) (second : Ends i b d) : Ends i a d where
  count_le := first.count_le.trans second.count_le
  quiet already := by
    have before := first.quiet already
    exact before.trans (second.quiet (before.still already))
  sent := by
    rcases first.sent with same | ⟨more, stops⟩
    · rw [← same]
      exact second.sent
    · have after := second.quiet stops
      exact .inr ⟨by rw [after.terminates_eq, more], after.still stops⟩

theorem Ends.terminates_le (ends : Ends i a b) : b.terminates i ≤ a.terminates i + 1 := by
  rcases ends.sent with same | ⟨more, -⟩
  · rw [same]
    exact Nat.le_succ _
  · rw [more]

/-! ## The operations -/

/-- What the agent has come to, at the end or at the fault that was in the way. -/
def reached : Except Crash Agent → Agent
  | .ok b => b
  | .error crash => crash.agent

theorem lands_iff_reached {p : Agent → Prop} {x : Except Crash Agent} :
    Lands p (fun crash => p crash.agent) x ↔ p (reached x) := by
  cases x with
  | ok b => rfl
  | error crash => rfl

/-- A session that cannot be opened leaves the agent as it was. -/
theorem agent_of_sessionOpen {jid sid : Option Text} {creat : Bool} {crash : Crash}
    (stuck : a.sessionOpen c jid sid creat = .error crash) : crash.agent = a := by
  cases jid with
  | none =>
      cases stuck
      rfl
  | some jid =>
      rw [Agent.sessionOpen] at stuck
      split at stuck
      · cases stuck
      · cases stuck
        rfl

theorem Quiet.note {event : Event} (other : event ≠ .sent i .sessionTerminate) :
    Quiet i a (a.note event) where
  count_le := le_rfl
  still := id
  terminates_eq := by simp [terminates, Agent.note, other]

/-- What `session-destroy` does to the object `i` when it is delivered to `j`. -/
theorem Ends.sessionDestroy (j : Nat) : Ends i a (a.sessionDestroy j) := by
  rw [Agent.sessionDestroy]
  split
  · exact (Quiet.refl i a).ends
  · next running =>
      by_cases same : i = j
      · subst same
        refine ⟨le_rfl, fun already => absurd already running, .inr ⟨?_, ?_⟩⟩
        · simp [terminates, Agent.note, setRegs]
        · simp [stopped, Agent.note, setRegs]
      · refine Quiet.ends ⟨le_rfl, fun already => ?_, ?_⟩
        · simpa [stopped, Agent.note, setRegs, same] using already
        · simp [terminates, Agent.note, setRegs, Ne.symm same]

theorem Ends.sessionClose (jid sid : Option Text) :
    Ends i a (reached (a.sessionClose jid sid)) := by
  cases jid with
  | none => exact (Quiet.refl i a).ends
  | some jid =>
      rw [Agent.sessionClose]
      cases a.store.lookup jid sid with
      | none => exact (Quiet.refl i a).ends
      | some xcs => exact .sessionDestroy _

/-- `session-terminate` sets the bit before the session is closed. -/
theorem Quiet.onTerminate (c : Config) (i : Nat) (a : Agent) :
    Quiet i a (reached (a.onTerminate c i)) ∧
      ∀ b, a.onTerminate c i = .ok b → b.stopped i = true := by
  rw [Agent.onTerminate]
  dsimp only
  split
  · next already =>
      refine ⟨.refl i a, fun b result => ?_⟩
      cases result
      exact already
  · have stops : (a.setRegs i { (a.object i).regs with stopped := true }).stopped i = true := by
      simp [stopped, setRegs]
    have sets : Quiet i a (a.setRegs i { (a.object i).regs with stopped := true }) :=
      ⟨le_rfl, fun _ => stops, rfl⟩
    cases opens : (a.setRegs i { (a.object i).regs with stopped := true }).sessionOpen c
        ((a.object i).env (lit "from")) (getattr (lit "sid") (a.object i).attrs) false with
    | error crash =>
        have here := agent_of_sessionOpen opens
        refine ⟨?_, fun b result => by cases result⟩
        rw [error_bind, reached, here]
        exact sets
    | ok opened =>
        rcases opened with ⟨d, xcs⟩
        rcases eq_of_sessionOpen opens with ⟨store, same⟩
        have opened : Quiet i a d := by
          rw [same]
          exact ⟨le_rfl, sets.still, sets.terminates_eq⟩
        have stops' : d.stopped i = true := by
          rw [same]
          exact stops
        have later := (Ends.sessionClose (i := i) (a := d) ((a.object i).env (lit "from"))
          (getattr (lit "sid") (a.object i).attrs)).quiet stops'
        refine ⟨opened.trans later, fun b result => ?_⟩
        rw [ok_bind] at result
        rw [result] at later
        exact later.still stops'

theorem Quiet.clear : Quiet i a (a.clear i) where
  count_le := le_rfl
  still already := by simpa [stopped, Agent.clear] using already
  terminates_eq := rfl

/-- The object that an element is parsed into keeps its registers if it is there already. -/
theorem Quiet.enter {e : Element} (present : i < a.count) (ours : (a.enter e).2 = i) :
    Quiet i a (a.enter e).1 := by
  rw [Agent.enter] at ours ⊢
  split at ours
  · next j found =>
      subst ours
      exact ⟨le_rfl, fun already => by simpa [stopped] using already, rfl⟩
  · exact absurd present (ours ▸ lt_irrefl _)

end Agent

/-! ## Runs -/

/-- What ends the session of a jingle object. -/
inductive Ending where
  /-- A call of `x_session_close`. -/
  | close (jid sid : Option Text)
  /-- A received element. -/
  | element (e : Element)

namespace Ending

open Agent

/-- A step of a run. -/
def step (c : Config) (a : Agent) : Ending → Except Crash Agent
  | close jid sid => a.sessionClose jid sid
  | element e => a.receive c e

/-- A received element is a `session-terminate` for the object. -/
def IsTerminate (i : Nat) (a : Agent) (e : Element) : Prop :=
  (a.enter e).2 = i ∧
    (getattr (lit "action") ((a.enter e).1.object i).attrs).map getActionType =
      some .sessionTerminate
deriving Decidable

/-- Sessions are closed, and the elements are terminates for the object. -/
def Ours (i : Nat) (a : Agent) : Ending → Prop
  | close _ _ => True
  | element e => IsTerminate i a e

instance (i : Nat) (a : Agent) : ∀ event, Decidable (Ours i a event)
  | close _ _ => .isTrue trivial
  | element e => inferInstanceAs (Decidable (IsTerminate i a e))

/-- The element does not report an error, so it is handled. -/
def Handled (i : Nat) (a : Agent) (e : Element) : Prop :=
  (((a.enter e).1.object i).env (lit "type")).all (fun type => !eqText (lit "error") type) = true
deriving Decidable

/-- No session is closed here. -/
def Remote (events : List Ending) : Prop :=
  ∀ jid sid, close jid sid ∉ events

variable {c : Config} {i : Nat} {a b : Agent} {events : List Ending}

theorem IsTerminate.quiet {e : Element} (present : i < a.count) (terminate : IsTerminate i a e) :
    Quiet i a (reached (a.receive c e)) ∧
      ∀ b, a.receive c e = .ok b → Handled i a e → b.stopped i = true := by
  rcases terminate with ⟨same, terminate⟩
  rcases Option.map_eq_some_iff.mp terminate with ⟨action, read, terminate⟩
  have entered := Quiet.enter present same
  rw [Agent.receive, same, Agent.parseCommit]
  simp only [read, terminate, Agent.handle]
  cases given : ((a.enter e).1.object i).env (lit "type") with
  | none => exact ⟨entered, fun b result => by cases result⟩
  | some type =>
      by_cases error : eqText (lit "error") type = true
      · simp only [error, if_true]
        refine ⟨entered.trans .clear, fun b _ handled => ?_⟩
        simp [Handled, given, error] at handled
      · simp only [error, Bool.false_eq_true, if_false]
        have answered : Quiet i a ((a.enter e).1.note (.result i)) :=
          entered.trans (.note (by simp))
        rcases Quiet.onTerminate c i ((a.enter e).1.note (.result i)) with ⟨quiet, stops⟩
        cases ended : ((a.enter e).1.note (.result i)).onTerminate c i with
        | error crash =>
            rw [ended] at quiet
            exact ⟨answered.trans quiet, fun b result => by cases result⟩
        | ok d =>
            rw [ended] at quiet
            refine ⟨answered.trans (quiet.trans .clear), fun b result _ => ?_⟩
            cases result
            exact Quiet.clear.still (stops d ended)

theorem Ours.ends {event : Ending} (present : i < a.count) (ours : Ours i a event) :
    Ends i a (reached (step c a event)) := by
  cases event with
  | close jid sid => exact .sessionClose jid sid
  | element e => exact (IsTerminate.quiet present ours).1.ends

/-- A whole run is a step towards the end of the session. -/
theorem ends_of_run (present : i < a.count) (ours : Along (step c) (Ours i) a events) :
    Ends i a (reached (run (step c) a events)) := by
  apply lands_iff_reached.mp
  apply ours.lands _ (Quiet.refl i a).ends
  intro b event ends ours
  apply lands_iff_reached.mpr
  exact ends.trans (ours.ends (present.trans_le ends.count_le))

/-- Before the first local close nothing is sent. -/
theorem quiet_of_run (present : i < a.count) (ours : Along (step c) (Ours i) a events)
    (remote : Remote events) (result : run (step c) a events = .ok b) : Quiet i a b := by
  induction events generalizing a with
  | nil =>
      cases result
      exact .refl i _
  | cons event rest ih =>
      rcases bind_eq_ok_iff.mp result with ⟨middle, first, later⟩
      cases event with
      | close jid sid => exact absurd List.mem_cons_self (remote jid sid)
      | element e =>
          have quiet : Quiet i a (reached (a.receive c e)) := (IsTerminate.quiet present ours.1).1
          rw [show a.receive c e = .ok middle from first] at quiet
          refine quiet.trans (ih (present.trans_le quiet.count_le) (ours.2 middle first) ?_ later)
          exact fun jid sid member => remote jid sid (List.mem_cons_of_mem _ member)

/-- A terminate that is handled before the first local close is the last that happens to the
session. -/
theorem quiet_of_handled {e : Element} {after : List Ending} (present : i < a.count)
    (ours : Along (step c) (Ours i) a (.element e :: after)) (handled : Handled i a e) :
    Quiet i a (reached (run (step c) a (.element e :: after))) := by
  rcases ours with ⟨terminate, later⟩
  rcases IsTerminate.quiet (c := c) present terminate with ⟨quiet, stops⟩
  rw [run_cons]
  cases first : step c a (.element e) with
  | error crash =>
      rw [show a.receive c e = .error crash from first] at quiet
      exact quiet
  | ok middle =>
      rw [show a.receive c e = .ok middle from first] at quiet
      have ends := ends_of_run (present.trans_le quiet.count_le) (later middle first)
      exact quiet.trans (ends.quiet (stops middle first handled))

/-- **Terminating once.**  In every run of local closes and received terminates, up to its end or
to the fault that ends it, at most one `session-terminate` is sent, and none when a terminate is
handled before the first local close. -/
theorem terminates_once (present : i < a.count) (ours : Along (step c) (Ours i) a events) :
    (reached (run (step c) a events)).terminates i ≤ a.terminates i + 1 ∧
      ∀ before e after middle, events = before ++ .element e :: after → Remote before →
        run (step c) a before = .ok middle → Handled i middle e →
          (reached (run (step c) a events)).terminates i = a.terminates i := by
  constructor
  · exact (ends_of_run present ours).terminates_le
  · rintro before e after middle rfl remote result handled
    rcases along_append.mp ours with ⟨ours, later⟩
    have quiet := quiet_of_run present ours remote result
    rw [run_append, result]
    have behind := quiet_of_handled (present.trans_le quiet.count_le) (later middle result) handled
    exact (quiet.trans behind).terminates_eq

/-- The peer opens a session without contents. -/
def call : Element where
  iq := [(lit "from", lit "peer"), (lit "type", lit "set")]
  outer := []
  attrs := [(lit "sid", lit "1"), (lit "action", lit "session-initiate")]
  contents := []

/-- The peer ends it. -/
def hangup : Element :=
  { call with attrs := [(lit "sid", lit "1"), (lit "action", lit "session-terminate")] }

/-- No class is registered. -/
def bare : Config :=
  ⟨fun _ _ => false, fun _ _ => false, fun _ => lit "0"⟩

/-- The peer reports an error with it. -/
def refusal : Element :=
  { hangup with iq := [(lit "from", lit "peer"), (lit "type", lit "error")] }

theorem terminates_once_hangup : ∃ a, run (Agent.receive bare) .start [call] = .ok a ∧
    (reached (run (step bare) a [.close (lit "else") (lit "1"), .close (lit "peer") (lit "1"),
      .element hangup])).terminates 0 ≤ a.terminates 0 + 1 ∧
    (reached (run (step bare) a [.element refusal, .element hangup,
      .close (lit "peer") (lit "1")])).terminates 0 = a.terminates 0 := by
  have lands : Lands (fun a => 0 < a.count ∧
      Along (step bare) (Ours 0) a
        [.close (lit "else") (lit "1"), .close (lit "peer") (lit "1"), .element hangup] ∧
      Along (step bare) (Ours 0) a
        [.element refusal, .element hangup, .close (lit "peer") (lit "1")] ∧
      Lands (Handled 0 · hangup) (fun _ => False) (run (step bare) a [.element refusal]))
      (fun _ => False) (run (Agent.receive bare) .start [call]) := by
    decide +kernel
  rcases lands_false_iff.mp lands with ⟨a, opened, present, closes, ends, refused⟩
  rcases lands_false_iff.mp refused with ⟨middle, result, handled⟩
  refine ⟨a, opened, (terminates_once present closes).1, ?_⟩
  apply (terminates_once present ends).2 [.element refusal] hangup _ middle rfl _ result handled
  intro jid sid member
  cases List.mem_singleton.mp member

end Ending

end Xwbot.Jingle
