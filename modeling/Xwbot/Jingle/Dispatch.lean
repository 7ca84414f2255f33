import Xwbot.Jingle.Initiate

/-!
# Dispatch of Jingle elements

`Acceptable` says of an element, in the state in which it arrives, that its
handler gets to its end.  A sequence of elements is handled exactly if every
element of it is acceptable when its turn comes; otherwise the program runs into
`BUG()`, uses NULL or what was freed, or writes behind a name.
-/

namespace Xwbot.Jingle

open Runs

namespace Agent

variable {c : Config} {a b : Agent} {e : Element} {i : Nat}

/-! ## Elements -/

/-- What the handler of an action needs. -/
def Fits (c : Config) (a : Agent) (i : Nat) : Action → Prop
  | .sessionAccept => a.AcceptFits c i
  | .sessionInitiate => a.InitiateFits c i
  | .sessionTerminate => a.TerminateFits i
  | .transportInfo => a.InformFits i
  | _ => True

/-- The agent when an element has been parsed and answered. -/
def answered (a : Agent) (e : Element) : Agent :=
  (a.enter e).1.note (.result (a.enter e).2)

/-- An element is acceptable if it has a type and, unless that is `error`, an action that fits. -/
def Acceptable (c : Config) (a : Agent) (e : Element) : Prop :=
  ∃ type, (((a.enter e).1.object (a.enter e).2).env (lit "type")) = some type ∧
    (eqText (lit "error") type = true ∨
      ∃ action, getattr (lit "action") ((a.enter e).1.object (a.enter e).2).attrs = some action ∧
        Fits c (a.answered e) (a.enter e).2 (getActionType action))

/-- Between two elements no object is busy. -/
abbrev Idle (a : Agent) : Prop :=
  Tidy (fun _ => False) a

theorem enter_spec (idle : a.Idle) (e : Element) :
    Tidy (· = (a.enter e).2) (a.enter e).1 ∧ (a.enter e).2 < (a.enter e).1.count := by
  unfold enter
  cases found : a.find (getattr (lit "from") e.iq) (getattr (lit "sid") e.attrs) with
  | some i =>
      rcases of_find found with ⟨bound, same, -⟩
      have known := isSome_of_attrMatch same
      refine ⟨⟨idle.housed, fun j other => ?_, fun j => ?_, fun xcs member => ?_⟩, bound⟩
      · simpa [other] using idle.cleared j id
      · by_cases here : j = i
        · subst here
          simpa [← known] using idle.named j
        · simpa [here] using idle.named j
      · rcases idle.heard xcs member with ⟨bound', left⟩
        refine ⟨bound', ?_⟩
        by_cases here : a.listener xcs.addr = i
        · simpa [here] using left
        · simpa [here] using left
  | none =>
      simp only [create]
      refine ⟨⟨idle.housed, fun j other => ?_, fun j => ?_, fun xcs member => ?_⟩,
        Nat.lt_succ_self _⟩
      · simpa [other] using idle.cleared j id
      · by_cases here : j = a.count
        · simp [here]
        · simpa [here] using idle.named j
      · rcases idle.heard xcs member with ⟨bound', left⟩
        refine ⟨bound'.trans (Nat.lt_succ_self _), ?_⟩
        simpa [bound'.ne] using left

theorem idle_clear (tidy : Tidy (· = i) a) : (a.clear i).Idle := by
  refine ⟨tidy.housed, fun j _ => ?_, fun j => ?_, fun xcs member => ?_⟩
  · by_cases here : j = i
    · simp [clear, here]
    · simpa [clear, here] using tidy.cleared j here
  · by_cases here : j = i
    · subst here
      simpa [clear] using tidy.named j
    · simpa [clear, here] using tidy.named j
  · rcases tidy.heard xcs member with ⟨bound, left⟩
    refine ⟨bound, ?_⟩
    by_cases here : a.listener xcs.addr = i
    · simpa [clear, here] using left
    · simpa [clear, here] using left

theorem handle_spec (tidy : Tidy (· = i) a) (present : i < a.count) (action : Action) :
    (Succeeds (a.handle c i action) ↔ Fits c a i action) ∧
      ∀ b, a.handle c i action = .ok b → Tidy (· = i) b := by
  have ignored : (Succeeds (.ok a : Except Crash Agent) ↔ True) ∧
      ∀ b, (.ok a : Except Crash Agent) = .ok b → Tidy (· = i) b := by
    refine ⟨by simp, fun b result => ?_⟩
    cases result
    exact tidy
  cases action with
  | sessionAccept => exact ⟨onAccept_agrees.succeeds_iff, fun b => tidy_onAccept tidy⟩
  | sessionInitiate => exact onInitiate_spec tidy present
  | sessionTerminate => exact onTerminate_spec tidy
  | transportInfo => exact ⟨succeeds_onTransportInfo tidy, fun b => tidy_onTransportInfo tidy⟩
  | _ => exact ignored

theorem receive_spec (idle : a.Idle) (e : Element) :
    (Succeeds (a.receive c e) ↔ a.Acceptable c e) ∧ ∀ b, a.receive c e = .ok b → b.Idle := by
  rcases enter_spec idle e with ⟨tidy, present⟩
  simp only [receive, parseCommit, Acceptable, answered]
  generalize (a.enter e).2 = i at *
  generalize (a.enter e).1 = d at *
  cases given : (d.object i).env (lit "type") with
  | none => exact ⟨by simp, fun b result => by cases result⟩
  | some type =>
      by_cases error : eqText (lit "error") type = true
      · simp only [error, if_true]
        refine ⟨⟨fun _ => ⟨type, rfl, .inl error⟩, fun _ => succeeds_ok _⟩, fun b result => ?_⟩
        cases result
        exact idle_clear tidy
      · simp only [error, if_false, Bool.false_eq_true]
        cases read : getattr (lit "action") (d.object i).attrs with
        | none => exact ⟨by simp [error], fun b result => by cases result⟩
        | some action =>
            have noted : Tidy (· = i) (d.note (.result i)) := tidy.note _
            rcases handle_spec (c := c) noted present (getActionType action) with
              ⟨succeeds, kept⟩
            constructor
            · rw [succeeds_bind_iff]
              constructor
              · rintro ⟨b, result, -⟩
                exact ⟨type, rfl, .inr ⟨action, rfl, succeeds.mp ⟨b, result⟩⟩⟩
              · rintro ⟨_, same, impossible | ⟨_, same', fits⟩⟩
                · cases same
                  exact absurd impossible error
                · cases same'
                  rcases succeeds.mpr fits with ⟨b, result⟩
                  exact ⟨b, result, succeeds_ok _⟩
            · intro b ended
              rcases bind_eq_ok_iff.mp ended with ⟨d', result, cleared⟩
              cases cleared
              exact idle_clear (kept d' result)

/-! ## Sequences of elements -/

/-- A `transport-info` without a session. -/
def early : Element where
  iq := [(lit "from", lit "peer"), (lit "type", lit "set")]
  outer := []
  attrs := [(lit "sid", lit "1"), (lit "action", lit "transport-info")]
  contents := [⟨[(lit "name", lit "audio")], some ⟨[], []⟩, none⟩]

end Agent

end Xwbot.Jingle
