import Mathlib

/-!
# Machines that answer

A machine takes a step for each input and gives an answer, or it fails.  An abstract machine says
what the answers are to be and when the machine may fail.
-/

namespace Xwbot.Machines

universe u v w

variable {σ α β : Type u} {τ : Type u} {ε : Type w}

/-- The answers to inputs, one after the other. -/
def answers (step : σ → α → Except ε (σ × β)) : σ → List α → Except ε (List β)
  | _, [] => .ok []
  | s, a :: rest => do
      let (s', b) ← step s a
      let bs ← answers step s' rest
      .ok (b :: bs)

/-- The answers of a machine that does not fail. -/
def answersOf (step : τ → α → τ × β) : τ → List α → List β
  | _, [] => []
  | t, a :: rest => (step t a).2 :: answersOf step (step t a).1 rest

/-- A machine that does not fail has all its answers. -/
theorem answers_ok (step : τ → α → τ × β) (t : τ) (l : List α) :
    answers (fun t a => (.ok (step t a) : Except ε (τ × β))) t l = .ok (answersOf step t l) := by
  induction l generalizing t with
  | nil => rfl
  | cons a rest ih =>
      change (answers _ (step t a).1 rest >>= fun bs => _) = _
      rw [ih]
      rfl

/-- What a step of a machine is to a step of the abstract one. -/
inductive Matches (related : σ → τ → Prop) : Except ε (σ × β) → Except ε (τ × β) → Prop
  | ok {s : σ} {t : τ} (b : β) (holds : related s t) : Matches related (.ok (s, b)) (.ok (t, b))
  | error (e : ε) : Matches related (.error e) (.error e)

/-- Each step gives the answer of the abstract machine or fails with it, and the states stay
related. -/
def Simulates (related : σ → τ → Prop) (step : σ → α → Except ε (σ × β))
    (abstract : τ → α → Except ε (τ × β)) : Prop :=
  ∀ s t a, related s t → Matches related (step s a) (abstract t a)

variable {related : σ → τ → Prop} {step : σ → α → Except ε (σ × β)}
  {abstract : τ → α → Except ε (τ × β)}

/-- **Simulation.**  A machine that simulates an abstract one gives the same answers. -/
theorem Simulates.answers_eq (simulates : Simulates related step abstract) {s : σ} {t : τ}
    (start : related s t) (l : List α) : answers step s l = answers abstract t l := by
  induction l generalizing s t with
  | nil => rfl
  | cons a rest ih =>
      have first := simulates s t a start
      rw [answers, answers]
      generalize step s a = left at first ⊢
      generalize abstract t a = right at first ⊢
      cases first with
      | @ok s' t' b later =>
          change (answers step s' rest >>= fun bs => _) = (answers abstract t' rest >>= fun bs => _)
          rw [ih later]
      | error e => rfl

end Xwbot.Machines
