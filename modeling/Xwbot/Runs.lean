import Mathlib

/-!
# Runs of a step that can fail

A run takes one step for each input and ends at the first step that fails.
`Along` says that every step of a run meets a condition on the input and on the
state before it, and the rules below carry an invariant along such a run.
Nothing here depends on what the states, the inputs and the failures are.
-/

namespace Xwbot.Runs

universe u v w

variable {σ : Type u} {α : Type v} {ε : Type w}

/-- The steps for a list of inputs, one after the other. -/
def run (step : σ → α → Except ε σ) (s : σ) : List α → Except ε σ
  | [] => .ok s
  | a :: rest => step s a >>= fun s' => run step s' rest

/-- Every step that is taken meets the condition. -/
def Along (step : σ → α → Except ε σ) (holds : σ → α → Prop) : σ → List α → Prop
  | _, [] => True
  | s, a :: rest => holds s a ∧ ∀ s', step s a = .ok s' → Along step holds s' rest

/-- A condition that can be decided for one step can be decided for a run. -/
instance decidableAlong (step : σ → α → Except ε σ) (holds : σ → α → Prop)
    [∀ s a, Decidable (holds s a)] : ∀ s l, Decidable (Along step holds s l)
  | _, [] => .isTrue trivial
  | s, a :: rest =>
      let later : Decidable (∀ s', step s a = .ok s' → Along step holds s' rest) :=
        match step s a with
        | .ok s' =>
            match decidableAlong step holds s' rest with
            | .isTrue along => .isTrue fun _ same => Except.ok.inj same ▸ along
            | .isFalse stops => .isFalse fun all => stops (all s' rfl)
        | .error _ => .isTrue fun _ impossible => nomatch impossible
      @instDecidableAnd _ _ _ later

/-- What a run that may fail comes to: a state with a property, or a permitted failure. -/
def Lands (inv : σ → Prop) (permitted : ε → Prop) : Except ε σ → Prop
  | .ok s => inv s
  | .error e => permitted e

/-- What a run comes to can be decided if the property and the permission can. -/
instance decidableLands (inv : σ → Prop) (permitted : ε → Prop) [DecidablePred inv]
    [DecidablePred permitted] : ∀ x, Decidable (Lands inv permitted x)
  | .ok s => inferInstanceAs (Decidable (inv s))
  | .error e => inferInstanceAs (Decidable (permitted e))

theorem Lands.mono {inv inv' : σ → Prop} {permitted permitted' : ε → Prop} {x : Except ε σ}
    (lands : Lands inv permitted x) (states : ∀ s, inv s → inv' s)
    (failures : ∀ e, permitted e → permitted' e) : Lands inv' permitted' x := by
  cases x with
  | ok s => exact states s lands
  | error e => exact failures e lands

/-- What a first part comes to is what the second part starts from. -/
theorem Lands.bind {β : Type u} {inv : σ → Prop} {inv' : β → Prop} {permitted : ε → Prop}
    {x : Except ε σ} {next : σ → Except ε β} (lands : Lands inv permitted x)
    (behind : ∀ s, inv s → Lands inv' permitted (next s)) : Lands inv' permitted (x >>= next) := by
  cases x with
  | ok s => exact behind s lands
  | error e => exact lands

theorem lands_false_iff {inv : σ → Prop} {x : Except ε σ} :
    Lands inv (fun _ => False) x ↔ ∃ s, x = .ok s ∧ inv s := by
  cases x with
  | ok s => simp [Lands]
  | error e => simp [Lands]

variable {step : σ → α → Except ε σ} {holds : σ → α → Prop} {s s' : σ} {l l' : List α} {a : α}

@[simp]
theorem run_nil : run step s [] = .ok s :=
  rfl

@[simp]
theorem run_cons : run step s (a :: l) = step s a >>= fun s' => run step s' l :=
  rfl

theorem run_append : run step s (l ++ l') = run step s l >>= fun s' => run step s' l' := by
  induction l generalizing s with
  | nil => rfl
  | cons a rest ih =>
      rw [List.cons_append, run_cons, run_cons]
      cases step s a with
      | error e => rfl
      | ok s' => exact ih

/-- The last step of a run. -/
theorem run_concat : run step s (l ++ [a]) = run step s l >>= fun s' => step s' a := by
  rw [run_append]
  cases run step s l with
  | error e => rfl
  | ok middle =>
      change (step middle a >>= fun s' => Except.ok s') = step middle a
      cases step middle a <;> rfl

theorem run_trans {middle : σ} (first : run step s l = .ok middle)
    (second : run step middle l' = .ok s') : run step s (l ++ l') = .ok s' := by
  rw [run_append, first]
  exact second

theorem run_concat_eq_ok {middle : σ} (result : run step s l = .ok middle)
    (last : step middle a = .ok s') : run step s (l ++ [a]) = .ok s' := by
  rw [run_concat, result]
  exact last

/-- The two parts of a run that succeeds. -/
theorem run_append_eq_ok (result : run step s (l ++ l') = .ok s') :
    ∃ middle, run step s l = .ok middle ∧ run step middle l' = .ok s' := by
  rw [run_append] at result
  cases first : run step s l with
  | error e =>
      rw [first] at result
      cases result
  | ok middle =>
      rw [first] at result
      exact ⟨middle, rfl, result⟩

theorem along_append : Along step holds s (l ++ l') ↔
    Along step holds s l ∧ ∀ s', run step s l = .ok s' → Along step holds s' l' := by
  induction l generalizing s with
  | nil => simp [Along]
  | cons a rest ih =>
      rw [List.cons_append]
      simp only [Along, ih, run_cons]
      constructor
      · rintro ⟨here, later⟩
        refine ⟨⟨here, fun s' result => (later s' result).1⟩, fun s' result => ?_⟩
        cases first : step s a with
        | error e =>
            rw [first] at result
            cases result
        | ok middle =>
            rw [first] at result
            exact (later middle first).2 s' result
      · rintro ⟨⟨here, later⟩, behind⟩
        refine ⟨here, fun s' result => ⟨later s' result, fun s'' result' => behind s'' ?_⟩⟩
        rw [result]
        exact result'

/-- The condition, spelled out: it holds at each input in the state reached before it. -/
theorem along_iff : Along step holds s l ↔
    ∀ before a behind, l = before ++ a :: behind →
      ∀ s', run step s before = .ok s' → holds s' a := by
  induction l generalizing s with
  | nil => simp [Along]
  | cons a rest ih =>
      simp only [Along, ih]
      constructor
      · rintro ⟨here, later⟩ before b behind split s' result
        cases before with
        | nil =>
            cases split
            cases result
            exact here
        | cons c before =>
            cases split
            rw [run_cons] at result
            cases first : step s a with
            | error e =>
                rw [first] at result
                cases result
            | ok middle =>
                rw [first] at result
                exact later middle first before b behind rfl s' result
      · intro all
        refine ⟨all [] a rest rfl s rfl, fun s' result before b behind split s'' result' => ?_⟩
        refine all (a :: before) b behind (by rw [split, List.cons_append]) s'' ?_
        rw [run_cons, result]
        exact result'

/-- **Invariant rule.**  When every step of a run meets a condition under which it keeps
an invariant or fails in a permitted way, the whole run does. -/
theorem Along.lands {inv : σ → Prop} {permitted : ε → Prop}
    (keeps : ∀ s a, inv s → holds s a → Lands inv permitted (step s a)) (start : inv s)
    (along : Along step holds s l) : Lands inv permitted (run step s l) := by
  induction l generalizing s with
  | nil => exact start
  | cons a rest ih =>
      have once := keeps s a start along.1
      rw [run_cons]
      cases first : step s a with
      | error e =>
          rw [first] at once
          exact once
      | ok middle =>
          rw [first] at once
          exact ih once (along.2 middle first)

/-- The invariant rule for the states that a run reaches. -/
theorem Along.invariant {inv : σ → Prop}
    (keeps : ∀ s a s', inv s → holds s a → step s a = .ok s' → inv s') (start : inv s)
    (along : Along step holds s l) (result : run step s l = .ok s') : inv s' := by
  have lands : Lands inv (fun _ => True) (run step s l) := by
    refine along.lands (fun s a inside met => ?_) start
    cases next : step s a with
    | error e => trivial
    | ok s' => exact keeps s a s' inside met next
  rw [result] at lands
  exact lands

/-- An invariant that every step keeps holds of what a run reaches. -/
theorem run_invariant (inv : σ → Prop) (keeps : ∀ s a s', inv s → step s a = .ok s' → inv s')
    (start : inv s) (result : run step s l = .ok s') : inv s' := by
  induction l generalizing s with
  | nil =>
      cases result
      exact start
  | cons a rest ih =>
      rw [run_cons] at result
      cases first : step s a with
      | error e =>
          rw [first] at result
          cases result
      | ok middle =>
          rw [first] at result
          exact ih (keeps s a middle start first) result

theorem Along.mono {holds' : σ → α → Prop} (weaker : ∀ s a, holds s a → holds' s a)
    (along : Along step holds s l) : Along step holds' s l := by
  induction l generalizing s with
  | nil => trivial
  | cons a rest ih =>
      exact ⟨weaker s a along.1, fun s' result => ih (along.2 s' result)⟩

/-- The invariant holds at every input. -/
theorem Along.of_invariant {inv : σ → Prop}
    (keeps : ∀ s a s', inv s → holds s a → step s a = .ok s' → inv s') (start : inv s)
    (along : Along step holds s l) : Along step (fun s _ => inv s) s l := by
  induction l generalizing s with
  | nil => trivial
  | cons a rest ih =>
      exact ⟨start, fun s' result => ih (keeps s a s' start along.1 result) (along.2 s' result)⟩

/-- Two conditions that agree wherever an invariant holds are met by the same runs. -/
theorem along_congr {holds' : σ → α → Prop} (inv : σ → Prop)
    (keeps : ∀ s a s', inv s → holds s a → step s a = .ok s' → inv s')
    (same : ∀ s a, inv s → (holds s a ↔ holds' s a)) (start : inv s) :
    Along step holds s l ↔ Along step holds' s l := by
  induction l generalizing s with
  | nil => exact Iff.rfl
  | cons a rest ih =>
      constructor
      · rintro ⟨here, later⟩
        refine ⟨(same s a start).mp here, fun s' result => ?_⟩
        exact (ih (keeps s a s' start here result)).mp (later s' result)
      · rintro ⟨here, later⟩
        have here' := (same s a start).mpr here
        refine ⟨here', fun s' result => ?_⟩
        exact (ih (keeps s a s' start here' result)).mpr (later s' result)

/-- A run that meets a condition meets another one that follows from it wherever an invariant
holds. -/
theorem Along.imp {holds' : σ → α → Prop} (inv : σ → Prop)
    (keeps : ∀ s a s', inv s → holds s a → step s a = .ok s' → inv s')
    (gives : ∀ s a, inv s → holds s a → holds' s a) (start : inv s)
    (along : Along step holds s l) : Along step holds' s l := by
  induction l generalizing s with
  | nil => trivial
  | cons a rest ih =>
      refine ⟨gives s a start along.1, fun s' result => ?_⟩
      exact ih (keeps s a s' start along.1 result) (along.2 s' result)

/-- **Log rule.**  When every step adds to a log what corresponds, item for item, to a part of
its input, so does the whole run. -/
theorem Along.log {γ δ : Type u} (inv : σ → Prop) (log : σ → List δ) {part : α → List γ}
    {corresponds : γ → δ → Prop}
    (adds : ∀ s a s', inv s → holds s a → step s a = .ok s' → inv s' ∧
      ∃ items, log s' = log s ++ items ∧ List.Forall₂ corresponds (part a) items)
    (start : inv s) (along : Along step holds s l) (result : run step s l = .ok s') :
    ∃ items, log s' = log s ++ items ∧ List.Forall₂ corresponds (l.flatMap part) items := by
  induction l generalizing s with
  | nil =>
      cases result
      exact ⟨[], (List.append_nil _).symm, .nil⟩
  | cons a rest ih =>
      rw [run_cons] at result
      cases first : step s a with
      | error e =>
          rw [first] at result
          cases result
      | ok middle =>
          rw [first] at result
          rcases adds s a middle start along.1 first with ⟨inside, items, here, matched⟩
          rcases ih inside (along.2 middle first) result with ⟨more, later, matched'⟩
          refine ⟨items ++ more, ?_, List.rel_append matched matched'⟩
          rw [later, here, List.append_assoc]

/-- **Image rule.**  Steps that are the images of others make runs that are images as well. -/
theorem run_map {σ' : Type u} {α' : Type v} {step' : σ' → α' → Except ε σ'} (f : σ → σ')
    (g : α → α') (each : ∀ s a, step' (f s) (g a) = (step s a).map f) (s : σ) (l : List α) :
    run step' (f s) (l.map g) = (run step s l).map f := by
  induction l generalizing s with
  | nil => rfl
  | cons a rest ih =>
      rw [List.map_cons, run_cons, run_cons, each]
      cases step s a with
      | error e => rfl
      | ok s' => exact ih s'

/-! ## Runs that succeed -/

/-- The computation does not fail. -/
def Succeeds {β : Type u} (x : Except ε β) : Prop :=
  ∃ b, x = .ok b

instance decidableSucceeds {β : Type u} : ∀ x : Except ε β, Decidable (Succeeds x)
  | .ok b => .isTrue ⟨b, rfl⟩
  | .error _ => .isFalse fun ⟨_, impossible⟩ => nomatch impossible

/-- What holds of every result can be decided of the result. -/
instance decidableForallOk {β : Type u} (x : Except ε β) (holds : β → Prop)
    [DecidablePred holds] : Decidable (∀ b, x = .ok b → holds b) :=
  match x with
  | .ok b => decidable_of_iff (holds b)
      ⟨fun result _ same => Except.ok.inj same ▸ result, fun all => all b rfl⟩
  | .error _ => .isTrue fun _ impossible => nomatch impossible

@[simp]
theorem succeeds_ok {β : Type u} (b : β) : Succeeds (.ok b : Except ε β) :=
  ⟨b, rfl⟩

@[simp]
theorem not_succeeds_error {β : Type u} (e : ε) : ¬Succeeds (.error e : Except ε β) :=
  fun ⟨_, impossible⟩ => nomatch impossible

theorem succeeds_bind_iff {β γ : Type u} {x : Except ε β} {next : β → Except ε γ} :
    Succeeds (x >>= next) ↔ ∃ b, x = .ok b ∧ Succeeds (next b) := by
  cases x with
  | error e => simp [Bind.bind, Except.bind]
  | ok b => simp [Bind.bind, Except.bind]

/-- **Success rule.**  When a step from a state with an invariant succeeds exactly under a
condition, a run succeeds exactly if all of its steps meet the condition. -/
theorem succeeds_run_iff {inv : σ → Prop}
    (keeps : ∀ s a s', inv s → step s a = .ok s' → inv s')
    (each : ∀ s a, inv s → (Succeeds (step s a) ↔ holds s a)) (start : inv s) :
    Succeeds (run step s l) ↔ Along step holds s l := by
  induction l generalizing s with
  | nil => simp [Along]
  | cons a rest ih =>
      rw [run_cons, succeeds_bind_iff, Along, ← each s a start]
      constructor
      · rintro ⟨s', next, later⟩
        refine ⟨⟨s', next⟩, fun s'' next' => ?_⟩
        cases next.symm.trans next'
        exact (ih (keeps s a s' start next)).mp later
      · rintro ⟨⟨s', next⟩, later⟩
        exact ⟨s', next, (ih (keeps s a s' start next)).mpr (later s' next)⟩

/-! ## Simulation -/

variable {τ : Type u}

/-- A computation agrees with a partial one on an abstraction of the states: both fail, or the
state that is reached has the invariant and the abstraction that is foretold. -/
def Agrees (abs : σ → τ) (inv : σ → Prop) : Option τ → Except ε σ → Prop
  | some t, .ok s => abs s = t ∧ inv s
  | none, .error _ => True
  | _, _ => False

variable {abs : σ → τ} {inv : σ → Prop} {foretold : Option τ} {x : Except ε σ}

theorem Agrees.succeeds_iff (agrees : Agrees abs inv foretold x) :
    Succeeds x ↔ foretold.isSome = true := by
  cases foretold <;> cases x <;> simp_all [Agrees]

theorem Agrees.of_ok (agrees : Agrees abs inv foretold (.ok s : Except ε σ)) :
    foretold = some (abs s) ∧ inv s := by
  cases foretold with
  | none => cases agrees
  | some t => exact ⟨congrArg some agrees.1.symm, agrees.2⟩

/-- The second part agrees from whatever the first part comes to. -/
theorem Agrees.bind {β υ : Type u} {abs' : β → υ} {inv' : β → Prop} {next : σ → Except ε β}
    {foretell : τ → Option υ} (first : Agrees abs inv foretold x)
    (later : ∀ s, inv s → Agrees abs' inv' (foretell (abs s)) (next s)) :
    Agrees abs' inv' (foretold.bind foretell) (x >>= next) := by
  cases x with
  | error e =>
      cases foretold with
      | none => trivial
      | some t => cases first
  | ok s =>
      rcases first.of_ok with ⟨rfl, inside⟩
      exact later s inside

theorem Agrees.map {β : Type u} {abs' : β → τ} {inv' : β → Prop} {f : σ → β}
    (agrees : Agrees abs inv foretold x) (same : ∀ s, inv s → abs' (f s) = abs s ∧ inv' (f s)) :
    Agrees abs' inv' foretold (x >>= fun s => (.ok (f s) : Except ε β)) := by
  cases x with
  | error e =>
      cases foretold with
      | none => trivial
      | some t => cases agrees
  | ok s =>
      rcases agrees.of_ok with ⟨rfl, inside⟩
      exact same s inside

theorem Agrees.mono {inv' : σ → Prop} (agrees : Agrees abs inv foretold x)
    (weaker : ∀ s, inv s → inv' s) : Agrees abs inv' foretold x := by
  cases foretold <;> cases x <;> simp_all [Agrees]

/-- **Simulation rule.**  Steps that agree with a partial function make runs that agree with
its iteration. -/
theorem agrees_run {foretell : τ → α → Option τ}
    (each : ∀ s a, inv s → Agrees abs inv (foretell (abs s) a) (step s a)) (start : inv s) :
    Agrees abs inv (l.foldlM foretell (abs s)) (run step s l) := by
  induction l generalizing s with
  | nil => exact ⟨rfl, start⟩
  | cons a rest ih =>
      have once := each s a start
      rw [List.foldlM_cons, run_cons]
      cases first : step s a with
      | error e =>
          rw [first] at once
          cases foretold : foretell (abs s) a with
          | none => trivial
          | some t =>
              rw [foretold] at once
              cases once
      | ok s' =>
          rw [first] at once
          rcases once.of_ok with ⟨foretold, inside⟩
          rw [foretold]
          exact ih inside

end Xwbot.Runs
