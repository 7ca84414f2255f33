import Xwbot.Object.Followers

/-!
# Writing to the followers

`x_object_write_out` and `x_object_writev_out` pass what is written to an object on to its
followers, and keep count of how they take it.  A follower that fails too often is taken out of
the list while the loop stands at its cell.
-/

namespace Xwbot

open Links Runs

/-- `DEFAULT_IOLIFECOUNT`. -/
def defaultIolifecount : Int := 100

/-- The results of one call: that of the write handler, and that of the n-th write to a follower. -/
structure WriteResults where
  handler : Int
  follower : Nat → Addr → Int

/-- How far a loop has come. -/
structure WriteOut where
  object : Followed
  err : Int
  /-- The followers that were written to. -/
  calls : List Addr

namespace Followed

/-- `x_object_io_update`, with the cell that `*p` points to afterwards; without one it is the head
of the list. -/
def ioUpdate (s : Followed) (prev : Option Nat) (p : Nat) (err : Int) :
    Except Fault (Followed × Option Nat) :=
  match s.writeoutVector.key p with
  | none => .ok (s, some p)
  | some xobj =>
      if err < 0 then
        let life := s.ioLifeCount xobj - 10
        let s := { s with ioLifeCount := Function.update s.ioLifeCount xobj life }
        if life < -defaultIolifecount then do
          let s := { s with writeoutVector := s.writeoutVector.unlink prev p }
          let s ← s.refPut xobj
          let s ← s.refPut s.thiz
          .ok ({ s with writeoutVector := s.writeoutVector.free p }, prev)
        else .ok (s, some p)
      else
        .ok ({ s with ioLifeCount := Function.update s.ioLifeCount xobj (s.ioLifeCount xobj + 1) },
          some p)

/-- The field `next` of a cell, or of the head. -/
def behind (s : Followed) : Option Nat → Except Fault (Option Nat)
  | none => if s.refcount s.thiz = 0 then .error .freed else .ok s.writeoutVector.head
  | some p =>
      if s.writeoutVector.allocated p then .ok (s.writeoutVector.next p) else .error .freed

/-- The body of the loops; `update` is what they pass to `x_object_io_update` for a result. -/
def writeTurn (update : Int → Int) (write : Nat → Addr → Int) (w : WriteOut) (prev : Option Nat)
    (p : Nat) : Except Fault (WriteOut × Option Nat) :=
  if w.object.writeoutVector.allocated p = false ∨ w.object.refcount w.object.thiz = 0 then
    .error .freed
  else
    match w.object.writeoutVector.key p with
    | none => .ok (w, some p)
    | some follower =>
        if w.object.writeHandler = some follower then .ok (w, some p)
        else if w.object.refcount follower = 0 then .error .freed
        else do
          let err := write w.calls.length follower
          let (s, p) ← w.object.ioUpdate prev p (update err)
          .ok (⟨s, err, w.calls ++ [follower]⟩, p)

/-- The loops of `x_object_write_out` and `x_object_writev_out`. -/
def writeLoop (update : Int → Int) (write : Nat → Addr → Int) :
    Nat → WriteOut → Option Nat → Option Nat → Except Fault WriteOut
  | _, w, _, none => .ok w
  | 0, _, _, some _ => .error .hang
  | turns + 1, w, prev, some p => do
      let (w, p) ← writeTurn update write w prev p
      let next ← w.object.behind p
      writeLoop update write turns w p next

/-- The write to the write handler: the result that the loop starts with. -/
def writeHandlerFirst (s : Followed) (results : WriteResults) : Except Fault Int :=
  match s.writeHandler with
  | none => .ok (-1)
  | some handler => if s.refcount handler = 0 then .error .freed else .ok results.handler

/-- `x_object_write_out`.  It passes on whether the result is negative. -/
def writeOut (s : Followed) (results : WriteResults) : Except Fault WriteOut := do
  let err ← s.writeHandlerFirst results
  writeLoop (fun err => if err < 0 then 1 else 0) results.follower s.writeoutVector.cells
    ⟨s, err, []⟩ none s.writeoutVector.head

/-- `x_object_writev_out`.  It passes on the result. -/
def writevOut (s : Followed) (results : WriteResults) : Except Fault WriteOut := do
  let err ← s.writeHandlerFirst results
  writeLoop (fun err => err) results.follower s.writeoutVector.cells ⟨s, err, []⟩ none
    s.writeoutVector.head

end Followed

/-! ## The write-out as it should be -/

/-- What a result does to the count of a follower. -/
def lifeChange (err : Int) : Int :=
  if err < 0 then -10 else 1

/-- The followers that are written to. -/
def served (handler : Option Addr) (followers : List Addr) : List Addr :=
  followers.filter fun f => handler ≠ some f

/-- The counts and the followers behind the writes from the n-th on. -/
def treat (handler : Option Addr) (write : Nat → Addr → Int) :
    Nat → (Addr → Int) → List Addr → (Addr → Int) × List Addr
  | _, life, [] => (life, [])
  | n, life, f :: rest =>
      if handler = some f then
        let later := treat handler write n life rest
        (later.1, f :: later.2)
      else
        let count := life f + lifeChange (write n f)
        let later := treat handler write (n + 1) (Function.update life f count) rest
        (later.1, if write n f < 0 ∧ count < -defaultIolifecount then later.2 else f :: later.2)

section Treatment

variable {handler : Option Addr} {write write' : Nat → Addr → Int} {n : Nat} {life : Addr → Int}
  {f g : Addr} {rest followers : List Addr}

theorem served_cons : served handler (f :: rest) =
    if handler = some f then served handler rest else f :: served handler rest := by
  by_cases here : handler = some f
  · rw [if_pos here, served, List.filter_cons_of_neg (by simpa using here), served]
  · rw [if_neg here, served, List.filter_cons_of_pos (by simpa using here), served]

/-- Nobody is added. -/
theorem sublist_treat : List.Sublist (treat handler write n life followers).2 followers := by
  induction followers generalizing n life with
  | nil => exact List.Sublist.refl []
  | cons f rest ih =>
      rw [treat]
      split
      · exact ih.cons_cons f
      · dsimp only
        split
        · exact ih.cons f
        · exact ih.cons_cons f

/-- Nobody has to go: neither the first one nor anyone behind. -/
theorem treat_keeps_cons (keeps : (treat handler write n life (f :: rest)).2 = f :: rest) :
    (handler = some f ∧ (treat handler write n life rest).2 = rest) ∨
      handler ≠ some f ∧
        ¬(write n f < 0 ∧ life f + lifeChange (write n f) < -defaultIolifecount) ∧
        (treat handler write (n + 1)
          (Function.update life f (life f + lifeChange (write n f))) rest).2 = rest := by
  rw [treat] at keeps
  by_cases here : handler = some f
  · rw [if_pos here] at keeps
    exact .inl ⟨here, (List.cons.inj keeps).2⟩
  · rw [if_neg here] at keeps
    dsimp only at keeps
    by_cases drops : write n f < 0 ∧ life f + lifeChange (write n f) < -defaultIolifecount
    · rw [if_pos drops] at keeps
      have shorter : (f :: rest).length ≤ rest.length := keeps ▸ sublist_treat.length_le
      exact absurd shorter (Nat.not_succ_le_self _)
    · rw [if_neg drops] at keeps
      exact .inr ⟨here, drops, (List.cons.inj keeps).2⟩

/-- Nobody goes without a failed write. -/
theorem treat_of_nonneg (succeed : ∀ n f, 0 ≤ write n f) :
    (treat handler write n life followers).2 = followers := by
  induction followers generalizing n life with
  | nil => rfl
  | cons f rest ih =>
      rw [treat]
      split
      · dsimp only
        rw [ih]
      · dsimp only
        rw [if_neg fun drops => Int.not_lt.mpr (succeed n f) drops.1, ih]

/-- Only the signs of the results count. -/
theorem treat_congr (same : ∀ k f, (served handler followers)[k]? = some f →
    (write (n + k) f < 0 ↔ write' (n + k) f < 0)) :
    treat handler write n life followers = treat handler write' n life followers := by
  induction followers generalizing n life with
  | nil => rfl
  | cons f rest ih =>
      rw [served_cons] at same
      rw [treat, treat]
      by_cases here : handler = some f
      · rw [if_pos here] at same
        rw [if_pos here, if_pos here, ih same]
      · rw [if_neg here] at same
        have sign : write n f < 0 ↔ write' n f < 0 := same 0 f rfl
        have later : ∀ life, treat handler write (n + 1) life rest =
            treat handler write' (n + 1) life rest := by
          intro life
          apply ih
          intro k g found
          have shifted := same (k + 1) g (by simpa using found)
          rw [Nat.add_right_comm, Nat.add_assoc]
          exact shifted
        have change : lifeChange (write n f) = lifeChange (write' n f) := by
          simp only [lifeChange, sign]
        simp only [if_neg here, sign, change, later]

/-- The change of the count of a follower. -/
def gain (write : Nat → Addr → Int) (g : Addr) : Nat → List Addr → Int
  | _, [] => 0
  | n, f :: rest =>
      (if f = g then lifeChange (write n f) else 0) + gain write g (n + 1) rest

theorem treat_life (g : Addr) : (treat handler write n life followers).1 g =
    life g + gain write g n (served handler followers) := by
  induction followers generalizing n life with
  | nil => simp [treat, served, gain]
  | cons f rest ih =>
      rw [treat, served_cons]
      by_cases here : handler = some f
      · rw [if_pos here, if_pos here]
        exact ih
      · rw [if_neg here, if_neg here, gain]
        dsimp only
        rw [ih]
        by_cases same : f = g
        · subst same
          rw [Function.update_self, if_pos rfl]
          ring
        · rw [Function.update_of_ne (Ne.symm same), if_neg same]
          ring

/-- The count of a follower is raised by each write exactly when none of them fails. -/
theorem gain_le (g : Addr) (l : List Addr) :
    gain write g n l ≤ l.count g ∧
      (gain write g n l = l.count g ↔ ∀ k, l[k]? = some g → 0 ≤ write (n + k) g) := by
  induction l generalizing n with
  | nil => simp [gain]
  | cons f rest ih =>
      rcases ih (n := n + 1) with ⟨bound, exact_iff⟩
      have split : (∀ k, (f :: rest)[k]? = some g → 0 ≤ write (n + k) g) ↔
          (f = g → 0 ≤ write n g) ∧ ∀ k, rest[k]? = some g → 0 ≤ write (n + 1 + k) g := by
        constructor
        · intro all
          refine ⟨fun same => all 0 (by simp [same]), fun k found => ?_⟩
          have here := all (k + 1) (by simpa using found)
          rwa [Nat.add_right_comm n 1 k, Nat.add_assoc]
        · rintro ⟨first, later⟩ k found
          cases k with
          | zero => exact first (by simpa using found)
          | succ k =>
              have here := later k (by simpa using found)
              rwa [Nat.add_right_comm n 1 k, Nat.add_assoc] at here
      rw [split, ← exact_iff, gain, Followed.count_cons_eq]
      by_cases same : f = g
      · subst same
        simp only [if_true, forall_const, lifeChange]
        push_cast
        split
        · constructor
          · omega
          · constructor <;> intro _ <;> omega
        · constructor
          · omega
          · constructor <;> intro _ <;> omega
      · simp only [if_neg (Ne.symm same), Nat.add_zero, Int.zero_add, same, if_false, false_implies,
          true_and]
        exact ⟨bound, trivial⟩

end Treatment

/-! ## What the loops come to -/

/-- A reference that is given back is counted again. -/
theorem less_add {o : Addr} {count : Addr → Nat} (positive : count o ≠ 0) (x : Addr) :
    less o count x + (if x = o then 1 else 0) = count x := by
  rw [less_apply]
  split
  · next same =>
      subst same
      omega
  · rfl

namespace Followed

variable {s s' : Followed} {before rest : List Nat} {keys kb fs : List Addr}
  {next prev : Option Nat}
  {f : Addr} {p : Nat} {update : Int → Int} {write : Nat → Addr → Int} {w w' : WriteOut}

theorem behind_eq (holds : s.writeoutVector.Holds (before ++ rest) keys)
    (alive : s.refcount s.thiz ≠ 0) : s.behind before.getLast? = .ok rest.head? := by
  rcases List.eq_nil_or_concat before with rfl | ⟨front, c, rfl⟩
  · rw [List.getLast?_nil, behind, if_neg alive, holds.head_eq, List.nil_append]
  · rw [List.concat_eq_append] at holds ⊢
    rw [List.append_assoc] at holds
    rw [List.getLast?_concat, behind, if_pos (holds.allocated c (by simp)), holds.next_eq]
    rfl

theorem eq_of_behind (holds : s.writeoutVector.Holds (before ++ rest) keys)
    (result : s.behind before.getLast? = .ok next) : next = rest.head? := by
  by_cases alive : s.refcount s.thiz = 0
  · rcases List.eq_nil_or_concat before with rfl | ⟨front, c, rfl⟩
    · rw [List.getLast?_nil, behind, if_pos alive] at result
      cases result
    · rw [List.concat_eq_append] at holds result
      rw [List.append_assoc] at holds
      rw [List.getLast?_concat, behind, if_pos (holds.allocated c (by simp)), holds.next_eq]
        at result
      cases result
      rfl
  · rw [behind_eq holds alive] at result
    cases result
    rfl

/-- What a turn does for the follower `f`, which stands at the cell `p`. -/
inductive Turn (update : Int → Int) (write : Nat → Addr → Int) (w : WriteOut) (prev : Option Nat)
    (p : Nat) (f : Addr) : WriteOut → Option Nat → Prop where
  /-- The write handler is passed over. -/
  | handler (here : w.object.writeHandler = some f) : Turn update write w prev p f w (some p)
  /-- The follower stays. -/
  | stays {s : Followed} {err : Int} (other : w.object.writeHandler ≠ some f)
      (keeps : ¬(update (write w.calls.length f) < 0 ∧
        w.object.ioLifeCount f + lifeChange (update (write w.calls.length f)) <
          -defaultIolifecount))
      (object_eq : s = { w.object with
        ioLifeCount := Function.update w.object.ioLifeCount f
          (w.object.ioLifeCount f + lifeChange (update (write w.calls.length f))) }) :
      Turn update write w prev p f ⟨s, err, w.calls ++ [f]⟩ (some p)
  /-- The follower goes, and with it a reference to the object that it has followed. -/
  | goes {s : Followed} {err : Int} (other : w.object.writeHandler ≠ some f)
      (drops : update (write w.calls.length f) < 0 ∧
        w.object.ioLifeCount f + lifeChange (update (write w.calls.length f)) < -defaultIolifecount)
      (object_eq : s = { w.object with
        ioLifeCount := Function.update w.object.ioLifeCount f
          (w.object.ioLifeCount f + lifeChange (update (write w.calls.length f)))
        refcount := s.refcount
        writeoutVector := (w.object.writeoutVector.unlink prev p).free p })
      (refcount : ∀ o, s.refcount o + (if o = w.object.thiz then 1 else 0) +
        (if o = f then 1 else 0) =
        w.object.refcount o) :
      Turn update write w prev p f ⟨s, err, w.calls ++ [f]⟩ prev

/-- **Spec of a turn** that returns. -/
theorem turn_of_writeTurn {w₁ : WriteOut} {pos : Option Nat}
    (key : w.object.writeoutVector.key p = some f)
    (result : writeTurn update write w prev p = .ok (w₁, pos)) :
    Turn update write w prev p f w₁ pos := by
  rw [writeTurn] at result
  split at result
  · cases result
  · rw [key] at result
    dsimp only at result
    by_cases here : w.object.writeHandler = some f
    · rw [if_pos here] at result
      cases result
      exact .handler here
    · rw [if_neg here] at result
      split at result
      · cases result
      · rcases bind_eq_ok_iff.mp result with ⟨⟨s, pos'⟩, updated, done⟩
        cases done
        rw [ioUpdate, key] at updated
        dsimp only at updated
        by_cases fails : update (write w.calls.length f) < 0
        · rw [if_pos fails] at updated
          have change : lifeChange (update (write w.calls.length f)) = -10 := if_pos fails
          by_cases low : w.object.ioLifeCount f - 10 < -defaultIolifecount
          · rw [if_pos low] at updated
            rcases bind_eq_ok_iff.mp updated with ⟨s₁, first, updated⟩
            rcases bind_eq_ok_iff.mp updated with ⟨s₂, second, done⟩
            cases done
            rw [refPut] at first
            split at first
            · cases first
            · next held =>
                cases first
                rw [refPut] at second
                split at second
                · cases second
                · next held' =>
                    cases second
                    refine .goes here ⟨fails, by rw [change]; exact low⟩ ?_ fun o => ?_
                    · rw [change]
                      rfl
                    · dsimp only at held held' ⊢
                      rw [less_add held', less_add held]
          · rw [if_neg low] at updated
            cases updated
            refine .stays here ?_ ?_
            · rintro ⟨-, drops⟩
              rw [change] at drops
              exact low drops
            · rw [change]
              rfl
        · rw [if_neg fails] at updated
          have change : lifeChange (update (write w.calls.length f)) = 1 := if_neg fails
          cases updated
          refine .stays here (fun drops => fails drops.1) ?_
          rw [change]

/-- What a loop has done that started with the members `fs` ahead and `kb` behind it. -/
structure Wrote (update : Int → Int) (write : Nat → Addr → Int) (w : WriteOut) (kb fs : List Addr)
    (w' : WriteOut) : Prop where
  calls : w'.calls = w.calls ++ served w.object.writeHandler fs
  lives : w'.object.ioLifeCount = (treat w.object.writeHandler (fun n f => update (write n f))
    w.calls.length w.object.ioLifeCount fs).1
  followers : ∃ cells, w'.object.writeoutVector.Holds cells (kb ++ (treat w.object.writeHandler
    (fun n f => update (write n f)) w.calls.length w.object.ioLifeCount fs).2)
  /-- A follower that goes takes a reference to the object along. -/
  references : ∀ o, w'.object.refcount o + fs.count o +
      (if o = w.object.thiz then fs.length else 0) =
    w.object.refcount o + (treat w.object.writeHandler (fun n f => update (write n f))
      w.calls.length w.object.ioLifeCount fs).2.count o +
      if o = w.object.thiz then (treat w.object.writeHandler (fun n f => update (write n f))
        w.calls.length w.object.ioLifeCount fs).2.length else 0
  thiz : w'.object.thiz = w.object.thiz
  writeHandler : w'.object.writeHandler = w.object.writeHandler
  listeners : w'.object.listeners = w.object.listeners

/-- **The loops**, if they return, do what they should to the counts and the list. -/
theorem wrote_of_writeLoop {turns : Nat}
    (holds : w.object.writeoutVector.Holds (before ++ rest) (kb ++ fs))
    (place : before.length = kb.length)
    (result : writeLoop update write turns w before.getLast? rest.head? = .ok w') :
    Wrote update write w kb fs w' := by
  induction fs generalizing turns w before rest kb with
  | nil =>
      have none : rest = [] := by
        have lengths := holds.length_eq
        simp only [List.length_append, List.length_nil] at lengths
        exact List.length_eq_zero_iff.mp (by omega)
      subst none
      have done : w = w' := by
        cases turns <;> exact Except.ok.inj result
      subst done
      exact ⟨by simp [served], rfl, ⟨_, holds⟩, by simp [treat], rfl, rfl, rfl⟩
  | cons f fs ih =>
      have lengths := holds.length_eq
      simp only [List.length_append, List.length_cons] at lengths
      cases rest with
      | nil =>
          rw [List.length_nil] at lengths
          omega
      | cons p rest =>
          cases turns with
          | zero => cases result
          | succ turns =>
              rw [List.head?_cons, writeLoop] at result
              rcases bind_eq_ok_iff.mp result with ⟨⟨w₁, pos⟩, turned, result⟩
              rcases bind_eq_ok_iff.mp result with ⟨next, moved, later⟩
              have last : (before ++ [p]).getLast? = some p := List.getLast?_concat
              have place' : (before ++ [p]).length = (kb ++ [f]).length := by simp [place]
              cases turn_of_writeTurn (holds.key_eq place) turned with
              | handler here =>
                  have holds' : w.object.writeoutVector.Holds ((before ++ [p]) ++ rest)
                      ((kb ++ [f]) ++ fs) := by
                    simpa using holds
                  rw [← last] at moved later
                  rw [eq_of_behind holds' moved] at later
                  rcases ih holds' place' later with
                    ⟨calls, lives, followers, references, thiz, writeHandler, listeners⟩
                  refine ⟨?_, ?_, ?_, fun o => ?_, thiz, writeHandler, listeners⟩
                  · rw [served_cons, if_pos here, calls]
                  · rw [treat, if_pos here, lives]
                  · rw [treat, if_pos here]
                    simpa using followers
                  · have sum := references o
                    rw [treat, if_pos here]
                    dsimp only at sum ⊢
                    rw [count_cons_eq, count_cons_eq, List.length_cons, List.length_cons]
                    by_cases own : o = w.object.thiz
                    · simp only [own, if_true] at sum ⊢
                      omega
                    · simp only [own, if_false] at sum ⊢
                      omega
              | @stays s err other keeps object_eq =>
                  have holds' : s.writeoutVector.Holds ((before ++ [p]) ++ rest)
                      ((kb ++ [f]) ++ fs) := by
                    rw [object_eq]
                    simpa using holds
                  rw [← last] at moved later
                  rw [eq_of_behind holds' moved] at later
                  have wrote : Wrote update write ⟨s, err, w.calls ++ [f]⟩ (kb ++ [f]) fs w' :=
                    ih holds' place' later
                  rw [object_eq] at wrote
                  rcases wrote with
                    ⟨calls, lives, followers, references, thiz, writeHandler, listeners⟩
                  rw [List.length_append, List.length_singleton] at lives followers
                  refine ⟨?_, ?_, ?_, fun o => ?_, thiz, writeHandler, listeners⟩
                  · rw [served_cons, if_neg other, calls, List.append_assoc]
                    rfl
                  · rw [treat, if_neg other, lives]
                  · rw [treat, if_neg other]
                    dsimp only
                    rw [if_neg keeps]
                    simpa using followers
                  · have sum := references o
                    rw [treat, if_neg other]
                    dsimp only at sum ⊢
                    rw [List.length_append, List.length_singleton] at sum
                    rw [if_neg keeps, count_cons_eq, count_cons_eq, List.length_cons,
                      List.length_cons]
                    by_cases own : o = w.object.thiz
                    · simp only [own, if_true] at sum ⊢
                      omega
                    · simp only [own, if_false] at sum ⊢
                      omega
              | @goes s err other drops object_eq refcount =>
                  have holds' : s.writeoutVector.Holds (before ++ rest) (kb ++ fs) := by
                    rw [object_eq]
                    exact holds.remove place
                  rw [eq_of_behind holds' moved] at later
                  have wrote : Wrote update write ⟨s, err, w.calls ++ [f]⟩ kb fs w' :=
                    ih holds' place later
                  rw [object_eq] at wrote
                  rcases wrote with
                    ⟨calls, lives, followers, references, thiz, writeHandler, listeners⟩
                  rw [List.length_append, List.length_singleton] at lives followers
                  refine ⟨?_, ?_, ?_, fun o => ?_, thiz, writeHandler, listeners⟩
                  · rw [served_cons, if_neg other, calls, List.append_assoc]
                    rfl
                  · rw [treat, if_neg other, lives]
                  · rw [treat, if_neg other]
                    dsimp only
                    rw [if_pos drops]
                    exact followers
                  · have sum := references o
                    have given := refcount o
                    rw [treat, if_neg other]
                    dsimp only at sum ⊢
                    rw [List.length_append, List.length_singleton] at sum
                    rw [if_pos drops, count_cons_eq, List.length_cons]
                    by_cases own : o = w.object.thiz
                    · simp only [own, if_true] at sum given ⊢
                      omega
                    · simp only [own, if_false] at sum given ⊢
                      omega

/-- A turn returns when the follower stays. -/
theorem writeTurn_eq_ok (key : w.object.writeoutVector.key p = some f)
    (allocated : w.object.writeoutVector.allocated p = true)
    (aliveThiz : w.object.refcount w.object.thiz ≠ 0) (alive : w.object.refcount f ≠ 0)
    (keeps : w.object.writeHandler ≠ some f → ¬(update (write w.calls.length f) < 0 ∧
      w.object.ioLifeCount f + lifeChange (update (write w.calls.length f)) <
        -defaultIolifecount)) :
    ∃ w₁, writeTurn update write w prev p = .ok (w₁, some p) := by
  rw [writeTurn, if_neg (by simp [allocated, aliveThiz]), key]
  dsimp only
  by_cases here : w.object.writeHandler = some f
  · rw [if_pos here]
    exact ⟨_, rfl⟩
  · have keeps := keeps here
    rw [if_neg here, if_neg alive, ioUpdate, key]
    dsimp only
    by_cases fails : update (write w.calls.length f) < 0
    · have change : lifeChange (update (write w.calls.length f)) = -10 := if_pos fails
      have high : ¬w.object.ioLifeCount f - 10 < -defaultIolifecount := fun low =>
        keeps ⟨fails, by rw [change]; exact low⟩
      rw [if_pos fails, if_neg high]
      exact ⟨_, rfl⟩
    · rw [if_neg fails]
      exact ⟨_, rfl⟩

/-- **The loops return** when nobody has to go. -/
theorem writeLoop_eq_ok {turns : Nat}
    (holds : w.object.writeoutVector.Holds (before ++ rest) (kb ++ fs))
    (place : before.length = kb.length) (enough : rest.length ≤ turns)
    (aliveThiz : w.object.refcount w.object.thiz ≠ 0)
    (alive : ∀ f ∈ fs, w.object.refcount f ≠ 0)
    (stay : (treat w.object.writeHandler (fun n f => update (write n f)) w.calls.length
      w.object.ioLifeCount fs).2 = fs) :
    ∃ w', writeLoop update write turns w before.getLast? rest.head? = .ok w' := by
  induction fs generalizing turns w before rest kb with
  | nil =>
      have none : rest = [] := by
        have lengths := holds.length_eq
        simp only [List.length_append, List.length_nil] at lengths
        exact List.length_eq_zero_iff.mp (by omega)
      subst none
      exact ⟨w, by cases turns <;> rfl⟩
  | cons f fs ih =>
      have lengths := holds.length_eq
      simp only [List.length_append, List.length_cons] at lengths
      cases rest with
      | nil =>
          rw [List.length_nil] at lengths
          omega
      | cons p rest =>
          rw [List.length_cons] at enough
          obtain ⟨turns, rfl⟩ := Nat.exists_eq_add_of_le' (show 1 ≤ turns by omega)
          rw [List.forall_mem_cons] at alive
          have stays := treat_keeps_cons stay
          have keeps : w.object.writeHandler ≠ some f → ¬(update (write w.calls.length f) < 0 ∧
              w.object.ioLifeCount f + lifeChange (update (write w.calls.length f)) <
                -defaultIolifecount) := by
            intro other
            rcases stays with ⟨here, -⟩ | ⟨-, keeps, -⟩
            · exact absurd here other
            · exact keeps
          have last : (before ++ [p]).getLast? = some p := List.getLast?_concat
          have place' : (before ++ [p]).length = (kb ++ [f]).length := by simp [place]
          have shifted : w.object.writeoutVector.Holds ((before ++ [p]) ++ rest)
              ((kb ++ [f]) ++ fs) := by
            simpa using holds
          rcases writeTurn_eq_ok (holds.key_eq place)
            (holds.allocated p (by simp)) aliveThiz alive.1
            keeps with ⟨w₁, turned⟩
          rw [List.head?_cons, writeLoop, turned, ok_bind]
          dsimp only
          rw [← last]
          have turn := turn_of_writeTurn (holds.key_eq place) turned
          generalize some p = pos at turn
          cases turn with
          | goes other drops => exact absurd drops (keeps other)
          | handler here =>
              rw [behind_eq shifted aliveThiz, ok_bind]
              apply ih shifted place' (Nat.le_of_succ_le_succ enough) aliveThiz alive.2
              rcases stays with ⟨-, stay⟩ | ⟨other, -⟩
              · exact stay
              · exact absurd here other
          | @stays s err other _ object_eq =>
              have shifted' : s.writeoutVector.Holds ((before ++ [p]) ++ rest)
                  ((kb ++ [f]) ++ fs) := by
                rw [object_eq]
                exact shifted
              have aliveThiz' : s.refcount s.thiz ≠ 0 := by
                rw [object_eq]
                exact aliveThiz
              have alive' : ∀ g ∈ fs, s.refcount g ≠ 0 := by
                rw [object_eq]
                exact alive.2
              have stay' : (treat s.writeHandler (fun n f => update (write n f))
                  (w.calls ++ [f]).length s.ioLifeCount fs).2 = fs := by
                rw [object_eq, List.length_append, List.length_singleton]
                rcases stays with ⟨here, -⟩ | ⟨-, -, stay⟩
                · exact absurd here other
                · exact stay
              have moved : s.behind (before ++ [p]).getLast? = .ok rest.head? :=
                behind_eq shifted' aliveThiz'
              have later : ∃ w', writeLoop update write turns ⟨s, err, w.calls ++ [f]⟩
                  (before ++ [p]).getLast? rest.head? = .ok w' :=
                ih shifted' place' (Nat.le_of_succ_le_succ enough) aliveThiz' alive' stay'
              rw [moved]
              exact later

/-! ## One call -/

/-- The followers were treated as they should be: all but the write handler were written to once,
in order, and only those left that failed too often, which changed no count but their own. -/
structure Treats (results : WriteResults) (s : Followed) (w : WriteOut) : Prop where
  calls : w.calls = served s.writeHandler s.writeoutVector.toList
  lives : w.object.ioLifeCount =
    (treat s.writeHandler results.follower 0 s.ioLifeCount s.writeoutVector.toList).1
  followers : w.object.writeoutVector.toList =
    (treat s.writeHandler results.follower 0 s.ioLifeCount s.writeoutVector.toList).2
  references : ∀ o, w.object.refcount o + s.writeoutVector.toList.count o =
    s.refcount o + w.object.writeoutVector.toList.count o

/-- The books are kept, and the object and its write handler are there. -/
structure Sound (s : Followed) : Prop where
  books : ∃ own ls fs, s.Books own ls fs ∧ 0 < own s.thiz
  handler : ∀ h, s.writeHandler = some h → 0 < s.refcount h

variable {results : WriteResults} {own : Addr → Nat} {ls : List Addr}

/-- What both functions do. -/
def writeAll (update : Int → Int) (s : Followed) (results : WriteResults) :
    Except Fault WriteOut := do
  let err ← s.writeHandlerFirst results
  writeLoop update results.follower s.writeoutVector.cells ⟨s, err, []⟩ none s.writeoutVector.head

theorem wrote_of_writeAll (books : s.Books own ls fs) (result : writeAll update s results = .ok w) :
    ∃ err, Wrote update results.follower ⟨s, err, []⟩ [] fs w := by
  rcases bind_eq_ok_iff.mp result with ⟨err, -, looped⟩
  rcases books.followers with ⟨cells, holds⟩
  rw [holds.head_eq] at looped
  have whole : s.writeoutVector.Holds ([] ++ cells) ([] ++ fs) := holds
  have started : writeLoop update results.follower s.writeoutVector.cells ⟨s, err, []⟩
      ([] : List Nat).getLast? cells.head? = .ok w := looped
  exact ⟨err, wrote_of_writeLoop whole rfl started⟩

theorem writeAll_eq_ok (books : s.Books own ls fs) (thiz : 0 < own s.thiz)
    (handler : ∀ h, s.writeHandler = some h → 0 < s.refcount h)
    (stay : (treat s.writeHandler (fun n f => update (results.follower n f)) 0 s.ioLifeCount fs).2 =
      fs) : ∃ w, writeAll update s results = .ok w := by
  rcases books.followers with ⟨cells, holds⟩
  obtain ⟨err, first⟩ : ∃ err, s.writeHandlerFirst results = .ok err := by
    rw [writeHandlerFirst]
    cases is : s.writeHandler with
    | none => exact ⟨_, rfl⟩
    | some h =>
        dsimp only
        rw [if_neg (Nat.ne_of_gt (handler h is))]
        exact ⟨_, rfl⟩
  have aliveThiz : s.refcount s.thiz ≠ 0 := by
    rw [books.count]
    omega
  have alive : ∀ f ∈ fs, s.refcount f ≠ 0 := by
    intro f member
    have entry := List.count_pos_iff.mpr member
    rw [books.count]
    omega
  have looped : ∃ w, writeLoop update results.follower s.writeoutVector.cells ⟨s, err, []⟩
      ([] : List Nat).getLast? cells.head? = .ok w := by
    have whole : s.writeoutVector.Holds ([] ++ cells) ([] ++ fs) := holds
    exact writeLoop_eq_ok whole rfl holds.length_le aliveThiz alive stay
  rw [writeAll, first, ok_bind, holds.head_eq]
  exact looped

/-- What has to hold for a call to treat the followers as it should. -/
theorem Wrote.treats_iff {err : Int} (wrote : Wrote update results.follower ⟨s, err, []⟩ [] fs w)
    (list_eq : s.writeoutVector.toList = fs) :
    Treats results s w ↔
      treat s.writeHandler results.follower 0 s.ioLifeCount fs =
        treat s.writeHandler (fun n f => update (results.follower n f)) 0 s.ioLifeCount fs ∧
      (treat s.writeHandler (fun n f => update (results.follower n f)) 0 s.ioLifeCount fs).2 =
        fs := by
  rcases wrote with ⟨calls, lives, ⟨cells, holds⟩, references, -, -, -⟩
  have followers := holds.toList_eq
  dsimp only [List.length_nil, List.nil_append] at calls lives followers references
  constructor
  · rintro ⟨-, lives', followers', references'⟩
    rw [list_eq] at lives' followers' references'
    constructor
    · exact Prod.ext (lives'.symm.trans lives) (followers'.symm.trans followers)
    · -- the object has lost a reference for each follower that went
      apply sublist_treat.eq_of_length
      have sum := references s.thiz
      have kept := references' s.thiz
      rw [followers] at kept
      rw [if_pos rfl, if_pos rfl] at sum
      omega
  · rintro ⟨same, stay⟩
    refine ⟨?_, ?_, ?_, fun o => ?_⟩
    · rw [list_eq, calls]
    · rw [list_eq, lives, same]
    · rw [list_eq, followers, same]
    · have sum := references o
      rw [list_eq, followers]
      rw [stay] at sum ⊢
      omega

/-- `x_object_writev_out` does so when nobody has to go. -/
theorem writevOut_treats_iff (sound : s.Sound) :
    (∃ w, s.writevOut results = .ok w ∧ Treats results s w) ↔
      (treat s.writeHandler results.follower 0 s.ioLifeCount s.writeoutVector.toList).2 =
        s.writeoutVector.toList := by
  rcases sound.books with ⟨own, ls, fs, books, thiz⟩
  rw [books.followers_eq]
  constructor
  · rintro ⟨w, result, treats⟩
    rcases wrote_of_writeAll books result with ⟨err, wrote⟩
    exact ((wrote.treats_iff books.followers_eq).mp treats).2
  · intro stay
    have returned : ∃ w, writeAll (fun err => err) s results = .ok w :=
      writeAll_eq_ok books thiz sound.handler stay
    rcases returned with ⟨w, result⟩
    rcases wrote_of_writeAll books result with ⟨err, wrote⟩
    exact ⟨w, result, (wrote.treats_iff books.followers_eq).mpr ⟨rfl, stay⟩⟩

/-- `x_object_write_out` does so when no write fails: it takes all of them for successes. -/
theorem writeOut_treats_iff (sound : s.Sound) :
    (∃ w, s.writeOut results = .ok w ∧ Treats results s w) ↔
      ∀ k f, (served s.writeHandler s.writeoutVector.toList)[k]? = some f →
        0 ≤ results.follower k f := by
  rcases sound.books with ⟨own, ls, fs, books, thiz⟩
  have mild : ∀ n f, 0 ≤ (if results.follower n f < 0 then (1 : Int) else 0) := by
    intro n f
    split <;> decide
  have stay : (treat s.writeHandler (fun n f => if results.follower n f < 0 then 1 else 0) 0
      s.ioLifeCount fs).2 = fs := treat_of_nonneg mild
  rw [books.followers_eq]
  constructor
  · rintro ⟨w, result, treats⟩ k f found
    rcases wrote_of_writeAll books result with ⟨err, wrote⟩
    rcases (wrote.treats_iff books.followers_eq).mp treats with ⟨same, -⟩
    have lives := congrFun (congrArg Prod.fst same) f
    rw [treat_life, treat_life] at lives
    have raised : gain (fun n f => if results.follower n f < 0 then 1 else 0) f 0
        (served s.writeHandler fs) = (served s.writeHandler fs).count f :=
      (gain_le f _).2.mpr fun k _ => mild (0 + k) f
    have raised' : gain results.follower f 0 (served s.writeHandler fs) =
        (served s.writeHandler fs).count f := by
      omega
    have all := (gain_le f _).2.mp raised'
    have here := all k found
    rwa [Nat.zero_add] at here
  · intro succeed
    have returned : ∃ w, writeAll (fun err => if err < 0 then 1 else 0) s results = .ok w :=
      writeAll_eq_ok books thiz sound.handler stay
    rcases returned with ⟨w, result⟩
    rcases wrote_of_writeAll books result with ⟨err, wrote⟩
    refine ⟨w, result, (wrote.treats_iff books.followers_eq).mpr ⟨treat_congr ?_, stay⟩⟩
    intro k f found
    have positive := succeed k f found
    rw [Nat.zero_add]
    exact iff_of_false (Int.not_lt.mpr positive) (Int.not_lt.mpr (mild k f))

end Followed

/-! ## Runs -/

/-- A call of one of the two functions, with the results it gets. -/
inductive WriteCall where
  | writeOut (results : WriteResults)
  | writevOut (results : WriteResults)

namespace WriteCall

/-- Make a call. -/
def write (s : Followed) : WriteCall → Except Fault WriteOut
  | writeOut results => s.writeOut results
  | writevOut results => s.writevOut results

/-- The object after a call. -/
def exec (s : Followed) (call : WriteCall) : Except Fault Followed := do
  let w ← call.write s
  .ok w.object

/-- The results of a call. -/
def results : WriteCall → WriteResults
  | writeOut results => results
  | writevOut results => results

/-- The call treats the followers as it should. -/
def TreatsFollowers (s : Followed) (call : WriteCall) : Prop :=
  ∃ w, call.write s = .ok w ∧ Followed.Treats call.results s w

/-- No write of `x_object_write_out` fails; none of `x_object_writev_out` fails so often that the
follower has to go. -/
def Mild (s : Followed) : WriteCall → Prop
  | writeOut results => ∀ k f, (served s.writeHandler s.writeoutVector.toList)[k]? = some f →
      0 ≤ results.follower k f
  | writevOut results =>
      (treat s.writeHandler results.follower 0 s.ioLifeCount s.writeoutVector.toList).2 =
        s.writeoutVector.toList

variable {s s' : Followed} {call : WriteCall}

theorem treatsFollowers_iff (sound : s.Sound) : call.TreatsFollowers s ↔ call.Mild s := by
  cases call with
  | writeOut results => exact Followed.writeOut_treats_iff sound
  | writevOut results => exact Followed.writevOut_treats_iff sound

/-- A call that treats the followers as it should keeps the books. -/
theorem sound_of_treats (sound : s.Sound) (treats : call.TreatsFollowers s)
    (result : call.exec s = .ok s') : s'.Sound := by
  have mild := (treatsFollowers_iff sound).mp treats
  rcases treats with ⟨w, written, -, lives, followers, references⟩
  rw [exec, written] at result
  cases result
  rcases sound.books with ⟨own, ls, fs, books, thiz⟩
  have wrote : ∃ update err, Followed.Wrote update call.results.follower ⟨s, err, []⟩ [] fs w := by
    cases call with
    | writeOut results => exact ⟨_, Followed.wrote_of_writeAll books written⟩
    | writevOut results => exact ⟨_, Followed.wrote_of_writeAll books written⟩
  rcases wrote with ⟨update, err, wrote⟩
  have list_eq := books.followers_eq
  have stay := ((wrote.treats_iff list_eq).mp ⟨by rw [list_eq, wrote.calls]; rfl, lives, followers,
    references⟩).2
  rcases wrote.followers with ⟨cells, holds⟩
  dsimp only [List.length_nil, List.nil_append] at holds
  rw [stay] at holds
  have refcount : ∀ o, w.object.refcount o = s.refcount o := by
    intro o
    have sum := references o
    rw [holds.toList_eq, list_eq] at sum
    omega
  refine ⟨⟨own, ls, fs, ⟨?_, ⟨cells, holds⟩, fun o => ?_⟩, ?_⟩, fun h is => ?_⟩
  · rw [wrote.listeners]
    exact books.listeners
  · rw [refcount, books.count]
  · rw [wrote.thiz]
    exact thiz
  · rw [refcount]
    exact sound.handler h (wrote.writeHandler.symm.trans is)

end WriteCall

/-- **Every call of a run treats the followers as it should** exactly when each write to them
succeeds, or was made by `x_object_writev_out` and nobody has to go for it. -/
theorem along_treatsFollowers_iff {s : Followed} {calls : List WriteCall} (sound : s.Sound) :
    Along WriteCall.exec (fun s call => call.TreatsFollowers s) s calls ↔
      Along WriteCall.exec (fun s call => call.Mild s) s calls :=
  along_congr Followed.Sound
    (fun _ _ _ sound treats result => WriteCall.sound_of_treats sound treats result)
    (fun _ _ sound => WriteCall.treatsFollowers_iff sound) sound

/-- An object with one follower, which has failed before. -/
def faultyFollower : Followed :=
  { newFollowed with
    refcount := more 1 newFollowed.refcount
    ioLifeCount := Function.update newFollowed.ioLifeCount 1 (-95)
    writeoutVector := newFollowed.writeoutVector.push 1 }

theorem sound_faultyFollower : faultyFollower.Sound := by
  refine ⟨⟨fun _ => 1, [], [1], ⟨⟨[], .empty⟩, ⟨[0], CellList.Holds.empty.push 1⟩, fun o => ?_⟩,
    Nat.one_pos⟩, by rintro h ⟨⟩⟩
  change more 1 newFollowed.refcount o = _
  rw [more_apply, Followed.count_cons_eq, List.count_nil, Nat.add_zero, Nat.zero_add]
  rfl

theorem along_treatsFollowers_iff_faulty :
    Along WriteCall.exec (fun s call => call.TreatsFollowers s) faultyFollower
        [.writevOut ⟨0, fun _ _ => 0⟩] ↔
      Along WriteCall.exec (fun s call => call.Mild s) faultyFollower
        [.writevOut ⟨0, fun _ _ => 0⟩] :=
  along_treatsFollowers_iff sound_faultyFollower

/-- A failed write is a success to `x_object_write_out`.  With `x_object_writev_out` the follower
goes, and takes the only reference to the object along, which is gone when the loop goes on. -/
theorem not_along_treatsFollowers_faulty :
    ¬Along WriteCall.exec (fun s call => call.TreatsFollowers s) faultyFollower
        [.writeOut ⟨0, fun _ _ => -1⟩] ∧
      ¬Along WriteCall.exec (fun s call => call.TreatsFollowers s) faultyFollower
        [.writevOut ⟨0, fun _ _ => -1⟩] := by
  constructor
  · rintro ⟨⟨w, result, treats⟩, -⟩
    have lives := congrFun treats.lives 1
    have computed : (faultyFollower.writeOut ⟨0, fun _ _ => -1⟩).map
        (fun w => w.object.ioLifeCount 1) = .ok (-94) := by
      decide
    have written : faultyFollower.writeOut ⟨0, fun _ _ => -1⟩ = .ok w := result
    rw [written] at computed
    have raised : w.object.ioLifeCount 1 = -94 := Except.ok.inj computed
    rw [raised] at lives
    revert lives
    decide
  · rintro ⟨⟨w, result, -⟩, -⟩
    have computed : (faultyFollower.writevOut ⟨0, fun _ _ => -1⟩).map (fun w => w.err) =
        .error .freed := by
      decide
    have written : faultyFollower.writevOut ⟨0, fun _ _ => -1⟩ = .ok w := result
    rw [written] at computed
    cases computed

end Xwbot
