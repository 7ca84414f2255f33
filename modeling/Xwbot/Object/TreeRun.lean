import Xwbot.Object.TreeInvariant

/-!
# Runs of the tree operations

Any sequence of calls on objects that were new at its start.  As long as no call
takes a first son from its parent or meets an object that has been freed, the
links represent the lists that the calls describe.
-/

namespace Xwbot.Heap

open Links

variable {h h' : Heap} {kids : Kids} {p x : Addr}

/-- The calls that change the tree. -/
inductive Op where
  | appendChild (parent child : Addr)
  | appendChildNoCb (parent child : Addr)
  | removeFromParent (xobj : Addr)
  | destroyNoCb (xobj : Addr)

/-- Make a call. -/
def exec (h : Heap) : Op → Except Fault Heap
  | .appendChild parent child => h.appendChild parent child
  | .appendChildNoCb parent child => h.appendChildNoCb parent child
  | .removeFromParent xobj => h.removeFromParent xobj
  | .destroyNoCb xobj => h.destroyNoCb xobj

/-- The call only looks at live objects, and does not remove a first son from its
parent. -/
def OpOk (h : Heap) (kids : Kids) : Op → Prop
  | .appendChild parent child => h.AppendOk kids parent child
  | .appendChildNoCb parent child => h.AppendOk kids parent child
  | .removeFromParent xobj => h.RemoveOk kids xobj
  | .destroyNoCb xobj => h.DestroyOk kids xobj

/-- What a call does to the lists of sons. -/
def afterOp (h : Heap) (kids : Kids) : Op → Kids
  | .appendChild parent child => extend parent child kids
  | .appendChildNoCb parent child => extend parent child kids
  | .removeFromParent xobj => h.afterRemove xobj kids
  | .destroyNoCb xobj => drop xobj kids

/-- The objects are new: none of them is linked to another. -/
structure Fresh (h : Heap) : Prop where
  parent : ∀ x, h.live x = true → h.parent x = none
  sons : ∀ x, h.live x = true → h.sons x = none
  sibling : ∀ x, h.live x = true → h.sibling x = none
  childCount : ∀ x, h.live x = true → h.childCount x = 0

/-- The states that calls lead to when each of them meets its condition, with the lists
that the calls so far should have produced. -/
inductive Run : Heap → Kids → Prop where
  | start {h : Heap} (fresh : h.Fresh) : Run h fun _ => []
  | call {h h' : Heap} {kids : Kids} {op : Op} (run : Run h kids) (ok : h.OpOk kids op)
      (result : h.exec op = .ok h') : Run h' (h.afterOp kids op)

theorem Fresh.rep (fresh : h.Fresh) : h.Rep fun _ => [] where
  path p alive := fresh.sons p alive
  mem p alive x := by
    simp only [List.not_mem_nil, false_iff, not_and]
    intro aliveX
    rw [fresh.parent x aliveX]
    simp
  count p alive := fresh.childCount p alive
  loose x alive _ := fresh.sibling x alive

/-- **One call.**  Under its condition a call returns, and the links then represent
what it should have made of the lists. -/
theorem Rep.exec {op : Op} (rep : h.Rep kids) (ok : h.OpOk kids op) :
    ∃ h', h.exec op = .ok h' ∧ h'.Rep (h.afterOp kids op) := by
  cases op with
  | appendChild parent child =>
      obtain ⟨h', result, rep', -⟩ := rep.appendChild ok
      exact ⟨h', result, rep'⟩
  | appendChildNoCb parent child =>
      obtain ⟨h', result, rep', -⟩ := rep.appendChildNoCb ok
      exact ⟨h', result, rep'⟩
  | removeFromParent xobj => exact rep.removeFromParent ok
  | destroyNoCb xobj =>
      obtain ⟨h', result, rep', -⟩ := rep.destroyNoCb ok
      exact ⟨h', result, rep'⟩

/-- **All calls.** -/
theorem Run.rep (run : Run h kids) : h.Rep kids := by
  induction run with
  | start fresh => exact fresh.rep
  | @call h h' kids op _ ok result rep =>
      obtain ⟨h'', result', rep'⟩ := rep.exec ok
      rw [result] at result'
      cases result'
      exact rep'

/-- Following `sons` and then `sibling` from `p` passes through exactly the live objects
whose parent is `p`, each of them once, and `child_count` is their number. -/
structure Enumerates (h : Heap) (p : Addr) (l : List Addr) : Prop where
  path : Path h.sibling (h.sons p) l none
  nodup : l.Nodup
  mem : ∀ x, x ∈ l ↔ h.live x = true ∧ h.parent x = some p
  count : h.childCount p = l.length

theorem Rep.enumerates (rep : h.Rep kids) (alive : h.live p = true) : h.Enumerates p (kids p) :=
  ⟨rep.path p alive, rep.nodup alive, rep.mem p alive, rep.count p alive⟩

/-- **Tree invariant.**  In every run whose calls meet their conditions, every live object
enumerates its sons in the order in which they were appended, without those that were
removed or destroyed; every further call that meets its condition returns; and removing a
son takes just that son from the list of a parent that is referenced otherwise. -/
theorem enumerates_of_run (run : Run h kids) :
    (∀ p, h.live p = true → h.Enumerates p (kids p)) ∧
      (∀ op, h.OpOk kids op → ∃ h', h.exec op = .ok h') ∧
      ∀ x p, h.RemoveOk kids x → h.parent x = some p → 1 < h.refcount p →
        ∃ h', h.removeFromParent x = .ok h' ∧
          (h'.live p = true → h'.Enumerates p ((kids p).filter (· ≠ x))) := by
  refine ⟨fun p alive => run.rep.enumerates alive, fun op ok => ?_, fun x p ok parent_eq more => ?_⟩
  · obtain ⟨h', result, -⟩ := run.rep.exec ok
    exact ⟨h', result⟩
  · obtain ⟨h', result, rep⟩ := run.rep.removeFromParent ok
    rw [afterRemove, parent_eq] at rep
    simp only [if_neg (not_le.mpr more)] at rep
    exact ⟨h', result, fun alive => rep.enumerates alive⟩

/-! ## Two objects and a first son -/

/-- New objects with the given names; the last one has the address 0. -/
def newObjects : List Text → Heap
  | [] => .empty
  | name :: rest => ((newObjects rest).alloc name none).1

theorem Fresh.alloc (fresh : h.Fresh) (name : Text) : (h.alloc name none).1.Fresh := by
  have old : ∀ x, (h.alloc name none).1.live x = true → x ≠ h.top → h.live x = true := by
    intro x alive other
    rwa [alloc_fst_live, Function.update_of_ne other] at alive
  refine ⟨fun x alive => ?_, fun x alive => ?_, fun x alive => ?_, fun x alive => ?_⟩ <;>
    by_cases same : x = h.top
  all_goals simp only [alloc_fst_parent, alloc_fst_sons, alloc_fst_sibling, alloc_fst_childCount]
  · rw [same, Function.update_self]
  · rw [Function.update_of_ne same, fresh.parent x (old x alive same)]
  · rw [same, Function.update_self]
  · rw [Function.update_of_ne same, fresh.sons x (old x alive same)]
  · rw [same, Function.update_self]
  · rw [Function.update_of_ne same, fresh.sibling x (old x alive same)]
  · rw [same, Function.update_self]
  · rw [Function.update_of_ne same, fresh.childCount x (old x alive same)]

theorem fresh_newObjects (names : List Text) : (newObjects names).Fresh := by
  induction names with
  | nil => exact ⟨by simp [newObjects, empty], by simp [newObjects, empty],
      by simp [newObjects, empty], by simp [newObjects, empty]⟩
  | cons name rest ih => exact ih.alloc name

theorem enumerates_of_run_remove :
    ∃ h₁ h₂ h₃, (newObjects [lit "c", lit "b", lit "a"]).exec (.appendChild 0 1) = .ok h₁ ∧
      h₁.exec (.appendChild 0 2) = .ok h₂ ∧ h₂.removeFromParent 2 = .ok h₃ ∧
      h₂.Enumerates 0 [1, 2] ∧ h₃.Enumerates 0 [1] := by
  have built : ∃ h₁ h₂, (newObjects [lit "c", lit "b", lit "a"]).exec (.appendChild 0 1) = .ok h₁ ∧
      h₁.exec (.appendChild 0 2) = .ok h₂ ∧
      h₁.OpOk (extend 0 1 fun _ => []) (.appendChild 0 2) ∧
      h₂.RemoveOk (extend 0 2 (extend 0 1 fun _ => [])) 2 ∧ h₂.live 0 = true ∧
      h₂.parent 2 = some 0 ∧ 1 < h₂.refcount 0 ∧
      (h₂.removeFromParent 2).map (fun h => h.live 0) = .ok true := by
    refine ⟨_, _, rfl, rfl, ⟨rfl, rfl, rfl, fun _ => ⟨[2], none, ⟨rfl, rfl⟩, ?_, ?_, ?_, ?_⟩⟩,
      ⟨rfl, fun p parent_eq => ?_⟩, rfl, rfl, by decide, rfl⟩
    · exact List.forall_mem_singleton.mpr rfl
    · exact List.forall_mem_singleton.mpr rfl
    · exact fun _ impossible => by cases impossible
    · exact fun _ impossible => by cases impossible
    · cases parent_eq
      refine ⟨rfl, by decide, [], some 2, ⟨rfl, ?_, ?_, ?_, ?_⟩, fun before => ⟨rfl, fun few => ?_⟩⟩
      · exact fun _ member => absurd member List.not_mem_nil
      · exact fun _ member => absurd member List.not_mem_nil
      · exact fun _ same => Option.some.inj same ▸ rfl
      · exact fun _ same => Option.some.inj same ▸ rfl
      · have three : (3 : Int) ≤ 1 := few
        exact absurd three (by decide)
  rcases built with ⟨h₁, h₂, first, second, appendOk, removeOk, alive, parent_eq, more, stays⟩
  have start : Run (newObjects [lit "c", lit "b", lit "a"]) fun _ => [] :=
    .start (fresh_newObjects _)
  have firstOk : (newObjects [lit "c", lit "b", lit "a"]).OpOk (fun _ => []) (.appendChild 0 1) :=
    ⟨rfl, rfl, rfl, fun some => absurd rfl some⟩
  have run := (start.call firstOk first).call appendOk second
  rcases (enumerates_of_run run).2.2 2 0 removeOk parent_eq more with ⟨h₃, third, enumerates⟩
  rw [third] at stays
  have still : h₃.live 0 = true := Except.ok.inj stays
  exact ⟨h₁, h₂, h₃, first, second, third, (enumerates_of_run run).1 0 alive, enumerates still⟩

/-- The calls one after the other. -/
def execAll (h : Heap) : List Op → Except Fault Heap
  | [] => .ok h
  | op :: rest => h.exec op >>= fun h' => h'.execAll rest

/-- After the first of two sons has been removed, the parent still points to it, and
nothing enumerates its sons. -/
theorem not_enumerates_after_first_son :
    ∃ h', (newObjects [lit "c", lit "b", lit "a"]).execAll
        [.appendChild 0 1, .appendChild 0 2, .removeFromParent 1] = .ok h' ∧
      h'.live 0 = true ∧ ¬ ∃ l, h'.Enumerates 0 l := by
  obtain ⟨h', result, alive, sons_eq, orphan⟩ :
      ∃ h', (newObjects [lit "c", lit "b", lit "a"]).execAll
          [.appendChild 0 1, .appendChild 0 2, .removeFromParent 1] = .ok h' ∧
        h'.live 0 = true ∧ h'.sons 0 = some 1 ∧ h'.parent 1 = none :=
    ⟨_, rfl, rfl, rfl, rfl⟩
  refine ⟨h', result, alive, ?_⟩
  rintro ⟨l, enumerates⟩
  have path := enumerates.path
  rw [sons_eq] at path
  cases l with
  | nil => cases path
  | cons x rest =>
      obtain rfl : x = 1 := (Option.some.inj path.1).symm
      have parent_eq := ((enumerates.mem 1).mp List.mem_cons_self).2
      rw [orphan] at parent_eq
      cases parent_eq

end Xwbot.Heap
