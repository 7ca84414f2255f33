import Xwbot.Object.References
import Xwbot.Object.Teardown

/-!
# Clearing a jingle object

At its end `jingle_parse_commit` drops references of the first child until this child is gone.
The object that is destroyed takes itself out of the list of its parent, and neither gives back the
parent's reference nor looks at its own children.
-/

namespace Xwbot.Jingle

open Heap Links

/-- The loop behind the label `_clear_the_state`. -/
def clearTheState : Nat → Heap → Addr → Except Fault (Heap × List Callback)
  | 0, _, _ => .error .hang
  | fuel + 1, h, thiz => do
      let tmp ← h.getChild (some thiz) none
      match tmp with
      | none => .ok (h, [])
      | some tmp => do
          let own := h.released (some tmp)
          let h ← h.refPut (some tmp)
          let (h, rest) ← clearTheState fuel h thiz
          .ok (h, own ++ rest)

/-- `jingle_parse_commit` up to the label.  `act` is the answer and what the handler of the action
does; an error gets neither. -/
def beforeClear (act : Heap → Addr → Except Fault Heap) (h : Heap) (thiz : Addr) :
    Except Fault Heap := do
  let type ← h.getenv (some thiz) (lit "type")
  match type with
  | none => .error .segv
  | some type => if eqText (lit "error") type then .ok h else act h thiz

/-- `jingle_parse_commit` -/
def jingleParseCommit (fuel : Nat) (act : Heap → Addr → Except Fault Heap) (h : Heap)
    (thiz : Addr) : Except Fault (Heap × List Callback) := do
  let h ← beforeClear act h thiz
  clearTheState fuel h thiz

/-! ## What is asked of it -/

/-- Each object of the grove is referenced by its creator, its parent, its children and so many
others. -/
def Referenced (h : Heap) (others : Addr → Nat) : Grove → Prop
  | .nil => True
  | .node x sons siblings => h.refcount x = 2 + sons.width + others x ∧
      Referenced h others sons ∧ Referenced h others siblings

/-- The tree of a jingle element: the objects below it are different, and so many others refer to
them. -/
structure Parsed (h : Heap) (thiz : Addr) (g : Grove) (others : Addr → Nat) : Prop where
  linked : h.Linked
  root : IsRoot h thiz g
  nodup : (thiz :: g.nodes).Nodup
  below : h.parent thiz ≠ some thiz
  referenced : Referenced h others g

/-- What is asked of the state behind the label: no children are left, an object below is destroyed
exactly if nobody else refers to it, and once, no pointer to a parent is left hanging, and the
references of the children are given back. -/
structure Cleared (h : Heap) (thiz : Addr) (g : Grove) (others : Addr → Nat) (h' : Heap)
    (log : List Callback) : Prop where
  childless : h'.sons thiz = none
  destroyed : ∀ x ∈ g.nodes, others x = 0 →
    h'.live x = false ∧ log.count (.onRelease x) = 1
  spared : ∀ x ∈ g.nodes, 0 < others x → h'.live x = true
  parents : ∀ y q, h'.live y = true → h'.parent y = some q → h.live q = true → h'.live q = true
  refcount : h'.refcount thiz = h.refcount thiz - g.width

/-- The program gets through, and what it leaves is cleared. -/
def CleansUp (act : Heap → Addr → Except Fault Heap) (h : Heap) (thiz : Addr) (h₁ : Heap)
    (g : Grove) (others : Addr → Nat) : Prop :=
  ∃ n, ∀ fuel, n ≤ fuel → ∃ h' log, jingleParseCommit fuel act h thiz = .ok (h', log) ∧
    Cleared h₁ thiz g others h' log

/-! ## The loop -/

variable {h h' h₁ : Heap} {thiz x y : Addr} {g : Grove} {others : Addr → Nat} {fuel : Nat}
  {log : List Callback} {act : Heap → Addr → Except Fault Heap}

theorem refcount_of_destroyNoCb (result : h.destroyNoCb x = .ok h') : h'.refcount = h.refcount := by
  unfold Heap.destroyNoCb at result
  rcases bind_eq_ok_iff.mp result with ⟨y, found, rest⟩
  cases parent_eq : h.parent y with
  | none =>
      rw [parent_eq] at rest
      cases rest
      rfl
  | some q =>
      rw [parent_eq] at rest
      rcases bind_eq_ok_iff.mp rest with ⟨q', -, behindParent⟩
      rcases bind_eq_ok_iff.mp behindParent with ⟨h₁, unlinked, behindSibling⟩
      rcases bind_eq_ok_iff.mp behindSibling with ⟨h₂, cut, freed⟩
      have second := sameCounts_of_unlinkNext cut
      have first : h₁.refcount = h.refcount := by
        unfold Heap.unlinkSibling at unlinked
        rcases bind_eq_ok_iff.mp unlinked with ⟨⟨before, found⟩, -, stored⟩
        cases before <;> cases found <;> cases stored <;> rfl
      cases freed
      exact second.refcount.trans first

/-- Giving up a reference to one object changes the count of no other. -/
theorem refcount_of_refPut (result : h.refPut (some x) = .ok h') (other : y ≠ x) :
    h'.refcount y = h.refcount y := by
  unfold Heap.refPut at result
  rcases bind_eq_ok_iff.mp result with ⟨x', found, rest⟩
  rcases deref_eq_ok_iff.mp found with ⟨-, rfl⟩
  have lowered : (h.setRefcount x' (h.refcount x' - 1)).refcount y = h.refcount y :=
    Function.update_of_ne other _ _
  dsimp only at rest
  split at rest
  · rw [refcount_of_destroyNoCb rest, lowered]
  · cases rest
    exact lowered

/-- The loop leaves no children, and the count of the object as it was. -/
theorem clearTheState_eq_ok (linked : h.Linked) (alive : h.live thiz = true)
    (below : h.parent thiz ≠ some thiz) (result : clearTheState fuel h thiz = .ok (h', log)) :
    h'.sons thiz = none ∧ h'.refcount thiz = h.refcount thiz := by
  induction fuel generalizing h log with
  | zero => cases result
  | succ fuel ih =>
      rw [clearTheState] at result
      rcases bind_eq_ok_iff.mp result with ⟨tmp, looked, rest⟩
      cases tmp with
      | none =>
          cases rest
          rw [getChild, deref_of_live alive, ok_bind] at looked
          exact ⟨Except.ok.inj looked, rfl⟩
      | some tmp =>
          rcases bind_eq_ok_iff.mp rest with ⟨h₁, put, rest⟩
          rcases bind_eq_ok_iff.mp rest with ⟨⟨h₂, later⟩, looped, same⟩
          cases same
          rcases linked.getChild alive none with ⟨found, looked', sons⟩
          cases looked.symm.trans looked'
          have other : thiz ≠ tmp := by
            rintro rfl
            exact below (sons thiz rfl).2
          rcases linked.putDown put with ⟨down, linked₁⟩
          have alive₁ : h₁.live thiz = true := (down.live thiz other).trans alive
          have below₁ : h₁.parent thiz ≠ some thiz := by
            rw [down.parent thiz other]
            exact below
          rcases ih linked₁ alive₁ below₁ looped with ⟨none, count⟩
          exact ⟨none, count.trans (refcount_of_refPut put other)⟩

theorem clearTheState_of_childless (alive : h.live thiz = true) (none : h.sons thiz = none) :
    clearTheState (fuel + 1) h thiz = .ok (h, []) := by
  rw [clearTheState, getChild, deref_of_live alive]
  simp only [ok_bind, none]

/-! ## The whole commit -/

/-- **Clearing works exactly if there is nothing to clear.**  The reference that a child has taken
of the jingle object is never given back. -/
theorem cleansUp_iff_childless (reached : beforeClear act h thiz = .ok h₁)
    (parsed : Parsed h₁ thiz g others) :
    CleansUp act h thiz h₁ g others ↔ h₁.sons thiz = none := by
  have alive := parsed.root.live
  have commit : ∀ fuel, jingleParseCommit fuel act h thiz = clearTheState fuel h₁ thiz := by
    intro fuel
    rw [jingleParseCommit, reached, ok_bind]
  constructor
  · rintro ⟨n, cleans⟩
    rcases cleans n le_rfl with ⟨h', log, result, cleared⟩
    rw [commit] at result
    rcases clearTheState_eq_ok parsed.linked alive parsed.below result with ⟨-, count⟩
    have lowered := cleared.refcount
    cases g with
    | nil => exact parsed.root.below
    | node c below beside =>
        rw [count, Grove.width] at lowered
        push_cast at lowered
        omega
  · intro none
    have empty : g = .nil := by
      cases g with
      | nil => rfl
      | node c below beside =>
          rw [show h₁.sons thiz = some c from parsed.root.below.1] at none
          cases none
    subst empty
    refine ⟨1, fun fuel enough => ⟨h₁, [], ?_, ?_⟩⟩
    · rcases Nat.exists_eq_add_of_le' enough with ⟨fuel, rfl⟩
      rw [commit]
      exact clearTheState_of_childless alive none
    · constructor
      case childless => exact none
      case destroyed => exact fun x member => (List.not_mem_nil member).elim
      case spared => exact fun x member => (List.not_mem_nil member).elim
      case parents => exact fun _ q _ _ live => live
      case refcount => simp [Grove.width]

/-! ## Examples of errors -/

theorem linked_of_fresh (fresh : h.Fresh) : h.Linked where
  rep := ⟨_, fresh.rep⟩
  allocated x alive p parent_eq := by
    rw [fresh.parent x alive] at parent_eq
    cases parent_eq

/-- A jingle object of an error, with objects for what is below it. -/
def failed (names : List Text) : Heap :=
  (newObjects (names ++ [lit "jingle"])).setAttrs 0 [(lit "type", lit "error")]

theorem linked_of_notify (linked : h.Linked) (result : h.notify = .ok h') : h'.Linked :=
  ((linked.alloc (lit "$message") none).putDown result).2

theorem linked_of_appendChild (linked : h.Linked) (orphan : h.parent y = none)
    (result : h.appendChild x y = .ok h') : h'.Linked := by
  rcases bind_eq_ok_iff.mp result with ⟨h₁, appended, behind⟩
  rcases bind_eq_ok_iff.mp behind with ⟨_, -, notified⟩
  exact linked_of_notify (linked.appended orphan appended) notified

/-- A content with a description, as the bus appends them, and what the commit leaves of it: the
content is destroyed, the description is not and keeps its pointer to it, and the jingle object its
reference. -/
theorem parsed_content : ∃ h, (failed [lit "description", lit "content"]).execAll
        [.appendChild 1 2, .appendChild 0 1] = .ok h ∧
      beforeClear (fun h _ => .ok h) h 0 = .ok h ∧
      Parsed h 0 (.node 1 (.node 2 .nil .nil) .nil) (fun _ => 0) ∧
      ∀ n, ∃ h' log, jingleParseCommit (n + 4) (fun h _ => .ok h) h 0 = .ok (h', log) ∧
        h'.live 2 = true ∧ h'.parent 2 = some 1 ∧ h'.live 1 = false ∧
          h'.refcount 0 = h.refcount 0 := by
  have built : ∃ h₁ h₂, (failed [lit "description", lit "content"]).appendChild 1 2 = .ok h₁ ∧
      h₁.parent 1 = none ∧ h₁.appendChild 0 1 = .ok h₂ ∧
      beforeClear (fun h _ => .ok h) h₂ 0 = .ok h₂ ∧
      IsRoot h₂ 0 (.node 1 (.node 2 .nil .nil) .nil) ∧ h₂.parent 0 = none ∧
      Referenced h₂ (fun _ => 0) (.node 1 (.node 2 .nil .nil) .nil) ∧
      ∀ n, ∃ h' log, jingleParseCommit (n + 4) (fun h _ => .ok h) h₂ 0 = .ok (h', log) ∧
        h'.live 2 = true ∧ h'.parent 2 = some 1 ∧ h'.live 1 = false ∧
          h'.refcount 0 = h₂.refcount 0 :=
    ⟨_, _, rfl, rfl, rfl, rfl, ⟨rfl, rfl, rfl, rfl, ⟨rfl, rfl, rfl, rfl, rfl⟩, rfl⟩, rfl,
      ⟨rfl, ⟨rfl, trivial, trivial⟩, trivial⟩, fun n => ⟨_, _, rfl, rfl, rfl, rfl, rfl⟩⟩
  rcases built with ⟨h₁, h₂, first, orphan, second, reached, root, top, referenced, commits⟩
  have linked : (failed [lit "description", lit "content"]).Linked :=
    (linked_of_fresh (fresh_newObjects _)).setAttrs _
  have linked₁ := linked_of_appendChild linked rfl first
  refine ⟨h₂, ?_, reached, ?_, commits⟩
  · simp only [execAll, exec, first, second, ok_bind]
  · constructor
    case linked => exact linked_of_appendChild linked₁ orphan second
    case root => exact root
    case nodup => decide
    case below =>
      rw [top]
      rintro ⟨⟩
    case referenced => exact referenced

/-- The content with its description. -/
theorem cleansUp_iff_childless_content :
    ∃ h, (failed [lit "description", lit "content"]).execAll
        [.appendChild 1 2, .appendChild 0 1] = .ok h ∧
      (CleansUp (fun h _ => .ok h) h 0 h (.node 1 (.node 2 .nil .nil) .nil) (fun _ => 0) ↔
        h.sons 0 = none) := by
  rcases parsed_content with ⟨h, built, reached, parsed, -⟩
  exact ⟨h, built, cleansUp_iff_childless reached parsed⟩

/-- The content with its description is not cleaned up. -/
theorem not_cleansUp_content :
    ∃ h, (failed [lit "description", lit "content"]).execAll
        [.appendChild 1 2, .appendChild 0 1] = .ok h ∧
      IsRoot h 0 (.node 1 (.node 2 .nil .nil) .nil) ∧
      Referenced h (fun _ => 0) (.node 1 (.node 2 .nil .nil) .nil) ∧
      ¬CleansUp (fun h _ => .ok h) h 0 h (.node 1 (.node 2 .nil .nil) .nil) (fun _ => 0) := by
  rcases parsed_content with ⟨h, built, -, parsed, commits⟩
  refine ⟨h, built, parsed.root, parsed.referenced, ?_⟩
  rintro ⟨n, cleans⟩
  rcases cleans (n + 4) (Nat.le_add_right n 4) with ⟨h', log, returned, cleared⟩
  rcases commits n with ⟨h'', log', returned', -, -, -, count⟩
  cases returned.symm.trans returned'
  have lowered := cleared.refcount
  rw [count, Grove.width, Grove.width] at lowered
  push_cast at lowered
  omega

end Xwbot.Jingle
