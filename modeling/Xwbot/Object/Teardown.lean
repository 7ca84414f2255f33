import Xwbot.Object.Grove
import Xwbot.Object.Linked
import Xwbot.Object.TreeRun

/-!
# Tearing down a tree

`x_object_destroy_tree` destroys the children of an object from the first one on.  Each is
unlinked by `x_object_remove_from_parent`, which leaves the parent's pointer to its first son
alone.  So the pointer is never cleared, and when there is a second child its turn begins with
a walk from the first one, whose memory has been given back.
-/

namespace Xwbot.Heap

/-! ## The functions of the source -/

/-- A place at which a callback of the object's class is called. -/
inductive Callback where
  | onTreeDestroy (x : Addr)
  | onRemove (x : Addr)
  | onRelease (x : Addr)
  deriving DecidableEq, Repr

/-- The callback of `x_object_ref_put`, if it destroys the object. -/
def released (h : Heap) : Option Addr → List Callback
  | none => []
  | some o => if h.refcount o ≤ 1 then [.onRelease o] else []

/-- `x_object_remove_from_parent` before it drops the references. -/
def takeFromParent (h : Heap) (xobj : Addr) : Except Fault Heap :=
  match h.parent xobj with
  | none => .ok h
  | some p => do
      let p ← h.deref (some p)
      h.getIndex xobj
      let h ← h.removeFromTreenode p xobj
      h.notify

/-- `x_object_remove_from_parent` with its callbacks. -/
def removeFromParentCb (h : Heap) (xobj : Addr) : Except Fault (Heap × List Callback) := do
  let xobj ← h.deref (some xobj)
  let parent := h.parent xobj
  let h ← h.takeFromParent xobj
  let own := h.released (some xobj)
  let h ← h.refPut (some xobj)
  let parents := h.released parent
  let h ← h.refPut parent
  .ok (h, .onRemove xobj :: own ++ parents)

/-- `x_object_destroy_tree`, when `loop` is its loop over the children.  The object's name is
printed in the end. -/
def destroyTreeWith (loop : Heap → Option Addr → Except Fault (Heap × List Callback))
    (h : Heap) (thiz : Addr) : Except Fault (Heap × List Callback) := do
  let thiz ← h.deref (some thiz)
  let (h, log) ← loop h (h.sons thiz)
  let thiz ← h.deref (some thiz)
  .ok (h, .onTreeDestroy thiz :: log)

/-- The loop of `x_object_destroy_tree`. -/
def destroyChildren : Nat → Heap → Option Addr → Except Fault (Heap × List Callback)
  | 0, _, _ => .error .hang
  | _ + 1, h, none => .ok (h, [])
  | fuel + 1, h, some chld => do
      let (h, below) ← destroyTreeWith (destroyChildren fuel) h chld
      -- save next
      let next := h.sibling chld
      -- drop child
      let (h, removed) ← h.removeFromParentCb chld
      -- schedule for deletion, after the name has been printed
      let chld ← h.deref (some chld)
      let own := h.released (some chld)
      let h ← h.refPut (some chld)
      let (h, rest) ← destroyChildren fuel h next
      .ok (h, below ++ removed ++ own ++ rest)

/-- `x_object_destroy_tree`: the heap, and the callbacks in the order in which they are
called.  Callbacks change nothing. -/
def destroyTree (fuel : Nat) (h : Heap) (thiz : Addr) : Except Fault (Heap × List Callback) :=
  destroyTreeWith (destroyChildren fuel) h thiz

/-- The callbacks aside, it is the function of the object tree. -/
theorem map_removeFromParentCb (h : Heap) (x : Addr) :
    Prod.fst <$> h.removeFromParentCb x = h.removeFromParent x := by
  simp only [removeFromParentCb, removeFromParent, takeFromParent, map_bind]
  refine bind_congr fun y => ?_
  cases h.parent y with
  | none =>
      refine bind_congr fun h₁ => bind_congr fun h₂ => ?_
      exact bind_pure (h₂.refPut none)
  | some p =>
      simp only [bind_assoc]
      refine bind_congr fun _ => bind_congr fun _ => bind_congr fun _ => bind_congr fun _ =>
        bind_congr fun h₂ => ?_
      exact bind_pure (h₂.refPut (some p))

/-! ## What is left of the heap -/

variable {h h₁ h₂ h' : Heap} {p x c : Addr}

/-- From `h` to `h'` the objects `gone` have been destroyed, and every other object has lost
some references and keeps its links. -/
structure Torn (h h' : Heap) (gone : List Addr) (lost : Addr → Int) : Prop where
  top : h.top ≤ h'.top
  destroyed : ∀ y ∈ gone, y < h.top ∧ h'.live y = false
  dead : ∀ y < h.top, h.live y = false → h'.live y = false
  live : ∀ y, h.live y = true → y ∉ gone → h'.live y = true
  links : ∀ y, h.live y = true → y ∉ gone →
    h'.parent y = h.parent y ∧ h'.sons y = h.sons y ∧ h'.sibling y = h.sibling y
  refcount : ∀ y, h.live y = true → y ∉ gone → h'.refcount y = h.refcount y - lost y

theorem Torn.refl (h : Heap) : Torn h h [] fun _ => 0 where
  top := le_rfl
  destroyed _ member := (List.not_mem_nil member).elim
  dead _ _ dead := dead
  live _ alive _ := alive
  links _ _ _ := ⟨rfl, rfl, rfl⟩
  refcount _ _ _ := (Int.sub_zero _).symm

theorem Torn.trans {gone gone' : List Addr} {lost lost' : Addr → Int}
    (first : Torn h h₁ gone lost) (second : Torn h₁ h₂ gone' lost')
    (old : ∀ y ∈ gone', y < h.top) :
    Torn h h₂ (gone ++ gone') fun y => lost y + lost' y where
  top := first.top.trans second.top
  destroyed y member := by
    rcases List.mem_append.mp member with before | behind
    · rcases first.destroyed y before with ⟨inside, dead⟩
      exact ⟨inside, second.dead y (inside.trans_le first.top) dead⟩
    · exact ⟨old y behind, (second.destroyed y behind).2⟩
  dead y inside dead := second.dead y (inside.trans_le first.top) (first.dead y inside dead)
  live y alive outside := by
    rw [List.mem_append, not_or] at outside
    exact second.live y (first.live y alive outside.1) outside.2
  links y alive outside := by
    rw [List.mem_append, not_or] at outside
    rcases first.links y alive outside.1 with ⟨parent_eq, sons_eq, sibling_eq⟩
    rcases second.links y (first.live y alive outside.1) outside.2 with
      ⟨parent_eq', sons_eq', sibling_eq'⟩
    exact ⟨parent_eq'.trans parent_eq, sons_eq'.trans sons_eq, sibling_eq'.trans sibling_eq⟩
  refcount y alive outside := by
    rw [List.mem_append, not_or] at outside
    rw [second.refcount y (first.live y alive outside.1) outside.2,
      first.refcount y alive outside.1]
    ring

/-- What an object that is gone has lost does not matter. -/
theorem Torn.congr {gone : List Addr} {lost lost' : Addr → Int} (torn : Torn h h' gone lost)
    (same : ∀ y ∉ gone, lost y = lost' y) : Torn h h' gone lost' where
  top := torn.top
  destroyed := torn.destroyed
  dead := torn.dead
  live := torn.live
  links := torn.links
  refcount y alive outside := by rw [torn.refcount y alive outside, same y outside]

theorem Torn.perm {gone gone' : List Addr} {lost : Addr → Int} (torn : Torn h h' gone lost)
    (same : ∀ y, y ∈ gone' ↔ y ∈ gone) : Torn h h' gone' lost where
  top := torn.top
  destroyed y member := torn.destroyed y ((same y).mp member)
  dead := torn.dead
  live y alive outside := torn.live y alive (mt (same y).mpr outside)
  links y alive outside := torn.links y alive (mt (same y).mpr outside)
  refcount y alive outside := torn.refcount y alive (mt (same y).mpr outside)

/-- A grove none of whose objects is gone still stands. -/
theorem Torn.stands {gone : List Addr} {lost : Addr → Int} {g : Grove}
    {parent start : Option Addr} (torn : Torn h h' gone lost) (stands : g.Stands h parent start)
    (apart : ∀ y ∈ g.nodes, y ∉ gone) : g.Stands h' parent start := by
  refine stands.congr (fun y member => ?_) fun y member => ?_
  · have alive := stands.live_of_mem member
    rw [torn.live y alive (apart y member), alive]
  · exact torn.links y (stands.live_of_mem member) (apart y member)

/-! ## The tree -/

/-- The objects below `p` are different, and each of them is referenced by its creator, its
parent and its own children only.  Somebody besides its children refers to `p`. -/
structure Family (h : Heap) (p : Addr) (g : Grove) : Prop where
  root : IsRoot h p g
  nodup : (p :: g.nodes).Nodup
  counted : g.Counted h
  held : g.width < h.refcount p

section Families

variable {below beside : Grove}

theorem Family.notMem {g : Grove} (family : h.Family p g) : p ∉ g.nodes :=
  (List.nodup_cons.mp family.nodup).1

/-- The first child is not the parent, and neither is below the other or beside it. -/
theorem Family.apart (family : h.Family p (.node c below beside)) :
    p ≠ c ∧ p ∉ below.nodes ∧ c ∉ below.nodes ∧ p ∉ beside.nodes := by
  have outside := family.notMem
  rw [Grove.nodes, List.mem_cons, List.mem_append] at outside
  have nodup := (List.nodup_cons.mp family.nodup).2
  rw [Grove.nodes, List.nodup_cons, List.mem_append] at nodup
  exact ⟨fun same => outside (.inl same), fun member => outside (.inr (.inl member)),
    fun member => nodup.1 (.inl member), fun member => outside (.inr (.inr member))⟩

theorem Family.son (family : h.Family p (.node c below beside)) : h.Family c below := by
  rcases family.root.below with ⟨-, alive, -, stands, -⟩
  constructor
  case root => exact ⟨alive, stands⟩
  case nodup =>
    have nodup := (List.nodup_cons.mp family.nodup).2
    rw [Grove.nodes, List.nodup_cons, List.nodup_append] at nodup
    exact List.nodup_cons.mpr ⟨family.apart.2.2.1, nodup.2.1⟩
  case counted => exact family.counted.2.1
  case held =>
    rw [family.counted.1]
    omega

end Families

/-! ## Removing the first son -/

theorem follow_first {field : Addr → Option Addr} {stop : Addr → Bool} (alive : h.live x = true)
    (stops : stop x = true) : h.follow field stop (some x) = .ok (none, some x) := by
  refine h.follow_of_passes (l := []) ⟨rfl, by simp, by simp, ?_, ?_⟩
  · rintro y ⟨⟩
    exact alive
  · rintro y ⟨⟩
    exact stops

theorem follow_dead {field : Addr → Option Addr} {stop : Addr → Bool} (dead : h.live x = false)
    (inside : x < h.top) : h.follow field stop (some x) = .error .freed := by
  rcases Nat.exists_eq_add_of_lt inside with ⟨n, top_eq⟩
  rw [follow, top_eq, Links.scan, dead]
  rfl

/-- The first son is unlinked, but the parent still points to it. -/
theorem removeFromTreenode_first (alive : h.live x = true) (aliveP : h.live p = true)
    (first : h.sons p = some x) :
    h.removeFromTreenode p x =
      .ok ((((h.setParent x none).setNext x none).setSibling x none).setChildCount p
        (if h.childCount p ≤ 0 then h.childCount p else h.childCount p - 1)) := by
  have named : (h.setParent x none).getChild (some p) (some (h.name x)) = .ok (some x) := by
    have found : (h.setParent x none).follow h.sibling (fun y => eqnText (h.name y) (h.name x))
        (some x) = .ok (none, some x) := follow_first alive (eqnText_refl _)
    simp only [getChild, deref_of_live (h := h.setParent x none) aliveP, ok_bind,
      setParent_sons, setParent_sibling, setParent_name, first, found]
  have chained : (h.setParent x none).follow h.next (· = x) (some x) = .ok (none, some x) :=
    follow_first alive (decide_eq_true rfl)
  have unlinked : (h.setParent x none).unlinkNext p x =
      .ok ((h.setParent x none).setNext x none) := by
    simp only [unlinkNext, setParent_name, setParent_next, named, ok_bind, chained]
  have listed : ((h.setParent x none).setNext x none).follow h.sibling (· = x) (some x) =
      .ok (none, some x) := follow_first alive (decide_eq_true rfl)
  simp only [removeFromTreenode, setParent_sons, first, unlinked, ok_bind, removeSibling,
    setNext_sons, setNext_sibling, setParent_sibling, listed]
  rfl

/-- Taking the first son from its parent. -/
theorem takeFromParent_first (alive : h.live x = true) (aliveP : h.live p = true)
    (parent_eq : h.parent x = some p) (first : h.sons p = some x) :
    ∃ h', h.takeFromParent x = .ok h' ∧ h'.top = h.top + 1 ∧ h'.live = h.live ∧
      h'.parent x = none ∧ (∀ y, h.live y = true → h'.refcount y = h.refcount y) ∧
      ∀ y, h.live y = true → y ≠ x →
        h'.parent y = h.parent y ∧ h'.sons y = h.sons y ∧ h'.sibling y = h.sibling y := by
  have indexed : h.getIndex x = .ok () := by
    have found : h.follow h.sibling (· = x) (some x) = .ok (none, some x) :=
      follow_first alive (decide_eq_true rfl)
    simp only [getIndex, parent_eq, deref_of_live aliveP, ok_bind, first, found]
  have removed := removeFromTreenode_first alive aliveP first
  rcases notify_eq_ok ((((h.setParent x none).setNext x none).setSibling x none).setChildCount p
    (if h.childCount p ≤ 0 then h.childCount p else h.childCount p - 1)) with
    ⟨h', notified, agree, top_eq⟩
  refine ⟨h', ?_, top_eq, agree.live, ?_, fun y aliveY => agree.refcount y aliveY,
    fun y aliveY other => ⟨?_, agree.sons y aliveY, ?_⟩⟩
  · simp only [takeFromParent, parent_eq, deref_of_live aliveP, ok_bind, indexed, removed, notified]
  · rw [agree.parent x alive]
    exact Function.update_self ..
  · rw [agree.parent y aliveY]
    exact Function.update_of_ne other ..
  · rw [agree.sibling y aliveY]
    exact Function.update_of_ne other ..

/-- The first son, which its creator and its parent refer to, is destroyed by the two calls
that drop it. -/
theorem torn_of_first (alive : h.live x = true) (aliveP : h.live p = true) (other : x ≠ p)
    (parent_eq : h.parent x = some p) (first : h.sons p = some x) (twice : h.refcount x = 2)
    (held : 1 < h.refcount p) :
    ∃ h₁ log h₂, h.removeFromParentCb x = .ok (h₁, log) ∧ h₁.live x = true ∧
      h₁.refPut (some x) = .ok h₂ ∧ Torn h h₂ [x] fun y => if y = p then 1 else 0 := by
  rcases takeFromParent_first alive aliveP parent_eq first with
    ⟨h₀, taken, top_eq, live_eq, orphan, count_eq, links⟩
  have aliveX₀ : h₀.live x = true := by rw [live_eq, alive]
  have aliveP₀ : h₀.live p = true := by rw [live_eq, aliveP]
  have twice₀ : h₀.refcount x = 2 := by rw [count_eq x alive, twice]
  have held₀ : 1 < h₀.refcount p := by rw [count_eq p aliveP]; exact held
  -- the parent link is dropped: one reference is left
  have putX := refPut_of_many aliveX₀ (by rw [twice₀]; decide)
  have putP : (h₀.setRefcount x (h₀.refcount x - 1)).refPut (some p) =
      .ok ((h₀.setRefcount x (h₀.refcount x - 1)).setRefcount p (h₀.refcount p - 1)) := by
    have same : (h₀.setRefcount x (h₀.refcount x - 1)).refcount p = h₀.refcount p :=
      Function.update_of_ne other.symm ..
    have put := refPut_of_many (h := h₀.setRefcount x (h₀.refcount x - 1)) aliveP₀
      (by rw [same]; exact held₀)
    rwa [same] at put
  have once : ((h₀.setRefcount x (h₀.refcount x - 1)).setRefcount p (h₀.refcount p - 1)).refcount x
      = 1 := by
    rw [setRefcount_refcount, Function.update_of_ne other, setRefcount_refcount,
      Function.update_self, twice₀]
    rfl
  have putLast := refPut_of_orphan
    (h := (h₀.setRefcount x (h₀.refcount x - 1)).setRefcount p (h₀.refcount p - 1)) (x := x)
    aliveX₀ orphan
  rw [release, if_pos once.le] at putLast
  have removed : ∃ log, h.removeFromParentCb x =
      .ok ((h₀.setRefcount x (h₀.refcount x - 1)).setRefcount p (h₀.refcount p - 1), log) := by
    simp only [removeFromParentCb, deref_of_live alive, ok_bind, taken, putX, parent_eq, putP]
    exact ⟨_, rfl⟩
  rcases removed with ⟨log, removed⟩
  refine ⟨_, log, _, removed, aliveX₀, putLast, ?_⟩
  constructor
  case top => exact top_eq ▸ Nat.le_succ h.top
  case destroyed =>
    intro y member
    rw [List.mem_singleton.mp member]
    exact ⟨h.live_lt x alive, Function.update_self ..⟩
  case dead =>
    intro y _ dead
    have different : y ≠ x := by
      rintro rfl
      rw [alive] at dead
      cases dead
    rw [free_live, Function.update_of_ne different]
    exact (congrFun live_eq y).trans dead
  case live =>
    intro y aliveY outside
    rw [free_live, Function.update_of_ne (by simpa using outside)]
    exact (congrFun live_eq y).trans aliveY
  case links =>
    intro y aliveY outside
    exact links y aliveY (by simpa using outside)
  case refcount =>
    intro y aliveY outside
    have different : y ≠ x := by simpa using outside
    rw [free_refcount, setRefcount_refcount, Function.update_of_ne different]
    by_cases parents : y = p
    · rw [parents, setRefcount_refcount, Function.update_self, count_eq p aliveP, if_pos rfl]
    · rw [setRefcount_refcount, Function.update_of_ne parents, setRefcount_refcount,
        Function.update_of_ne different, count_eq y aliveY, if_neg parents, Int.sub_zero]

/-! ## A second son -/

/-- The walk that looks for the place of another son begins at the first one. -/
theorem removeFromParentCb_dead (alive : h.live x = true) (aliveP : h.live p = true)
    (parent_eq : h.parent x = some p) (first : h.sons p = some c) (dead : h.live c = false)
    (inside : c < h.top) : h.removeFromParentCb x = .error .freed := by
  have indexed : h.getIndex x = .error .freed := by
    simp only [getIndex, parent_eq, deref_of_live aliveP, ok_bind, first,
      follow_dead dead inside, error_bind]
  simp only [removeFromParentCb, deref_of_live alive, ok_bind, takeFromParent, parent_eq,
    deref_of_live aliveP, indexed, error_bind]

/-! ## The loop over the children -/

theorem Torn.counted {gone : List Addr} {lost : Addr → Int} {g : Grove}
    {parent start : Option Addr} (torn : Torn h h' gone lost) (stands : g.Stands h parent start)
    (counted : g.Counted h) (apart : ∀ y ∈ g.nodes, y ∉ gone ∧ lost y = 0) : g.Counted h' := by
  induction g generalizing start parent with
  | nil => trivial
  | node x sons siblings ihSons ihSiblings =>
      rcases stands with ⟨-, alive, -, below, beside⟩
      rcases counted with ⟨count_eq, countedSons, countedSiblings⟩
      rw [Grove.nodes, List.forall_mem_cons, List.forall_mem_append] at apart
      rcases apart with ⟨⟨outside, nothing⟩, apartSons, apartSiblings⟩
      refine ⟨?_, ihSons below countedSons apartSons, ihSiblings beside countedSiblings
        apartSiblings⟩
      rw [torn.refcount x alive outside, nothing, Int.sub_zero, count_eq]

/-- When the first child is gone, the second one and what is below it is as it was. -/
theorem Torn.second {below below' beside : Grove} {d : Addr}
    (torn : Torn h h' (c :: below.nodes) fun y => if y = p then 1 else 0)
    (family : h.Family p (.node c below (.node d below' beside))) :
    h'.Family d below' ∧ h'.parent d = some p := by
  rcases family.root.below with ⟨-, -, -, -, -, alive, parent_eq, stands, -⟩
  rcases family.counted with ⟨-, -, count_eq, counted, -⟩
  have nodup := (List.nodup_cons.mp family.nodup).2
  rw [Grove.nodes, List.nodup_cons, List.nodup_append] at nodup
  rcases nodup with ⟨notC, -, nodup', apart⟩
  have parents : p ∉ d :: (below'.nodes ++ beside.nodes) := family.apart.2.2.2
  have outside : ∀ y ∈ d :: (below'.nodes ++ beside.nodes), y ∉ c :: below.nodes ∧ y ≠ p := by
    intro y member
    constructor
    · intro gone
      rcases List.mem_cons.mp gone with rfl | gone
      · exact notC (List.mem_append_right _ member)
      · exact apart y gone y member rfl
    · rintro rfl
      exact parents member
  have outside' : ∀ y ∈ below'.nodes, y ∉ c :: below.nodes ∧ y ≠ p := fun y member =>
    outside y (List.mem_cons_of_mem _ (List.mem_append_left _ member))
  rcases outside d List.mem_cons_self with ⟨outsideD, otherD⟩
  rcases torn.links d alive outsideD with ⟨parentD, sonsD, -⟩
  constructor
  · constructor
    case root =>
      refine ⟨torn.live d alive outsideD, ?_⟩
      rw [sonsD]
      exact torn.stands stands fun y member => (outside' y member).1
    case nodup =>
      rw [Grove.nodes, List.nodup_cons, List.mem_append, List.nodup_append] at nodup'
      exact List.nodup_cons.mpr ⟨fun member => nodup'.1 (.inl member), nodup'.2.1⟩
    case counted =>
      exact torn.counted stands counted fun y member =>
        ⟨(outside' y member).1, if_neg (outside' y member).2⟩
    case held =>
      rw [torn.refcount d alive outsideD, if_neg otherD, count_eq]
      omega
  · rw [parentD, parent_eq]

/-- A call that returns has gone through the loop. -/
theorem destroyTreeWith_eq_ok {loop : Heap → Option Addr → Except Fault (Heap × List Callback)}
    {log : List Callback} (result : destroyTreeWith loop h x = .ok (h', log)) :
    h.live x = true ∧ h'.live x = true ∧ ∃ inner, loop h (h.sons x) = .ok (h', inner) := by
  unfold destroyTreeWith at result
  rcases bind_eq_ok_iff.mp result with ⟨y, found, afterFirst⟩
  rcases deref_eq_ok_iff.mp found with ⟨alive, rfl⟩
  rcases bind_eq_ok_iff.mp afterFirst with ⟨⟨h₁, inner⟩, looped, afterLoop⟩
  rcases bind_eq_ok_iff.mp afterLoop with ⟨z, foundAgain, stored⟩
  rcases deref_eq_ok_iff.mp foundAgain with ⟨aliveAgain, rfl⟩
  cases stored
  exact ⟨alive, aliveAgain, inner, looped⟩

theorem destroyChildren_none {fuel : Nat} {log : List Callback}
    (result : destroyChildren fuel h none = .ok (h', log)) : h' = h := by
  cases fuel with
  | zero => cases result
  | succ fuel =>
      cases result
      rfl

/-- A loop that returns has met one child at most, and has destroyed everything below it. -/
def Clears (fuel : Nat) : Prop :=
  ∀ ⦃h h' : Heap⦄ ⦃p : Addr⦄ ⦃g : Grove⦄ ⦃log : List Callback⦄, h.Family p g →
    destroyChildren fuel h (h.sons p) = .ok (h', log) →
    Torn h h' g.nodes fun y => if y = p then g.width else 0

/-- The first child's turn. -/
theorem Clears.first {fuel : Nat} {below beside : Grove} {inner : List Callback}
    (clears : Clears fuel) (family : h.Family p (.node c below beside))
    (result : destroyTreeWith (destroyChildren fuel) h c = .ok (h₁, inner)) :
    ∃ h₂ removed h₃, h₁.sibling c = h.sibling c ∧ h₁.removeFromParentCb c = .ok (h₂, removed) ∧
      h₂.live c = true ∧ h₂.refPut (some c) = .ok h₃ ∧
      Torn h h₃ (c :: below.nodes) fun y => if y = p then 1 else 0 := by
  rcases family.root.below with ⟨first, alive, parent_eq, -, -⟩
  rcases family.apart with ⟨other, notBelow, apartBelow, -⟩
  rcases destroyTreeWith_eq_ok result with ⟨-, alive₁, inner, looped⟩
  have tornBelow := clears family.son looped
  have aliveP₁ := tornBelow.live p family.root.live notBelow
  rcases tornBelow.links p family.root.live notBelow with ⟨-, sonsP, -⟩
  rcases tornBelow.links c alive apartBelow with ⟨parentC, -, siblingC⟩
  have twice : h₁.refcount c = 2 := by
    rw [tornBelow.refcount c alive apartBelow, if_pos rfl, family.counted.1]
    ring
  have countP : h₁.refcount p = h.refcount p := by
    rw [tornBelow.refcount p family.root.live notBelow, if_neg other, Int.sub_zero]
  have held : 1 < h₁.refcount p := by
    have enough := family.held
    rw [Grove.width] at enough
    push_cast at enough
    omega
  rcases torn_of_first alive₁ aliveP₁ (Ne.symm other) (parentC.trans parent_eq)
    (sonsP.trans first) twice held with ⟨h₂, removed, h₃, removed_eq, alive₂, put_eq, tornC⟩
  refine ⟨h₂, removed, h₃, siblingC, removed_eq, alive₂, put_eq, ?_⟩
  have both := tornBelow.trans tornC fun y member => by
    rw [List.mem_singleton.mp member]
    exact h.live_lt c alive
  refine (both.perm fun y => ?_).congr fun y outside => ?_
  · rw [List.mem_append, List.mem_singleton, List.mem_cons, or_comm]
  · rw [List.mem_cons, not_or] at outside
    rw [if_neg outside.1, zero_add]

/-- The turn of a second child does not end. -/
theorem Clears.second {fuel : Nat} {g : Grove} {log : List Callback}
    (clears : ∀ m < fuel, Clears m) (family : h.Family x g) (aliveP : h.live p = true)
    (parent_eq : h.parent x = some p) (outside : p ∉ g.nodes) (first : h.sons p = some c)
    (dead : h.live c = false) (inside : c < h.top) :
    destroyChildren fuel h (some x) ≠ .ok (h', log) := by
  intro result
  cases fuel with
  | zero => cases result
  | succ fuel =>
      rw [destroyChildren] at result
      rcases bind_eq_ok_iff.mp result with ⟨⟨h₁, inner⟩, torn, afterTree⟩
      rcases destroyTreeWith_eq_ok torn with ⟨-, alive₁, inner, looped⟩
      have tornBelow := clears fuel fuel.lt_succ_self family looped
      rcases tornBelow.links x family.root.live family.notMem with ⟨parentX, -, -⟩
      rcases tornBelow.links p aliveP outside with ⟨-, sonsP, -⟩
      have stuck := removeFromParentCb_dead alive₁ (tornBelow.live p aliveP outside)
        (parentX.trans parent_eq) (sonsP.trans first) (tornBelow.dead c inside dead)
        (inside.trans_le tornBelow.top)
      simp only [stuck, error_bind] at afterTree
      cases afterTree

theorem clears (fuel : Nat) : Clears fuel := by
  induction fuel using Nat.strong_induction_on with
  | _ fuel ih =>
  intro h h' p g log family result
  cases fuel with
  | zero => cases result
  | succ fuel =>
  cases g with
  | nil =>
      have empty : h.sons p = none := family.root.below
      rw [empty] at result
      cases result
      exact (Torn.refl h).congr fun y _ => by simp [Grove.width]
  | node c below beside =>
      rcases family.root.below with ⟨first, alive, parent_eq, -, standsBeside⟩
      rw [first, destroyChildren] at result
      rcases bind_eq_ok_iff.mp result with ⟨⟨h₁, inner⟩, torn, afterTree⟩
      rcases (ih fuel fuel.lt_succ_self).first family torn with
        ⟨h₂, removed, h₃, sibling_eq, removed_eq, alive₂, put_eq, tornFirst⟩
      simp only [removed_eq, ok_bind, deref_of_live alive₂, put_eq, sibling_eq] at afterTree
      rcases bind_eq_ok_iff.mp afterTree with ⟨⟨h₄, rest⟩, restLooped, stored⟩
      cases beside with
      | nil =>
          have last : h.sibling c = none := standsBeside
          rw [last] at restLooped
          cases stored
          have same := destroyChildren_none restLooped
          subst same
          simpa [Grove.nodes, Grove.width] using tornFirst
      | node d below' beside' =>
          rw [show h.sibling c = some d from standsBeside.1] at restLooped
          rcases family.apart with ⟨other, notBelow, -, notBeside⟩
          have outside : p ∉ c :: below.nodes := by
            rw [List.mem_cons, not_or]
            exact ⟨other, notBelow⟩
          have aliveP := tornFirst.live p family.root.live outside
          rcases tornFirst.links p family.root.live outside with ⟨-, sonsP, -⟩
          rcases tornFirst.destroyed c List.mem_cons_self with ⟨inside, dead⟩
          rcases tornFirst.second family with ⟨familyD, parentD⟩
          rw [Grove.nodes, List.mem_cons, List.mem_append] at notBeside
          exact absurd restLooped (Clears.second (fun m less => ih m (less.trans fuel.lt_succ_self))
            familyD aliveP parentD (fun member => notBeside (.inr (.inl member)))
            (sonsP.trans first) dead (inside.trans_le tornFirst.top))

/-! ## The whole tree -/

/-- What is asked of a call for the object `t`: it returns, `t` has no children any more and has
lost the references that they held on it, and each object below it has had its callbacks once and
is destroyed. -/
def TearsDown (h : Heap) (t : Addr) (g : Grove) : Prop :=
  ∃ n, ∀ fuel, n ≤ fuel → ∃ h' log, destroyTree fuel h t = .ok (h', log) ∧
    h'.live t = true ∧ h'.sons t = none ∧ h'.childCount t = 0 ∧
    h'.refcount t = h.refcount t - g.width ∧
    ∀ x ∈ g.nodes, h'.live x = false ∧ log.count (.onTreeDestroy x) = 1 ∧
      log.count (.onRemove x) = 1 ∧ log.count (.onRelease x) = 1

/-- **The tree is torn down exactly when there is none.**  An object that has a child keeps its
pointer to it, which is then a pointer to freed memory. -/
theorem tearsDown_iff_childless {t : Addr} {g : Grove} (family : h.Family t g)
    (count : h.childCount t = g.width) : h.TearsDown t g ↔ h.sons t = none := by
  constructor
  · rintro ⟨n, tears⟩
    rcases tears n le_rfl with ⟨h', log, result, -, sons_eq, -⟩
    rcases destroyTreeWith_eq_ok result with ⟨alive, -, inner, looped⟩
    have torn := clears n family looped
    rw [← (torn.links t alive family.notMem).2.1, sons_eq]
  · intro childless
    have empty : g = .nil := by
      cases g with
      | nil => rfl
      | node c below beside =>
          rw [show h.sons t = some c from family.root.below.1] at childless
          cases childless
    subst empty
    refine ⟨1, fun fuel enough => ⟨h, [.onTreeDestroy t], ?_, family.root.live, childless, count,
      by simp [Grove.width], fun x member => (List.not_mem_nil member).elim⟩⟩
    obtain ⟨fuel, rfl⟩ := Nat.exists_eq_add_of_le' enough
    simp only [destroyTree, destroyTreeWith, deref_of_live family.root.live, ok_bind, childless,
      destroyChildren]

theorem tearsDown_iff_childless_son :
    ∃ h, (newObjects [lit "b", lit "a"]).execAll [.appendChild 0 1] = .ok h ∧
      (h.TearsDown 0 (.node 1 .nil .nil) ↔ h.sons 0 = none) := by
  have built : ∃ h, (newObjects [lit "b", lit "a"]).execAll [.appendChild 0 1] = .ok h ∧
      h.Family 0 (.node 1 .nil .nil) ∧ h.childCount 0 = 1 :=
    ⟨_, rfl, ⟨⟨rfl, rfl, rfl, rfl, rfl, rfl⟩, by decide, ⟨rfl, trivial, trivial⟩, by decide⟩, rfl⟩
  rcases built with ⟨h, result, family, count⟩
  exact ⟨h, result, tearsDown_iff_childless family count⟩

/-- With two children the call uses a freed object, however long it may run. -/
theorem not_tearsDown_two :
    ∃ h, (newObjects [lit "c", lit "b", lit "a"]).execAll
        [.appendChild 0 1, .appendChild 0 2] = .ok h ∧
      h.Family 0 (.node 1 .nil (.node 2 .nil .nil)) ∧ h.childCount 0 = 2 ∧
      (∀ n, h.destroyTree (n + 3) 0 = .error .freed) ∧
      ¬ h.TearsDown 0 (.node 1 .nil (.node 2 .nil .nil)) := by
  have built : ∃ h, (newObjects [lit "c", lit "b", lit "a"]).execAll
      [.appendChild 0 1, .appendChild 0 2] = .ok h ∧
      h.Family 0 (.node 1 .nil (.node 2 .nil .nil)) ∧ h.childCount 0 = 2 ∧
      ∀ n, h.destroyTree (n + 3) 0 = .error .freed :=
    ⟨_, rfl, ⟨⟨rfl, rfl, rfl, rfl, rfl, rfl, rfl, rfl, rfl, rfl⟩, by decide,
      ⟨rfl, trivial, rfl, trivial, trivial⟩, by decide⟩, rfl, fun _ => rfl⟩
  rcases built with ⟨h, result, family, count, fails⟩
  refine ⟨h, result, family, count, fails, ?_⟩
  rintro ⟨n, tears⟩
  rcases tears (n + 3) (Nat.le_add_right n 3) with ⟨h', log, returned, -⟩
  rw [fails n] at returned
  cases returned

end Xwbot.Heap
