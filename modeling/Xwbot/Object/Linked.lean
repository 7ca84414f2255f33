import Xwbot.Object.TreeInvariant

/-!
# Heaps whose links are in order

A heap is linked when its links represent some lists of sons, and chained when in
addition every chain of `next` links stays among the sons of one object and ends.
New objects and appended objects keep both.  Dropping the last reference to an
object keeps the first only: the chain of its name may begin behind it.
-/

namespace Xwbot.Heap

open Links

variable {h h' : Heap} {kids : Kids} {p x c : Addr}

/-- The links represent lists of sons, and no object points to one that is yet to be
allocated. -/
structure Linked (h : Heap) : Prop where
  rep : ∃ kids, h.Rep kids
  allocated : ∀ x, h.live x = true → ∀ p, h.parent x = some p → p < h.top

/-- From every object `next` leads through objects with the same parent to an end. -/
structure Chained (h : Heap) : Prop where
  path : ∀ x, h.live x = true → ∃ l, Path h.next (some x) l none ∧
    ∀ y ∈ l, h.live y = true ∧ h.parent y = h.parent x
  loose : ∀ x, h.live x = true → h.parent x = none → h.next x = none

theorem live_top (h : Heap) : h.live h.top = false := by
  rw [← Bool.not_eq_true]
  exact fun alive => absurd (h.live_lt _ alive) (lt_irrefl _)

theorem ne_top (alive : h.live x = true) : x ≠ h.top :=
  (h.live_lt x alive).ne

theorem deref_eq_ok_iff {y : Addr} : h.deref (some x) = .ok y ↔ h.live x = true ∧ y = x := by
  simp only [deref]
  split
  · next alive => simp [alive, eq_comm]
  · next dead => simp [dead]

/-! ## Heaps that agree on the links -/

theorem Linked.agree (linked : h.Linked) (agree : Agree h h') (top : h.top ≤ h'.top) :
    h'.Linked where
  rep := linked.rep.imp fun _ rep => rep.agree agree
  allocated y alive q parent_eq := by
    rw [agree.live] at alive
    rw [agree.parent y alive] at parent_eq
    exact (linked.allocated y alive q parent_eq).trans_le top

theorem Chained.agree (chained : h.Chained) (agree : Agree h h') : h'.Chained where
  path y alive := by
    rw [agree.live] at alive
    obtain ⟨l, path, inside⟩ := chained.path y alive
    refine ⟨l, path.congr fun z member => agree.next z (inside z member).1, fun z member => ?_⟩
    obtain ⟨aliveZ, same⟩ := inside z member
    rw [agree.live, agree.parent z aliveZ, agree.parent y alive]
    exact ⟨aliveZ, same⟩
  loose y alive orphan := by
    rw [agree.live] at alive
    rw [agree.parent y alive] at orphan
    rw [agree.next y alive, chained.loose y alive orphan]

theorem Linked.setAttrs (linked : h.Linked) (l : AttrList) : (h.setAttrs x l).Linked where
  rep := linked.rep.imp fun _ rep => ⟨rep.path, rep.mem, rep.count, rep.loose⟩
  allocated := linked.allocated

theorem Chained.setAttrs (chained : h.Chained) (l : AttrList) : (h.setAttrs x l).Chained :=
  ⟨chained.path, chained.loose⟩

theorem Linked.setContent (linked : h.Linked) (s : XString) : (h.setContent x s).Linked where
  rep := linked.rep.imp fun _ rep => ⟨rep.path, rep.mem, rep.count, rep.loose⟩
  allocated := linked.allocated

theorem Chained.setContent (chained : h.Chained) (s : XString) : (h.setContent x s).Chained :=
  ⟨chained.path, chained.loose⟩

/-! ## A new object -/

/-- What holds of all objects but the new one. -/
theorem live_alloc {name : Text} {objclass : Option Nat}
    (alive : (h.alloc name objclass).1.live x = true) (other : x ≠ h.top) : h.live x = true := by
  rwa [alloc_fst_live, Function.update_of_ne other] at alive

theorem Rep.alloc (rep : h.Rep kids)
    (allocated : ∀ x, h.live x = true → ∀ p, h.parent x = some p → p < h.top) (name : Text)
    (objclass : Option Nat) :
    (h.alloc name objclass).1.Rep (Function.update kids h.top []) := by
  refine ⟨fun q alive => ?_, fun q alive y => ?_, fun q alive => ?_, fun y alive orphan => ?_⟩
  · by_cases new : q = h.top
    · simp [new, Heap.alloc]
    · have old := live_alloc alive new
      rw [Function.update_of_ne new, alloc_fst_sons, Function.update_of_ne new, alloc_fst_sibling]
      exact (rep.path q old).update fun member =>
        ne_top (rep.live_of_mem old member) rfl
  · rw [alloc_fst_live, alloc_fst_parent]
    by_cases new : q = h.top
    · subst new
      rw [Function.update_self]
      refine ⟨fun member => (List.not_mem_nil member).elim, ?_⟩
      rintro ⟨aliveY, parent_eq⟩
      by_cases newY : y = h.top
      · rw [newY, Function.update_self] at parent_eq
        cases parent_eq
      · rw [Function.update_of_ne newY] at aliveY parent_eq
        exact absurd (allocated y aliveY _ parent_eq) (lt_irrefl _)
    · have old := live_alloc alive new
      rw [Function.update_of_ne new, rep.mem q old y]
      by_cases newY : y = h.top
      · simp [newY, h.live_top]
      · rw [Function.update_of_ne newY, Function.update_of_ne newY]
  · by_cases new : q = h.top
    · simp [new, Heap.alloc]
    · rw [alloc_fst_childCount, Function.update_of_ne new, Function.update_of_ne new]
      exact rep.count q (live_alloc alive new)
  · by_cases new : y = h.top
    · simp [new, Heap.alloc]
    · rw [alloc_fst_parent, Function.update_of_ne new] at orphan
      rw [alloc_fst_sibling, Function.update_of_ne new]
      exact rep.loose y (live_alloc alive new) orphan

theorem Linked.alloc (linked : h.Linked) (name : Text) (objclass : Option Nat) :
    (h.alloc name objclass).1.Linked := by
  obtain ⟨⟨kids, rep⟩, allocated⟩ := linked
  refine ⟨⟨_, rep.alloc allocated name objclass⟩, fun y alive q parent_eq => ?_⟩
  rw [alloc_fst_top]
  rw [alloc_fst_parent] at parent_eq
  by_cases new : y = h.top
  · rw [new, Function.update_self] at parent_eq
    cases parent_eq
  · rw [Function.update_of_ne new] at parent_eq
    exact (allocated y (live_alloc alive new) q parent_eq).trans (Nat.lt_succ_self _)

theorem Chained.alloc (chained : h.Chained) (name : Text) (objclass : Option Nat) :
    (h.alloc name objclass).1.Chained := by
  refine ⟨fun y alive => ?_, fun y alive orphan => ?_⟩
  · by_cases new : y = h.top
    · exact ⟨[y], ⟨rfl, by simp [new]⟩, by simp [new]⟩
    · obtain ⟨l, path, inside⟩ := chained.path y (live_alloc alive new)
      refine ⟨l, ?_, fun z member => ?_⟩
      · rw [alloc_fst_next]
        exact path.update fun member => ne_top (inside _ member).1 rfl
      · obtain ⟨aliveZ, same⟩ := inside z member
        rw [alloc_fst_live, alloc_fst_parent, Function.update_of_ne (ne_top aliveZ),
          Function.update_of_ne (ne_top aliveZ), Function.update_of_ne new]
        exact ⟨aliveZ, same⟩
  · by_cases new : y = h.top
    · simp [new]
    · rw [alloc_fst_parent, Function.update_of_ne new] at orphan
      rw [alloc_fst_next, Function.update_of_ne new]
      exact chained.loose y (live_alloc alive new) orphan

/-! ## An appended object -/

/-- What appending `c` to `p` changes besides links between brothers. -/
structure Appended (h : Heap) (p c : Addr) (h' : Heap) : Prop where
  top : h'.top = h.top
  live : h'.live = h.live
  name : h'.name = h.name
  parent : h'.parent = Function.update h.parent c (some p)
  attrs : h'.attrs = h.attrs
  content : h'.content = h.content
  bus : h'.bus = Function.update h.bus c (h.bus p)
  objclass : h'.objclass = h.objclass

theorem Rep.linked_of_eq_ok (rep : h.Rep kids) (alive : h.live p = true) (aliveC : h.live c = true)
    (orphan : h.parent c = none) (result : h.insertIntoTree p c = .ok h') :
    ∃ next, h' = h.linked p c (kids p).getLast? next := by
  rw [rep.insertIntoTree_eq alive aliveC orphan] at result
  split at result
  · cases result
    exact ⟨_, rfl⟩
  · obtain ⟨walk, -, result⟩ := bind_eq_ok_iff.mp result
    cases result
    exact ⟨_, rfl⟩

/-- The heaps differ in links between brothers only. -/
structure SameObjects (h h' : Heap) : Prop where
  top : h'.top = h.top
  live : h'.live = h.live
  name : h'.name = h.name
  parent : h'.parent = h.parent
  attrs : h'.attrs = h.attrs
  content : h'.content = h.content
  bus : h'.bus = h.bus
  objclass : h'.objclass = h.objclass

theorem sameObjects_of_insertIntoTree (result : h.insertIntoTree p c = .ok h') :
    SameObjects (h.setParent c (some p)) h' := by
  unfold Heap.insertIntoTree at result
  simp only [setParent_sons] at result
  cases sons_eq : h.sons p with
  | none =>
      rw [sons_eq] at result
      cases result
      exact ⟨rfl, rfl, rfl, rfl, rfl, rfl, rfl, rfl⟩
  | some son =>
      rw [sons_eq] at result
      obtain ⟨⟨lastSon, _⟩, -, behindSiblings⟩ := bind_eq_ok_iff.mp result
      obtain ⟨start, -, behindLookup⟩ := bind_eq_ok_iff.mp behindSiblings
      obtain ⟨⟨last, _⟩, -, stored⟩ := bind_eq_ok_iff.mp behindLookup
      cases lastSon <;> cases last <;> cases stored <;>
        exact ⟨rfl, rfl, rfl, rfl, rfl, rfl, rfl, rfl⟩

/-- An append that returns has put the object below its parent. -/
theorem appended_of_appendChildNoCb (result : h.appendChildNoCb p c = .ok h') :
    h.live p = true ∧ h.live c = true ∧ h.Appended p c h' := by
  unfold Heap.appendChildNoCb at result
  obtain ⟨p', found, behindParent⟩ := bind_eq_ok_iff.mp result
  obtain ⟨alive, same⟩ := deref_eq_ok_iff.mp found
  subst same
  obtain ⟨c', foundC, behindChild⟩ := bind_eq_ok_iff.mp behindParent
  obtain ⟨aliveC, same⟩ := deref_eq_ok_iff.mp foundC
  subst same
  obtain ⟨h₁, inserted, stored⟩ := bind_eq_ok_iff.mp behindChild
  have placed := sameObjects_of_insertIntoTree inserted
  cases stored
  refine ⟨alive, aliveC, placed.top, placed.live, placed.name, placed.parent, placed.attrs,
    placed.content, ?_, placed.objclass⟩
  change Function.update h₁.bus c' (h₁.bus p') = _
  rw [placed.bus]
  rfl

/-- An append that returns has put the object behind the other sons. -/
theorem Rep.appended (rep : h.Rep kids) (orphan : h.parent c = none)
    (result : h.appendChildNoCb p c = .ok h') : h'.Rep (extend p c kids) := by
  obtain ⟨alive, aliveC, -⟩ := appended_of_appendChildNoCb result
  simp only [Heap.appendChildNoCb, deref_of_live alive, deref_of_live aliveC, ok_bind] at result
  obtain ⟨h₁, inserted, stored⟩ := bind_eq_ok_iff.mp result
  obtain ⟨next, same⟩ := rep.linked_of_eq_ok alive aliveC orphan inserted
  subst same
  have rep' := rep.linked alive aliveC orphan next
  cases stored
  exact ⟨rep'.path, rep'.mem, rep'.count, rep'.loose⟩

/-- An append that returns keeps the links in order. -/
theorem Linked.appended (linked : h.Linked) (orphan : h.parent c = none)
    (result : h.appendChildNoCb p c = .ok h') : h'.Linked := by
  obtain ⟨⟨kids, rep⟩, allocated⟩ := linked
  obtain ⟨alive, aliveC, appended⟩ := appended_of_appendChildNoCb result
  refine ⟨⟨_, rep.appended orphan result⟩, fun y aliveY q parent_eq => ?_⟩
  rw [appended.top]
  rw [appended.parent] at parent_eq
  rw [appended.live] at aliveY
  by_cases same : y = c
  · rw [same, Function.update_self] at parent_eq
    cases parent_eq
    exact h.live_lt p alive
  · rw [Function.update_of_ne same] at parent_eq
    exact allocated y aliveY q parent_eq

/-- The new end of a chain is one of the brothers, or was alone. -/
theorem Chained.linked (chained : h.Chained) (aliveC : h.live c = true)
    (orphan : h.parent c = none) {lastSon last : Option Addr}
    (ended : ∀ z, last = some z → z ≠ c → h.next z = none ∧ h.parent z = some p) :
    (h.linked p c lastSon (h.nextWith c last)).Chained := by
  refine ⟨fun y alive => ?_, fun y alive noParent => ?_⟩
  · change h.live y = true at alive
    by_cases new : y = c
    · refine ⟨[y], ⟨rfl, by simp [Heap.linked, nextWith, new]⟩, fun z member => ?_⟩
      rw [List.mem_singleton.mp member]
      exact ⟨alive, rfl⟩
    · obtain ⟨l, path, inside⟩ := chained.path y alive
      have parent_eq : ∀ z, z ≠ c → (h.linked p c lastSon (h.nextWith c last)).parent z =
        h.parent z :=
        fun z other => Function.update_of_ne other _ _
      have outside : c ∉ l := by
        intro member
        have noParent : h.parent y = none := by rw [← (inside c member).2, orphan]
        cases l with
        | nil => cases member
        | cons first rest =>
            obtain ⟨same, tail⟩ := path
            cases same
            rw [chained.loose y alive noParent] at tail
            cases rest with
            | nil => exact new (List.mem_singleton.mp member).symm
            | cons second rest => cases tail.1
      by_cases extended : ∃ z, last = some z ∧ z ∈ l
      · -- the chain from `y` is the one that `c` was put behind
        obtain ⟨z, rfl, member⟩ := extended
        have other : z ≠ c := fun same => outside (same ▸ member)
        obtain ⟨next_eq, parentZ⟩ := ended z rfl other
        obtain ⟨before, behind, rfl⟩ := List.append_of_mem member
        obtain rfl : behind = [] := by
          obtain ⟨_, -, tail⟩ := path_append.mp path
          obtain ⟨-, tail⟩ := tail
          rw [next_eq] at tail
          cases behind with
          | nil => rfl
          | cons w rest => cases tail.1
        have nodup := path.nodup
        rw [List.nodup_append] at nodup
        have notBefore : z ∉ before := fun inside => nodup.2.2 z inside z (by simp) rfl
        refine ⟨before ++ [z] ++ [c], ?_, fun w member => ?_⟩
        · have longer := (path.concat (v := some c) notBefore).update (v := none) outside
          exact path_append.mpr ⟨some c, longer, rfl, by simp [Heap.linked, nextWith]⟩
        · rw [parent_eq y new, ← (inside z (by simp)).2]
          rcases List.mem_append.mp member with member | member
          · have otherW : w ≠ c := fun same => outside (same ▸ member)
            rw [parent_eq w otherW, (inside z (by simp)).2]
            exact inside w member
          · rw [List.mem_singleton.mp member, parentZ]
            exact ⟨aliveC, Function.update_self ..⟩
      · refine ⟨l, ?_, fun w member => ?_⟩
        · refine Path.update ?_ outside
          cases last with
          | none => exact path
          | some z => exact path.update fun member => extended ⟨z, rfl, member⟩
        · have otherW : w ≠ c := fun same => outside (same ▸ member)
          rw [parent_eq w otherW, parent_eq y new]
          exact inside w member
  · have other : y ≠ c := by
      rintro rfl
      change Function.update h.parent y (some p) y = none at noParent
      rw [Function.update_self] at noParent
      cases noParent
    change Function.update h.parent c (some p) y = none at noParent
    rw [Function.update_of_ne other] at noParent
    have next_eq := chained.loose y alive noParent
    change h.nextWith c last y = none
    unfold nextWith
    rw [Function.update_of_ne other]
    cases last with
    | none => exact next_eq
    | some z =>
        have otherZ : y ≠ z := by
          rintro rfl
          rw [(ended y rfl other).2] at noParent
          cases noParent
        simp only [Function.update_of_ne otherZ, next_eq]

/-- **Spec of `x_object_append_child_no_cb`** for a chained heap. -/
theorem Linked.appendChildNoCb (linked : h.Linked) (chained : h.Chained) (alive : h.live p = true)
    (aliveC : h.live c = true) (orphan : h.parent c = none) :
    ∃ h', h.appendChildNoCb p c = .ok h' ∧ h'.Chained := by
  obtain ⟨⟨kids, rep⟩, -⟩ := linked
  obtain ⟨last, inserted, ended⟩ : ∃ last, h.insertIntoTree p c =
      .ok (h.linked p c (kids p).getLast? (h.nextWith c last)) ∧
        ∀ z, last = some z → z ≠ c → h.next z = none ∧ h.parent z = some p := by
    rw [rep.insertIntoTree_eq alive aliveC orphan]
    by_cases noSons : kids p = []
    · rw [if_pos noSons]
      exact ⟨none, rfl, by simp⟩
    · rw [if_neg noSons]
      cases start : h.firstNamed (kids p ++ [c]) (h.name c) with
      | none =>
          have stays : Passes h.live (fun _ => false) h.next none [] none :=
            ⟨rfl, by simp, by simp, by simp, by simp⟩
          rw [h.follow_of_passes stays, ok_bind]
          exact ⟨none, rfl, by simp⟩
      | some y =>
          have aliveY : h.live y = true := by
            rcases List.mem_append.mp (List.mem_of_find?_eq_some start) with member | member
            · exact rep.live_of_mem alive member
            · rw [List.mem_singleton.mp member, aliveC]
          obtain ⟨l, path, inside⟩ := chained.path y aliveY
          rw [h.follow_of_passes
            ⟨path, fun z member => (inside z member).1, by simp, by simp, by simp⟩, ok_bind]
          refine ⟨l.getLast?, rfl, fun z last other => ?_⟩
          obtain ⟨before, rfl⟩ := List.getLast?_eq_some_iff.mp last
          obtain ⟨_, -, ends⟩ := path_append.mp path
          refine ⟨ends.2, ?_⟩
          rw [(inside z (by simp)).2]
          rcases List.mem_append.mp (List.mem_of_find?_eq_some start) with member | member
          · exact rep.parent_of_mem alive member
          · -- the object is alone in its chain
            rw [List.mem_singleton.mp member] at path
            cases before with
            | nil => exact absurd (Option.some.inj path.1).symm other
            | cons first rest =>
                obtain ⟨same, tail⟩ := path
                cases same
                rw [chained.loose c aliveC orphan] at tail
                cases rest with
                | nil => cases tail.1
                | cons second rest => cases tail.1
  have chained' : (h.linked p c (kids p).getLast? (h.nextWith c last)).Chained :=
    chained.linked aliveC orphan ended
  simp only [Heap.appendChildNoCb, deref_of_live alive, deref_of_live aliveC, ok_bind, inserted]
  exact ⟨_, rfl, chained'.path, chained'.loose⟩

/-! ## Looking up -/

/-- What `__x_object_get_child` finds is a live son. -/
theorem Linked.getChild (linked : h.Linked) (alive : h.live p = true) (cname : Option Text) :
    ∃ found, h.getChild (some p) cname = .ok found ∧
      ∀ y, found = some y → h.live y = true ∧ h.parent y = some p := by
  obtain ⟨⟨kids, rep⟩, -⟩ := linked
  cases cname with
  | none =>
      refine ⟨h.sons p, by simp only [Heap.getChild, deref_of_live alive, ok_bind], fun y first =>
        ?_⟩
      have path := rep.path p alive
      rw [first] at path
      cases kids_eq : kids p with
      | nil =>
          rw [kids_eq] at path
          cases path
      | cons son rest =>
          rw [kids_eq] at path
          obtain rfl : y = son := Option.some.inj path.1
          have member : y ∈ kids p := by simp [kids_eq]
          exact ⟨rep.live_of_mem alive member, rep.parent_of_mem alive member⟩
  | some cname =>
      refine ⟨_, rep.getChild alive cname, fun y found => ?_⟩
      have member := List.mem_of_find?_eq_some found
      exact ⟨rep.live_of_mem alive member, rep.parent_of_mem alive member⟩

theorem Linked.getIndex (linked : h.Linked) (alive : ∀ p, h.parent x = some p → h.live p = true) :
    h.getIndex x = .ok () :=
  linked.rep.elim fun _ rep => rep.getIndex alive

/-! ## A dropped reference -/

theorem sameObjects_of_unlinkNext (result : h.unlinkNext p x = .ok h') : SameObjects h h' := by
  unfold Heap.unlinkNext at result
  obtain ⟨start, -, walked⟩ := bind_eq_ok_iff.mp result
  obtain ⟨⟨before, found⟩, -, stored⟩ := bind_eq_ok_iff.mp walked
  cases before <;> cases found <;> cases stored <;> exact ⟨rfl, rfl, rfl, rfl, rfl, rfl, rfl, rfl⟩

theorem sameObjects_of_unlinkSibling (result : h.unlinkSibling p x = .ok h') :
    SameObjects h h' := by
  unfold Heap.unlinkSibling at result
  obtain ⟨⟨before, found⟩, -, stored⟩ := bind_eq_ok_iff.mp result
  cases before <;> cases found <;> cases stored <;> exact ⟨rfl, rfl, rfl, rfl, rfl, rfl, rfl, rfl⟩

/-- With one reference the object is gone. -/
theorem live_of_refPut (last : h.refcount x ≤ 1) (result : h.refPut (some x) = .ok h') :
    h'.live x = false := by
  unfold refPut at result
  rcases bind_eq_ok_iff.mp result with ⟨y, found, rest⟩
  rcases deref_eq_ok_iff.mp found with ⟨alive, rfl⟩
  dsimp only at rest
  rw [setRefcount_refcount, Function.update_self, if_pos (by omega)] at rest
  unfold destroyNoCb at rest
  rcases bind_eq_ok_iff.mp rest with ⟨z, found, behind⟩
  rcases deref_eq_ok_iff.mp found with ⟨-, rfl⟩
  cases parent_eq : (h.setRefcount z (h.refcount z - 1)).parent z with
  | none =>
      rw [parent_eq] at behind
      cases behind
      exact Function.update_self ..
  | some q =>
      rw [parent_eq] at behind
      rcases bind_eq_ok_iff.mp behind with ⟨_, -, behind⟩
      rcases bind_eq_ok_iff.mp behind with ⟨_, -, behind⟩
      rcases bind_eq_ok_iff.mp behind with ⟨_, -, freed⟩
      cases freed
      exact Function.update_self ..

/-- What giving up a reference to `x` changes besides links between brothers. -/
structure PutDown (h : Heap) (x : Addr) (h' : Heap) : Prop where
  top : h'.top = h.top
  live : ∀ y, y ≠ x → h'.live y = h.live y
  parent : ∀ y, y ≠ x → h'.parent y = h.parent y
  name : h'.name = h.name
  attrs : h'.attrs = h.attrs
  content : h'.content = h.content
  bus : h'.bus = h.bus
  objclass : h'.objclass = h.objclass

theorem putDown_of_destroyNoCb (result : h.destroyNoCb x = .ok h') : h.PutDown x h' := by
  unfold Heap.destroyNoCb at result
  obtain ⟨y, found, rest⟩ := bind_eq_ok_iff.mp result
  obtain ⟨-, same⟩ := deref_eq_ok_iff.mp found
  subst same
  have other : ∀ {z : Addr} {α : Type} {f : Addr → α} {v : α}, z ≠ y →
      Function.update f y v z = f z := fun different => Function.update_of_ne different _ _
  cases parent_eq : h.parent y with
  | none =>
      rw [parent_eq] at rest
      cases rest
      exact ⟨rfl, fun _ => other, fun _ _ => rfl, rfl, rfl, rfl, rfl, rfl⟩
  | some q =>
      rw [parent_eq] at rest
      obtain ⟨q', -, behindParent⟩ := bind_eq_ok_iff.mp rest
      obtain ⟨h₁, unlinked, behindSibling⟩ := bind_eq_ok_iff.mp behindParent
      obtain ⟨h₂, cut, freed⟩ := bind_eq_ok_iff.mp behindSibling
      have first := sameObjects_of_unlinkSibling unlinked
      have second := sameObjects_of_unlinkNext cut
      cases freed
      refine ⟨?_, fun z different => (other different).trans ?_,
        fun z different => (other different).trans ?_, ?_, ?_, ?_, ?_, ?_⟩
      · exact second.top.trans first.top
      · exact congrFun (second.live.trans first.live) z
      · exact congrFun (second.parent.trans first.parent) z
      · exact second.name.trans first.name
      · exact second.attrs.trans first.attrs
      · exact second.content.trans first.content
      · exact second.bus.trans first.bus
      · exact second.objclass.trans first.objclass

/-- A destruction that returns has looked at live objects only. -/
theorem Rep.destroyOk (rep : h.Rep kids) (result : h.destroyNoCb x = .ok h') :
    h.DestroyOk kids x := by
  unfold Heap.destroyNoCb at result
  obtain ⟨y, found, rest⟩ := bind_eq_ok_iff.mp result
  obtain ⟨alive, same⟩ := deref_eq_ok_iff.mp found
  subst same
  refine ⟨alive, fun p parent_eq => ?_⟩
  rw [parent_eq] at rest
  obtain ⟨p', foundP, behindParent⟩ := bind_eq_ok_iff.mp rest
  obtain ⟨aliveP, same⟩ := deref_eq_ok_iff.mp foundP
  subst same
  obtain ⟨middle, before, unlink_eq, next_same, middle_eq, done⟩ :=
    rep.unlinkSibling alive aliveP parent_eq
  obtain ⟨walk, live_same, name_same⟩ := path_of_unlinkSibling aliveP middle_eq done
  rw [unlink_eq, ok_bind] at behindParent
  obtain ⟨cut, unlinked, -⟩ := bind_eq_ok_iff.mp behindParent
  unfold Heap.unlinkNext at unlinked
  rw [getChild_of_path (by rw [live_same, aliveP]) walk fun z member => by
    rw [live_same]
    exact rep.live_of_mem_drop aliveP member, ok_bind] at unlinked
  obtain ⟨⟨last, found⟩, followed, -⟩ := bind_eq_ok_iff.mp unlinked
  obtain ⟨passed, passes, -⟩ := passes_of_follow followed
  rw [firstNamed, live_same, next_same, name_same] at passes
  exact ⟨aliveP, passed, found, passes⟩

theorem Linked.putDown (linked : h.Linked) (result : h.refPut (some x) = .ok h') :
    h.PutDown x h' ∧ h'.Linked := by
  obtain ⟨⟨kids, rep⟩, allocated⟩ := linked
  unfold Heap.refPut at result
  obtain ⟨y, found, rest⟩ := bind_eq_ok_iff.mp result
  obtain ⟨alive, same⟩ := deref_eq_ok_iff.mp found
  subst same
  have rep' : (h.setRefcount y (h.refcount y - 1)).Rep kids :=
    ⟨rep.path, rep.mem, rep.count, rep.loose⟩
  dsimp only at rest
  split at rest
  · have down := putDown_of_destroyNoCb rest
    obtain ⟨h'', destroyed, rep'', live_eq⟩ := rep'.destroyNoCb (rep'.destroyOk rest)
    rw [rest] at destroyed
    cases destroyed
    refine ⟨⟨down.top, down.live, down.parent, down.name, down.attrs, down.content, down.bus,
      down.objclass⟩, ⟨_, rep''⟩, fun z aliveZ q parent_eq => ?_⟩
    rw [live_eq, Function.update_apply] at aliveZ
    split at aliveZ
    · cases aliveZ
    · next different =>
        rw [down.parent z different] at parent_eq
        rw [down.top]
        exact allocated z aliveZ q parent_eq
  · cases rest
    exact ⟨⟨rfl, fun _ _ => rfl, fun _ _ => rfl, rfl, rfl, rfl, rfl, rfl⟩, ⟨_, rep'⟩, allocated⟩

/-! ## The chains behind a reference that is dropped -/

/-- When no `next` link leads to an object, all chains are in order without it. -/
theorem Chained.withoutNext (chained : h.Chained) (loose : ∀ y, h.live y = true → h.next y ≠ some x)
    (live_eq : h'.live = Function.update h.live x false)
    (parent_eq : ∀ y, y ≠ x → h'.parent y = h.parent y)
    (next_eq : ∀ y, y ≠ x → h'.next y = h.next y) : h'.Chained := by
  have before : ∀ y, h'.live y = true → y ≠ x ∧ h.live y = true := by
    intro y alive
    rw [live_eq, Function.update_apply] at alive
    split at alive
    · cases alive
    · next other => exact ⟨other, alive⟩
  refine ⟨fun y alive => ?_, fun y alive orphan => ?_⟩
  · rcases before y alive with ⟨other, aliveY⟩
    rcases chained.path y aliveY with ⟨l, path, inside⟩
    have outside : ∀ z ∈ l, z ≠ x := by
      rintro z member rfl
      exact path.notMem (fun same => other (Option.some.inj same))
        (fun w onPath => loose w (inside w onPath).1) member
    refine ⟨l, path.congr fun z member => next_eq z (outside z member), fun z member => ?_⟩
    rw [live_eq, Function.update_of_ne (outside z member), parent_eq z (outside z member),
      parent_eq y other]
    exact inside z member
  · rcases before y alive with ⟨other, aliveY⟩
    rw [parent_eq y other] at orphan
    rw [next_eq y other, chained.loose y aliveY orphan]

/-- Dropping a reference to a son that others refer to, or that no `next` link leads to. -/
theorem Linked.dropSon (linked : h.Linked) (chained : h.Chained) (alive : h.live x = true)
    (aliveP : h.live p = true) (parent_eq : h.parent x = some p)
    (droppable : 1 < h.refcount x ∨ ∀ y, h.live y = true → h.next y ≠ some x) :
    ∃ h', h.refPut (some x) = .ok h' ∧ h'.Chained := by
  by_cases many : 1 < h.refcount x
  · exact ⟨_, refPut_of_many alive many, chained.path, chained.loose⟩
  · have loose := droppable.resolve_left many
    rcases linked.rep with ⟨kids, rep⟩
    -- the chain of its name does not lead to the object
    obtain ⟨passed, passes⟩ : ∃ passed, Passes h.live (· = x) h.next
        (h.firstNamed (drop x kids p) (h.name x)) passed none := by
      cases first : h.firstNamed (drop x kids p) (h.name x) with
      | none => exact ⟨[], rfl, by simp, by simp, by simp, by simp⟩
      | some y =>
          have member := List.mem_of_find?_eq_some first
          have aliveY := rep.live_of_mem_drop aliveP member
          rcases chained.path y aliveY with ⟨l, path, inside⟩
          refine ⟨l, path, fun z member => (inside z member).1, fun z member' => ?_, by simp,
            by simp⟩
          have other : y ≠ x := by
            rintro rfl
            simp [drop] at member
          have outside := path.notMem (fun same => other (Option.some.inj same))
            fun w onPath => loose w (inside w onPath).1
          exact decide_eq_false fun same => outside (same ▸ member')
    let h₀ := h.setRefcount x (h.refcount x - 1)
    have rep₀ : h₀.Rep kids := ⟨rep.path, rep.mem, rep.count, rep.loose⟩
    rcases rep₀.destroySon alive aliveP parent_eq passes with ⟨h', destroyed, -, live_eq, next_eq⟩
    have down := putDown_of_destroyNoCb destroyed
    refine ⟨h', ?_, chained.withoutNext loose live_eq down.parent fun y other => ?_⟩
    · rw [refPut_of_last alive (not_lt.mp many), destroyed]
    · rw [next_eq, nextWithout_none, Function.update_of_ne other]
      rfl

end Xwbot.Heap
