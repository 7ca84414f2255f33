import Xwbot.Object.Heap

/-!
# The trees that the pointers represent

A `Grove` is a list of sibling objects, each with the grove of its own sons.  It stands in a
heap where `sons`, `sibling` and `parent` lead through its objects and nowhere else.  What a
function does to a whole tree is said about the grove, by recursion along it.
-/

namespace Xwbot

/-- A list of siblings with everything below them. -/
inductive Grove where
  | nil
  | node (x : Addr) (sons siblings : Grove)

namespace Grove

/-- The number of objects. -/
def size : Grove → Nat
  | nil => 0
  | node _ sons siblings => sons.size + siblings.size + 1

/-- There is no object. -/
def isNil : Grove → Bool
  | nil => true
  | node _ _ _ => false

/-- The number of siblings. -/
def width : Grove → Nat
  | nil => 0
  | node _ _ siblings => siblings.width + 1

/-- The siblings themselves. -/
def roots : Grove → List Addr
  | nil => []
  | node x _ siblings => x :: siblings.roots

/-- Further siblings behind the last one. -/
def append : Grove → Grove → Grove
  | nil, g => g
  | node x sons siblings, g => node x sons (siblings.append g)

/-- All objects, an object before those below it. -/
def nodes : Grove → List Addr
  | nil => []
  | node x sons siblings => x :: (sons.nodes ++ siblings.nodes)

/-- The object is one of the siblings, or below one of them. -/
def Mem (r : Addr) : Grove → Prop
  | nil => False
  | node x sons siblings => r = x ∨ sons.Mem r ∨ siblings.Mem r

/-- The siblings from `start` on have the given parent and, with what is below them, are the
grove. -/
def Stands (h : Heap) : Option Addr → Option Addr → Grove → Prop
  | _, start, nil => start = none
  | parent, start, node x sons siblings =>
      start = some x ∧ h.live x = true ∧ h.parent x = parent ∧
        Stands h (some x) (h.sons x) sons ∧ Stands h parent (h.sibling x) siblings

/-- Each object is referenced by its creator, by the link from its parent and by its children. -/
def Counted (h : Heap) : Grove → Prop
  | nil => True
  | node x sons siblings =>
      h.refcount x = 2 + sons.width ∧ sons.Counted h ∧ siblings.Counted h

section Lists

variable (f g : Grove)

theorem roots_subset_nodes : f.roots ⊆ f.nodes := by
  induction f with
  | nil => exact List.Subset.refl _
  | node x sons siblings _ ih =>
      exact List.cons_subset_cons x (List.Subset.trans ih (List.subset_append_right _ _))

theorem length_roots : f.roots.length = f.width := by
  induction f with
  | nil => rfl
  | node x sons siblings _ ih => rw [roots, List.length_cons, ih, width]

@[simp]
theorem append_nil : f.append nil = f := by
  induction f with
  | nil => rfl
  | node x sons siblings _ ih => rw [append, ih]

theorem append_assoc (k : Grove) : (f.append g).append k = f.append (g.append k) := by
  induction f with
  | nil => rfl
  | node x sons siblings _ ih => rw [append, append, append, ih]

@[simp]
theorem roots_append : (f.append g).roots = f.roots ++ g.roots := by
  induction f with
  | nil => rfl
  | node x sons siblings _ ih => rw [append, roots, ih, roots, List.cons_append]

@[simp]
theorem nodes_append : (f.append g).nodes = f.nodes ++ g.nodes := by
  induction f with
  | nil => rfl
  | node x sons siblings _ ih =>
      rw [append, nodes, ih, nodes, List.cons_append, List.append_assoc]

@[simp]
theorem width_append : (f.append g).width = f.width + g.width := by
  rw [← length_roots, roots_append, List.length_append, length_roots, length_roots]

end Lists

end Grove

/-- The object `r` is the root of a tree.  What its own parent and siblings are is left open. -/
structure IsRoot (h : Heap) (r : Addr) (sons : Grove) : Prop where
  live : h.live r = true
  below : sons.Stands h (some r) (h.sons r)

section Trees

variable {h h' : Heap} {f g : Grove} {start parent parent' : Option Addr} {r : Addr}

theorem Grove.Stands.size_eq (first : f.Stands h parent start) (second : g.Stands h parent' start) :
    f.size = g.size := by
  induction f generalizing g start parent parent' with
  | nil =>
      cases g with
      | nil => rfl
      | node x sons siblings =>
          rcases second with ⟨same, -⟩
          rw [show start = none from first] at same
          cases same
  | node x sons siblings ihSons ihSiblings =>
      rcases first with ⟨rfl, -, -, below, beside⟩
      cases g with
      | nil => cases second
      | node y sons' siblings' =>
          rcases second with ⟨same, -, -, below', beside'⟩
          cases same
          rw [size, size, ihSons below below', ihSiblings beside beside']

/-- Every object of a tree is the root of a tree. -/
theorem Grove.Stands.isRoot (stands : f.Stands h parent start) (member : f.Mem r) :
    ∃ sons, IsRoot h r sons := by
  induction f generalizing start parent with
  | nil => cases member
  | node x sons siblings ihSons ihSiblings =>
      rcases stands with ⟨-, alive, -, below, beside⟩
      rcases member with rfl | inSons | inSiblings
      · exact ⟨sons, alive, below⟩
      · exact ihSons below inSons
      · exact ihSiblings beside inSiblings

/-- A grove stands wherever its objects are linked in the same way. -/
theorem Grove.Stands.congr (stands : f.Stands h parent start)
    (live : ∀ y ∈ f.nodes, h'.live y = h.live y)
    (links : ∀ y ∈ f.nodes,
      h'.parent y = h.parent y ∧ h'.sons y = h.sons y ∧ h'.sibling y = h.sibling y) :
    f.Stands h' parent start := by
  induction f generalizing start parent with
  | nil => exact stands
  | node x sons siblings ihSons ihSiblings =>
      rcases stands with ⟨start_eq, alive, parent_eq, below, beside⟩
      rw [nodes, List.forall_mem_cons, List.forall_mem_append] at live links
      rcases live with ⟨live, liveSons, liveSiblings⟩
      rcases links with ⟨⟨sameParent, sameSons, sameSibling⟩, linksSons, linksSiblings⟩
      refine ⟨start_eq, live.trans alive, sameParent.trans parent_eq, ?_, ?_⟩
      · rw [sameSons]
        exact ihSons below liveSons linksSons
      · rw [sameSibling]
        exact ihSiblings beside liveSiblings linksSiblings

/-- The objects of a grove that stands are live. -/
theorem Grove.Stands.live_of_mem (stands : f.Stands h parent start) (member : r ∈ f.nodes) :
    h.live r = true := by
  induction f generalizing start parent with
  | nil => cases member
  | node x sons siblings ihSons ihSiblings =>
      rcases stands with ⟨-, alive, -, below, beside⟩
      rw [nodes, List.mem_cons, List.mem_append] at member
      rcases member with rfl | inSons | inSiblings
      · exact alive
      · exact ihSons below inSons
      · exact ihSiblings beside inSiblings

/-- The siblings are chained. -/
theorem Grove.Stands.path (stands : f.Stands h parent start) :
    Links.Path h.sibling start f.roots none := by
  induction f generalizing start parent with
  | nil => exact stands
  | node x sons siblings _ ih =>
      rcases stands with ⟨start_eq, -, -, -, beside⟩
      exact ⟨start_eq, ih beside⟩

/-- One more sibling is linked behind the last one. -/
theorem Grove.Stands.concat {c : Addr} (stands : f.Stands h parent start) (nodup : f.nodes.Nodup)
    (live : ∀ y ∈ f.nodes, h'.live y = h.live y)
    (links : ∀ y ∈ f.nodes, h'.parent y = h.parent y ∧ h'.sons y = h.sons y)
    (others : ∀ y ∈ f.nodes, f.roots.getLast? ≠ some y → h'.sibling y = h.sibling y)
    (last : ∀ y, f.roots.getLast? = some y → h'.sibling y = some c)
    (new : (node c g nil).Stands h' parent (some c)) :
    (f.append (node c g nil)).Stands h' parent (start.or (some c)) := by
  induction f generalizing start with
  | nil =>
      rw [show start = none from stands]
      exact new
  | node x sons siblings _ ih =>
      rcases stands with ⟨rfl, alive, parent_eq, below, beside⟩
      rw [nodes, List.nodup_cons, List.mem_append, List.nodup_append] at nodup
      rcases nodup with ⟨apart, -, nodup, different⟩
      rw [nodes, List.forall_mem_cons, List.forall_mem_append] at live links others
      -- the last sibling is neither below the first one nor, when there are more, that one
      have ends : ∀ y, (node x sons siblings).roots.getLast? = some y →
          y = x ∨ y ∈ siblings.nodes := by
        intro y atEnd
        rcases List.mem_cons.mp (List.mem_of_getLast? atEnd) with same | member
        · exact .inl same
        · exact .inr (siblings.roots_subset_nodes member)
      have sonsStand : sons.Stands h' (some x) (h'.sons x) := by
        rw [links.1.2]
        refine below.congr live.2.1 fun y member => ?_
        refine ⟨(links.2.1 y member).1, (links.2.1 y member).2, others.2.1 y member fun atEnd => ?_⟩
        rcases ends y atEnd with rfl | inSiblings
        · exact apart (.inl member)
        · exact different y member y inSiblings rfl
      refine ⟨rfl, live.1.trans alive, links.1.1.trans parent_eq, sonsStand, ?_⟩
      cases siblings with
      | nil =>
          rw [last x rfl]
          exact new
      | node z sons' siblings' =>
          have same : h'.sibling x = h.sibling x := by
            refine others.1 fun atEnd => ?_
            rw [roots, roots, List.getLast?_cons_cons] at atEnd
            exact apart (.inr ((node z sons' siblings').roots_subset_nodes
              (List.mem_of_getLast? atEnd)))
          have next := ih beside nodup live.2.2 links.2.2
            (fun y member notLast => others.2.2 y member (by
              rw [roots, roots, List.getLast?_cons_cons]
              exact notLast))
            (fun y atEnd => last y (by
              rw [roots, roots, List.getLast?_cons_cons]
              exact atEnd))
          rw [same]
          rw [show h.sibling x = some z from beside.1] at next ⊢
          exact next

end Trees

end Xwbot
