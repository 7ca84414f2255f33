import Xwbot.Object.Frame
import Xwbot.Object.Grove

/-!
# Copying a tree

`x_object_full_copy` copies an object, then each of its children in turn, and appends the
copies in their order.  While it runs, the children that have been copied already stand below the
new object, and each of their `next` links leads to a later one; this is what the next append
relies on.  The copies are new objects that nothing else points to.  Each of them takes over the
name of an object of the tree, for which its block may be one byte short.
-/

namespace Xwbot.Heap

open Links

/-! ## The functions of the source -/

/-- The name, the attributes and the content of `o` are stored in `msg`. -/
def fill (mem : Memory) (h : Heap) (msg o : Addr) : Except Fault Heap := do
  let h ← h.setName msg (h.name o)
  let h := h.setAttrs msg (assigned (h.attrs o) (h.attrs msg))
  .ok (h.setContent msg ((h.content msg).write mem (h.content o).bytes))

/-- `x_object_copy`. -/
def copy (mem : Memory) (h : Heap) (o : Addr) : Except Fault (Heap × Addr) := do
  let (h, msg) ← h.newObject (lit "$message") none
  let o ← h.deref (some o)
  let h ← h.fill mem msg o
  .ok (h, msg)

/-- `x_object_full_copy`, when `loop` is its loop over the children. -/
def fullCopyWith (mem : Memory) (loop : Heap → Addr → Option Addr → Except Fault Heap)
    (h : Heap) (o : Addr) : Except Fault (Heap × Addr) := do
  let (h, msg) ← h.copy mem o
  let h ← loop h msg (h.sons o)
  .ok (h, msg)

/-- The loop of `x_object_full_copy`: append copies of the children from `tmp` on. -/
def copyChildren (mem : Memory) : Nat → Heap → Addr → Option Addr → Except Fault Heap
  | 0, _, _, _ => .error .hang
  | _ + 1, h, _, none => .ok h
  | fuel + 1, h, msg, some tmp => do
      let (h, child) ← fullCopyWith mem (copyChildren mem fuel) h tmp
      let h ← h.appendChildNoCb msg child
      copyChildren mem fuel h msg (h.sibling tmp)

/-- `x_object_full_copy`. -/
def fullCopy (mem : Memory) (fuel : Nat) (h : Heap) (o : Addr) : Except Fault (Heap × Addr) :=
  fullCopyWith mem (copyChildren mem fuel) h o

variable {mem : Memory} {h h₁ h₂ h' : Heap} {m c x : Addr}

/-! ## Appending to an object that is being built -/

/-- The children `done` of `m` have been appended. -/
structure Building (h : Heap) (m : Addr) (done : Grove) : Prop where
  live : h.live m = true
  stands : done.Stands h (some m) (h.sons m)
  nodup : (m :: done.nodes).Nodup
  forward : Forward h.next done.roots
  count : h.childCount m = done.width

theorem Building.live_of_mem {done : Grove} {y : Addr} (building : Building h m done)
    (member : y ∈ m :: done.nodes) : h.live y = true := by
  rcases List.mem_cons.mp member with rfl | below
  · exact building.live
  · exact building.stands.live_of_mem below

theorem Building.agree {done : Grove} (building : Building h m done)
    (agree : ∀ y ∈ m :: done.nodes, AgreeAt h h' y) : Building h' m done := by
  have atM := agree m List.mem_cons_self
  have below : ∀ y ∈ done.nodes, AgreeAt h h' y := fun y member =>
    agree y (List.mem_cons_of_mem m member)
  constructor
  case live => exact atM.live.trans building.live
  case stands =>
    rw [atM.sons]
    exact building.stands.congr (fun y member => (below y member).live) fun y member =>
      ⟨(below y member).parent, (below y member).sons, (below y member).sibling⟩
  case nodup => exact building.nodup
  case forward =>
    exact building.forward.congr fun y member => (below y (done.roots_subset_nodes member)).next
  case count => exact atM.childCount.trans building.count

/-- What appending `c` behind the children `roots` of `m` changes. -/
structure Adopted (h : Heap) (m c : Addr) (roots : List Addr) (h' : Heap) : Prop where
  top : h'.top = h.top
  live : h'.live = h.live
  name : h'.name = h.name
  attrs : h'.attrs = h.attrs
  content : h'.content = h.content
  parent : h'.parent = Function.update h.parent c (some m)
  childCount : h'.childCount = Function.update h.childCount m (h.childCount m + 1)
  sons : ∀ y, y ≠ m → h'.sons y = h.sons y
  first : h'.sons m = (h.sons m).or (some c)
  sibling : ∀ y, y ≠ c → roots.getLast? ≠ some y → h'.sibling y = h.sibling y
  last : ∀ y, y ≠ c → roots.getLast? = some y → h'.sibling y = some c
  siblingNew : h'.sibling c = none
  next : ∀ y, y ≠ c → h'.next y = h.next y ∨ y ∈ roots ∧ h'.next y = some c
  nextNew : h'.next c = none
  agree : ∀ y, y ≠ m → y ≠ c → y ∉ roots → AgreeAt h h' y

/-- The walks of `__x_object_insert_into_tree` end. -/
theorem Building.insertIntoTree {done : Grove} (building : Building h m done)
    (aliveC : h.live c = true) (fresh : c ∉ done.nodes) (sibling_eq : h.sibling c = none)
    (next_eq : h.next c = none) :
    ∃ last, (∀ z, last = some z → z ∈ done.roots ++ [c]) ∧
      h.insertIntoTree m c =
        .ok (h.linked m c done.roots.getLast? (h.nextWith c last)) := by
  have path := building.stands.path
  have sonsAlive : ∀ y ∈ done.roots, h.live y = true := fun y member =>
    building.stands.live_of_mem (done.roots_subset_nodes member)
  have outside : c ∉ done.roots := fun member => fresh (done.roots_subset_nodes member)
  rw [insertIntoTree_eq_of_path path building.live sonsAlive aliveC outside sibling_eq]
  by_cases noSons : done.roots = []
  · rw [if_pos noSons]
    exact ⟨none, by simp, rfl⟩
  · rw [if_neg noSons]
    -- the new object is part of the lookup
    have forward : Forward h.next (done.roots ++ [c]) :=
      building.forward.concat (fun _ _ => .inl rfl) next_eq
    cases start : h.firstNamed (done.roots ++ [c]) (h.name c) with
    | none =>
        have stays : Passes h.live (fun _ => false) h.next none [] none :=
          ⟨rfl, by simp, by simp, by simp, by simp⟩
        rw [h.follow_of_passes stays]
        exact ⟨none, by simp, rfl⟩
    | some y =>
        rcases forward.path (List.mem_of_find?_eq_some start) with ⟨chain, chained, inside⟩
        have chainAlive : ∀ z ∈ chain, h.live z = true := by
          intro z member
          rcases List.mem_append.mp (inside member) with old | new
          · exact sonsAlive z old
          · rw [List.mem_singleton.mp new, aliveC]
        rw [h.follow_of_passes ⟨chained, chainAlive, by simp, by simp, by simp⟩]
        exact ⟨chain.getLast?, fun z atEnd => inside (List.mem_of_getLast? atEnd), rfl⟩

/-- The heap after the append. -/
def adopt (h : Heap) (m c : Addr) (lastSon last : Option Addr) : Heap :=
  let h₁ := h.linked m c lastSon (h.nextWith c last)
  let h₂ := h₁.setRefcount m (h₁.refcount m + 1)
  let h₃ := h₂.setRefcount c (h₂.refcount c + 1)
  h₃.setBus c (h₃.bus m)

theorem nextWith_of_ne {y : Addr} {last : Option Addr} (other : y ≠ c) :
    h.nextWith c last y = h.next y ∨ last = some y ∧ h.nextWith c last y = some c := by
  unfold nextWith
  rw [Function.update_of_ne other]
  cases last with
  | none => exact .inl rfl
  | some z =>
      by_cases same : y = z
      · rw [same]
        exact .inr ⟨rfl, Function.update_self ..⟩
      · exact .inl (Function.update_of_ne same ..)

theorem adopt_sons (lastSon last : Option Addr) (y : Addr) :
    (h.adopt m c lastSon last).sons y = if lastSon = none ∧ y = m then some c else h.sons y := by
  cases lastSon <;> simp [adopt, Heap.linked, Function.update_apply]

theorem adopt_sibling (lastSon last : Option Addr) (y : Addr) :
    (h.adopt m c lastSon last).sibling y =
      if y = c then none else if lastSon = some y then some c else h.sibling y := by
  cases lastSon <;> simp [adopt, Heap.linked, Function.update_apply, eq_comm]

theorem Building.adopted {done : Grove} {last : Option Addr} (building : Building h m done)
    (among : ∀ z, last = some z → z ∈ done.roots ++ [c]) :
    Adopted h m c done.roots (h.adopt m c done.roots.getLast? last) := by
  have next : ∀ y, y ≠ c → h.nextWith c last y = h.next y ∨
      y ∈ done.roots ∧ h.nextWith c last y = some c := by
    intro y otherY
    have cases : h.nextWith c last y = h.next y ∨ last = some y ∧ h.nextWith c last y = some c :=
      nextWith_of_ne otherY
    rcases cases with same | ⟨atEnd, new⟩
    · exact .inl same
    · rcases List.mem_append.mp (among y atEnd) with member | member
      · exact .inr ⟨member, new⟩
      · exact absurd (List.mem_singleton.mp member) otherY
  have siblings : ∀ y, y ≠ c → done.roots.getLast? ≠ some y →
      (h.adopt m c done.roots.getLast? last).sibling y = h.sibling y := fun y otherY notLast =>
    (adopt_sibling ..).trans (by rw [if_neg otherY, if_neg notLast])
  have sons : ∀ y, y ≠ m → (h.adopt m c done.roots.getLast? last).sons y = h.sons y :=
    fun y otherY => (adopt_sons ..).trans (if_neg fun both => otherY both.2)
  constructor
  case top | live | name | attrs | content | parent | childCount => rfl
  case sons => exact sons
  case first =>
    apply (adopt_sons ..).trans
    cases done with
    | nil =>
        rw [show h.sons m = none from building.stands]
        exact if_pos ⟨rfl, rfl⟩
    | node x below beside =>
        rw [show h.sons m = some x from building.stands.1]
        simp [Grove.roots]
  case sibling => exact siblings
  case last =>
    intro y otherY atEnd
    exact (adopt_sibling ..).trans (by rw [if_neg otherY, if_pos atEnd])
  case siblingNew => exact (adopt_sibling ..).trans (if_pos rfl)
  case next => exact next
  case nextNew => exact Function.update_self ..
  case agree =>
    intro y otherM otherC notRoot
    have notLast : done.roots.getLast? ≠ some y := fun atEnd =>
      notRoot (List.mem_of_getLast? atEnd)
    constructor
    case live | name | attrs | content | objclass => rfl
    case childCount => exact Function.update_of_ne otherM ..
    case parent => exact Function.update_of_ne otherC ..
    case next =>
      rcases next y otherC with same | ⟨member, -⟩
      · exact same
      · exact absurd member notRoot
    case sibling => exact siblings y otherC notLast
    case sons => exact sons y otherM
    case bus => exact Function.update_of_ne otherC ..
    case refcount =>
      exact (Function.update_of_ne otherC ..).trans (Function.update_of_ne otherM ..)

/-- **Spec of `x_object_append_child_no_cb`** for an object that is being built. -/
theorem Building.appendChildNoCb {done : Grove} (building : Building h m done)
    (aliveC : h.live c = true) (fresh : c ∉ done.nodes) (sibling_eq : h.sibling c = none)
    (next_eq : h.next c = none) :
    ∃ h', h.appendChildNoCb m c = .ok h' ∧ Adopted h m c done.roots h' := by
  rcases building.insertIntoTree aliveC fresh sibling_eq next_eq with ⟨last, among, inserted⟩
  refine ⟨h.adopt m c done.roots.getLast? last, ?_, building.adopted among⟩
  simp only [Heap.appendChildNoCb, deref_of_live building.live, deref_of_live aliveC, ok_bind,
    inserted]
  rfl

/-- The copy of a child is added to the children. -/
theorem Adopted.building {done sons : Grove} (adopted : Adopted h m c done.roots h')
    (building : Building h m done) (aliveC : h.live c = true)
    (stands : sons.Stands h (some c) (h.sons c)) (nodup : (c :: sons.nodes).Nodup)
    (apart : ∀ y ∈ c :: sons.nodes, y ∉ m :: done.nodes) :
    Building h' m (done.append (.node c sons .nil)) := by
  have other : c ≠ m := fun same => apart c List.mem_cons_self (same ▸ List.mem_cons_self)
  have doneApart : ∀ y ∈ done.nodes, y ≠ c := by
    rintro y member rfl
    exact apart y List.mem_cons_self (List.mem_cons_of_mem _ member)
  rcases List.nodup_cons.mp building.nodup with ⟨notM, doneNodup⟩
  constructor
  case live => rw [adopted.live]; exact building.live
  case stands =>
    rw [adopted.first]
    refine building.stands.concat doneNodup (fun y _ => congrFun adopted.live y)
      (fun y member => ⟨?_, ?_⟩) (fun y member notLast => ?_) (fun y atEnd => ?_)
      ⟨rfl, ?_, ?_, ?_, ?_⟩
    · rw [adopted.parent, Function.update_of_ne (doneApart y member)]
    · exact adopted.sons y fun same => notM (same ▸ member)
    · exact adopted.sibling y (doneApart y member) notLast
    · exact adopted.last y (doneApart y (done.roots_subset_nodes (List.mem_of_getLast? atEnd)))
        atEnd
    · rw [adopted.live, aliveC]
    · rw [adopted.parent, Function.update_self]
    · rw [adopted.sons c other]
      refine stands.congr (fun y _ => congrFun adopted.live y) fun y member => ?_
      have outside := apart y (List.mem_cons_of_mem _ member)
      rw [List.mem_cons, not_or] at outside
      have same := adopted.agree y outside.1 (fun same =>
        (List.nodup_cons.mp nodup).1 (same ▸ member)) fun root =>
        outside.2 (done.roots_subset_nodes root)
      exact ⟨same.parent, same.sons, same.sibling⟩
    · exact adopted.siblingNew
  case nodup =>
    have all : (m :: done.nodes ++ c :: sons.nodes).Nodup :=
      List.nodup_append.mpr ⟨building.nodup, nodup, fun y inDone z inNew same =>
        apart z inNew (same ▸ inDone)⟩
    simpa [Grove.nodes] using all
  case forward =>
    rw [Grove.roots_append]
    refine building.forward.concat (fun y member => ?_) adopted.nextNew
    rcases adopted.next y (doneApart y (done.roots_subset_nodes member)) with same | ⟨-, new⟩
    · exact .inl same
    · exact .inr new
  case count =>
    rw [adopted.childCount, Function.update_self, building.count, Grove.width_append]
    rfl

end Xwbot.Heap

namespace Xwbot

/-! ## Trees that look alike -/

/-- The object `y` has the name, the attributes and the content of `x`. -/
structure Heap.LooksLike (h : Heap) (x : Addr) (h' : Heap) (y : Addr) : Prop where
  name : h'.name y = h.name x
  attrs : ∀ key, getattr key (h'.attrs y) = getattr key (h.attrs x)
  content : (h'.content y).bytes = (h.content x).bytes

/-- The groves have the same shape, objects in the same place look alike, and the counts of the
second one are right. -/
def Grove.Copies (h h' : Heap) : Grove → Grove → Prop
  | nil, nil => True
  | node x sons siblings, node y sons' siblings' =>
      h.LooksLike x h' y ∧ h'.childCount y = sons'.width ∧
        sons.Copies h h' sons' ∧ siblings.Copies h h' siblings'
  | _, _ => False

section Copies

variable {h h₁ h' h₂ : Heap} {f g : Grove}

/-- What a copy of a grove looks like depends on the data of its objects only. -/
theorem Grove.Copies.congr (copies : f.Copies h h' g)
    (source : ∀ x ∈ f.nodes,
      h₁.name x = h.name x ∧ h₁.attrs x = h.attrs x ∧ h₁.content x = h.content x)
    (target : ∀ y ∈ g.nodes, h₂.name y = h'.name y ∧ h₂.attrs y = h'.attrs y ∧
      h₂.content y = h'.content y ∧ h₂.childCount y = h'.childCount y) :
    f.Copies h₁ h₂ g := by
  induction f generalizing g with
  | nil =>
      cases g with
      | nil => trivial
      | node y sons' siblings' => cases copies
  | node x sons siblings ihSons ihSiblings =>
      cases g with
      | nil => cases copies
      | node y sons' siblings' =>
          rcases copies with ⟨alike, count, below, beside⟩
          rw [nodes, List.forall_mem_cons, List.forall_mem_append] at source target
          rcases source with ⟨⟨name, attrs, content⟩, sourceSons, sourceSiblings⟩
          rcases target with ⟨⟨name', attrs', content', count'⟩, targetSons, targetSiblings⟩
          refine ⟨⟨?_, fun key => ?_, ?_⟩, count'.trans count,
            ihSons below sourceSons targetSons, ihSiblings beside sourceSiblings targetSiblings⟩
          · rw [name', name, alike.name]
          · rw [attrs', attrs, alike.attrs]
          · rw [content', content, alike.content]

end Copies

namespace Heap

variable {mem : Memory} {h h₁ h₂ h' : Heap} {m c x : Addr}

/-! ## Copying one object -/

/-- `y` is a new object that looks like `x`, and nothing else has changed. -/
structure NewLike (h : Heap) (x : Addr) (h' : Heap) (y : Addr) : Prop where
  top : h'.top = y + 1
  kept : ∀ z, h.live z = true → AgreeAt h h' z
  live : h'.live y = true
  alike : h.LooksLike x h' y
  parent : h'.parent y = none
  next : h'.next y = none
  sibling : h'.sibling y = none
  sons : h'.sons y = none
  childCount : h'.childCount y = 0

/-- The object is filled once it has been made. -/
theorem copy_eq (mem : Memory) (alive : h.live x = true) :
    h.copy mem x = ((h.alloc (lit "$message") none).1.fill mem h.top x).map (·, h.top) := by
  have same := agreeAt_alloc alive (lit "$message") none
  have still : (h.alloc (lit "$message") none).1.deref (some x) = .ok x :=
    deref_of_live (same.live.trans alive)
  rw [copy, newObject_message]
  change (h.alloc (lit "$message") none).1.deref (some x) >>= (fun o =>
    (h.alloc (lit "$message") none).1.fill mem h.top o >>= fun h' => .ok (h', h.top)) = _
  rw [still, ok_bind]
  cases (h.alloc (lit "$message") none).1.fill mem h.top x <;> rfl

/-- **Spec of `x_object_copy`**, for a name that has room. -/
theorem copy_eq_ok (mem : Memory) (alive : h.live x = true)
    (keys : (attrKeys (h.attrs x)).Nodup) (fits : NameFits (h.name x)) :
    ∃ h', h.copy mem x = .ok (h', h.top) ∧ NewLike h x h' h.top := by
  have other : x ≠ h.top := ne_top alive
  have same := agreeAt_alloc alive (lit "$message") none
  rw [copy_eq mem alive, fill, same.name, setName, if_pos fits, ok_bind]
  refine ⟨_, rfl, ?_⟩
  constructor
  case kept =>
    intro z aliveZ
    have otherZ : z ≠ h.top := ne_top aliveZ
    exact (agreeAt_alloc aliveZ _ _).trans ((agreeAt_putName otherZ _).trans
      ((agreeAt_setAttrs otherZ _).trans (agreeAt_setContent otherZ _)))
  case alike =>
    refine ⟨by simp, fun key => ?_, by simp [other]⟩
    simp only [setContent_attrs, setAttrs_attrs, putName_attrs, alloc_fst_attrs,
      Function.update_self, Function.update_of_ne other]
    exact getattr_assigned_nil keys key
  all_goals simp

/-- A name without room ends the call. -/
theorem copy_eq_error (mem : Memory) (alive : h.live x = true) (tight : ¬NameFits (h.name x)) :
    h.copy mem x = .error .overflow := by
  have same := agreeAt_alloc alive (lit "$message") none
  rw [copy_eq mem alive, fill, same.name, setName, if_neg tight]
  rfl

/-! ## The loop over the children -/

/-- `m` has got further children behind `old`; everything else is as it was. -/
structure Grown (h : Heap) (m : Addr) (old : List Addr) (h' : Heap) : Prop where
  top : h.top ≤ h'.top
  live : ∀ y, h.live y = true → h'.live y = true
  rest : ∀ y, h.live y = true → y ≠ m → y ∉ old → AgreeAt h h' y
  data : ∀ y, h.live y = true →
    h'.name y = h.name y ∧ h'.attrs y = h.attrs y ∧ h'.content y = h.content y
  count : ∀ y, h.live y = true → y ≠ m → h'.childCount y = h.childCount y
  own : h'.parent m = h.parent m ∧ h'.next m = h.next m ∧ h'.sibling m = h.sibling m

theorem Grown.refl (h : Heap) (m : Addr) (old : List Addr) : Grown h m old h :=
  ⟨le_rfl, fun _ alive => alive, fun y _ _ _ => .refl h y, fun _ _ => ⟨rfl, rfl, rfl⟩,
    fun _ _ _ => rfl, rfl, rfl, rfl⟩

/-- The tree below the copy `y` of `x`. -/
structure CopyOf (h : Heap) (x : Addr) (sons : Grove) (h' : Heap) (y : Addr) (sons' : Grove) :
    Prop where
  top : y < h'.top
  kept : ∀ z, h.live z = true → AgreeAt h h' z
  building : Building h' y sons'
  parent : h'.parent y = none
  next : h'.next y = none
  sibling : h'.sibling y = none
  alike : h.LooksLike x h' y
  copies : sons.Copies h h' sons'
  fresh : ∀ z ∈ sons'.nodes, y < z

/-- The keys of each object's attributes are different, as `setattr` keeps them. -/
def Keyed (h : Heap) (l : List Addr) : Prop :=
  ∀ x ∈ l, (attrKeys (h.attrs x)).Nodup

/-- The names of the objects have room in the blocks that their copies get. -/
def Named (h : Heap) (l : List Addr) : Prop :=
  ∀ x ∈ l, NameFits (h.name x)

instance (h : Heap) (l : List Addr) : Decidable (h.Named l) :=
  inferInstanceAs (Decidable (∀ x ∈ l, NameFits (h.name x)))

/-- What the loop does for the children `g`. -/
def CopiesWell (mem : Memory) (g : Grove) : Prop :=
  ∀ ⦃h : Heap⦄ ⦃m : Addr⦄ ⦃done : Grove⦄ ⦃parent start : Option Addr⦄,
    g.Stands h parent start → h.Keyed g.nodes → h.Named g.nodes → Building h m done →
    (∀ y ∈ g.nodes, y ∉ m :: done.nodes) →
    ∃ h' g', (∃ n, ∀ fuel, n ≤ fuel → copyChildren mem fuel h m start = .ok h') ∧
      Building h' m (done.append g') ∧ g.Copies h h' g' ∧ Grown h m done.roots h' ∧
      ∀ y ∈ g'.nodes, h.top ≤ y

/-- The loop starts with an object that has no children. -/
theorem NewLike.building (new : NewLike h x h₁ h.top) : Building h₁ h.top .nil :=
  ⟨new.live, new.sons, List.nodup_singleton _, trivial, new.childCount⟩

/-- The children of the object are still there. -/
theorem NewLike.below {sons : Grove} (new : NewLike h x h₁ h.top) (root : IsRoot h x sons) :
    sons.Stands h₁ (some x) (h₁.sons x) := by
  have same : ∀ y ∈ sons.nodes, AgreeAt h h₁ y := fun y member =>
    new.kept y (root.below.live_of_mem member)
  rw [(new.kept x root.live).sons]
  exact root.below.congr (fun y member => (same y member).live) fun y member =>
    ⟨(same y member).parent, (same y member).sons, (same y member).sibling⟩

theorem NewLike.apart {sons : Grove} (_new : NewLike h x h₁ h.top) (root : IsRoot h x sons) :
    ∀ y ∈ sons.nodes, y ∉ h.top :: Grove.nil.nodes := by
  intro y member
  rw [Grove.nodes, List.mem_singleton]
  exact ne_top (root.below.live_of_mem member)

/-- An object whose children are copied well is copied well. -/
theorem CopiesWell.object {sons : Grove} (copiesWell : CopiesWell mem sons)
    (root : IsRoot h x sons) (keyed : h.Keyed (x :: sons.nodes))
    (named : h.Named (x :: sons.nodes)) :
    ∃ h' sons', (∃ n, ∀ fuel, n ≤ fuel →
        fullCopyWith mem (copyChildren mem fuel) h x = .ok (h', h.top)) ∧
      CopyOf h x sons h' h.top sons' := by
  rw [Keyed, List.forall_mem_cons] at keyed
  rw [Named, List.forall_mem_cons] at named
  rcases copy_eq_ok mem root.live keyed.1 named.1 with ⟨h₁, copied, new⟩
  have same : ∀ y ∈ sons.nodes, AgreeAt h h₁ y := fun y member =>
    new.kept y (root.below.live_of_mem member)
  rcases copiesWell (new.below root)
    (fun y member => by rw [(same y member).attrs]; exact keyed.2 y member)
    (fun y member => by rw [(same y member).name]; exact named.2 y member)
    new.building (new.apart root) with
    ⟨h₂, sons', ⟨n, loop⟩, building', copies, grown, fresh⟩
  refine ⟨h₂, sons', ⟨n, fun fuel enough => ?_⟩, ?_⟩
  · simp only [fullCopyWith, copied, ok_bind, loop fuel enough]
  have kept : ∀ z, h.live z = true → AgreeAt h h₂ z := fun z alive =>
    (new.kept z alive).trans (grown.rest z (by rw [(new.kept z alive).live, alive]) (ne_top alive)
      List.not_mem_nil)
  constructor
  case top =>
    have top := grown.top
    rw [new.top] at top
    exact top
  case kept => exact kept
  case building => exact building'
  case parent => exact grown.own.1.trans new.parent
  case next => exact grown.own.2.1.trans new.next
  case sibling => exact grown.own.2.2.trans new.sibling
  case alike =>
    rcases grown.data h.top new.live with ⟨name, attrs, content⟩
    refine ⟨name.trans new.alike.name, fun key => ?_, ?_⟩
    · rw [attrs]
      exact new.alike.attrs key
    · rw [content]
      exact new.alike.content
  case copies =>
    refine copies.congr (fun y member => ?_) fun y _ => ⟨rfl, rfl, rfl, rfl⟩
    exact ⟨(same y member).name.symm, (same y member).attrs.symm, (same y member).content.symm⟩
  case fresh =>
    intro z member
    have behind := fresh z member
    rw [new.top] at behind
    exact behind

/-- An append and the loop behind it. -/
theorem Grown.adopted {roots : List Addr} (adopted : Adopted h₁ m c roots h₂) (other : c ≠ m)
    (outside : m ∉ roots) (top : h.top ≤ h₁.top) (new : h.live c = false)
    (kept : ∀ y, h.live y = true → AgreeAt h h₁ y) (aliveM : h.live m = true)
    (grown : Grown h₂ m (roots ++ [c]) h') : Grown h m roots h' := by
  have aliveAt : ∀ y, h.live y = true → h₂.live y = true := fun y alive => by
    rw [adopted.live, (kept y alive).live, alive]
  have otherC : ∀ y, h.live y = true → y ≠ c := by
    rintro y alive rfl
    rw [new] at alive
    cases alive
  constructor
  case top => exact top.trans (adopted.top ▸ grown.top)
  case live => exact fun y alive => grown.live y (aliveAt y alive)
  case rest =>
    intro y alive otherM notOld
    refine (kept y alive).trans ((adopted.agree y otherM (otherC y alive) notOld).trans
      (grown.rest y (aliveAt y alive) otherM ?_))
    rw [List.mem_append, List.mem_singleton, not_or]
    exact ⟨notOld, otherC y alive⟩
  case data =>
    intro y alive
    rcases grown.data y (aliveAt y alive) with ⟨name, attrs, content⟩
    rw [name, attrs, content, adopted.name, adopted.attrs, adopted.content]
    exact ⟨(kept y alive).name, (kept y alive).attrs, (kept y alive).content⟩
  case count =>
    intro y alive otherM
    rw [grown.count y (aliveAt y alive) otherM, adopted.childCount, Function.update_of_ne otherM]
    exact (kept y alive).childCount
  case own =>
    rcases grown.own with ⟨parent, next, sibling⟩
    have keptM := kept m aliveM
    refine ⟨parent.trans ?_, next.trans ?_, sibling.trans ?_⟩
    · rw [adopted.parent, Function.update_of_ne other.symm, keptM.parent]
    · rcases adopted.next m other.symm with same | ⟨member, -⟩
      · exact same.trans keptM.next
      · exact absurd member outside
    · rw [adopted.sibling m other.symm fun atEnd => outside (List.mem_of_getLast? atEnd),
        keptM.sibling]

/-- The copy of a child keeps looking like it while the others are copied. -/
theorem CopyOf.copies_node {sons sons' siblings siblings' : Grove} {roots old : List Addr}
    (copy : CopyOf h x sons h₁ c sons') (adopted : Adopted h₁ m c roots h₂) (other : c ≠ m)
    (outside : m ∉ sons'.nodes) (grown : Grown h₂ m old h')
    (source : ∀ y ∈ siblings.nodes, AgreeAt h h₂ y) (copies : siblings.Copies h₂ h' siblings') :
    (Grove.node x sons siblings).Copies h h' (.node c sons' siblings') := by
  have kept : ∀ y, h₁.live y = true → y ≠ m → h'.name y = h₁.name y ∧
      h'.attrs y = h₁.attrs y ∧ h'.content y = h₁.content y ∧
        h'.childCount y = h₁.childCount y := by
    intro y alive otherM
    have alive₂ : h₂.live y = true := by rw [adopted.live, alive]
    rcases grown.data y alive₂ with ⟨name, attrs, content⟩
    rw [name, attrs, content, grown.count y alive₂ otherM, adopted.name, adopted.attrs,
      adopted.content, adopted.childCount, Function.update_of_ne otherM]
    exact ⟨rfl, rfl, rfl, rfl⟩
  rcases kept c copy.building.live other with ⟨name, attrs, content, count⟩
  refine ⟨⟨?_, fun key => ?_, ?_⟩, count.trans copy.building.count, ?_, ?_⟩
  · rw [name, copy.alike.name]
  · rw [attrs, copy.alike.attrs]
  · rw [content, copy.alike.content]
  · refine copy.copies.congr (fun _ _ => ⟨rfl, rfl, rfl⟩) fun y member => ?_
    exact kept y (copy.building.stands.live_of_mem member) fun same => outside (same ▸ member)
  · refine copies.congr (fun y member => ?_) fun _ _ => ⟨rfl, rfl, rfl, rfl⟩
    exact ⟨(source y member).name.symm, (source y member).attrs.symm,
      (source y member).content.symm⟩

/-- A child has been copied, and its copy stands behind the children that `m` had. -/
structure Joined (mem : Memory) (h : Heap) (x : Addr) (sons siblings : Grove)
    (parent : Option Addr) (m : Addr) (done : Grove) (h₁ h₂ : Heap) (sons' : Grove) : Prop where
  copied : ∃ n, ∀ fuel, n ≤ fuel →
    fullCopyWith mem (copyChildren mem fuel) h x = .ok (h₁, h.top)
  copy : CopyOf h x sons h₁ h.top sons'
  appended : h₁.appendChildNoCb m h.top = .ok h₂
  adopted : Adopted h₁ m h.top done.roots h₂
  building : Building h₂ m (done.append (.node h.top sons' .nil))
  same : ∀ y ∈ siblings.nodes, AgreeAt h h₂ y
  beside : siblings.Stands h₂ parent (h₂.sibling x)
  apart : ∀ y ∈ siblings.nodes, y ∉ m :: (done.append (.node h.top sons' .nil)).nodes

/-- What one turn of the loop does. -/
theorem CopiesWell.joined {sons siblings done : Grove} {parent start : Option Addr}
    (copiesWell : CopiesWell mem sons) (stands : (Grove.node x sons siblings).Stands h parent start)
    (keyed : h.Keyed (x :: sons.nodes)) (named : h.Named (x :: sons.nodes))
    (building : Building h m done)
    (apart : ∀ y ∈ (Grove.node x sons siblings).nodes, y ∉ m :: done.nodes) :
    ∃ h₁ h₂ sons', Joined mem h x sons siblings parent m done h₁ h₂ sons' := by
  rcases stands with ⟨rfl, alive, parent_eq, below, beside⟩
  rw [Grove.nodes, ← List.cons_append, List.forall_mem_append] at apart
  rcases copiesWell.object ⟨alive, below⟩ keyed named with ⟨h₁, sons', copied, copy⟩
  have building₁ : Building h₁ m done := building.agree fun y member =>
    copy.kept y (building.live_of_mem member)
  have old : ∀ y, h.top ≤ y → y ∉ m :: done.nodes := fun y behind member =>
    absurd (h.live_lt y (building.live_of_mem member)) (not_lt.mpr behind)
  have outside : h.top ∉ done.nodes := fun member =>
    old h.top le_rfl (List.mem_cons_of_mem m member)
  rcases building₁.appendChildNoCb copy.building.live outside copy.sibling copy.next with
    ⟨h₂, appended, adopted⟩
  have same : ∀ y, h.live y = true → y ∉ m :: done.nodes → AgreeAt h h₂ y := by
    intro y aliveY apartY
    rw [List.mem_cons, not_or] at apartY
    exact (copy.kept y aliveY).trans (adopted.agree y apartY.1 (ne_top aliveY) fun member =>
      apartY.2 (done.roots_subset_nodes member))
  have sameBeside : ∀ y ∈ siblings.nodes, AgreeAt h h₂ y := fun y member =>
    same y (beside.live_of_mem member) (apart.2 y member)
  refine ⟨h₁, h₂, sons', ?_⟩
  constructor
  case copied => exact copied
  case copy => exact copy
  case appended => exact appended
  case adopted => exact adopted
  case building =>
    apply adopted.building building₁ copy.building.live copy.building.stands copy.building.nodup
    intro y member
    rcases List.mem_cons.mp member with rfl | below
    · exact old h.top le_rfl
    · exact old y (copy.fresh y below).le
  case same => exact sameBeside
  case beside =>
    rw [(same x alive (apart.1 x List.mem_cons_self)).sibling]
    exact beside.congr (fun y member => (sameBeside y member).live) fun y member =>
      ⟨(sameBeside y member).parent, (sameBeside y member).sons, (sameBeside y member).sibling⟩
  case apart =>
    intro y member inside
    have inFront := h.live_lt y (beside.live_of_mem member)
    rw [Grove.nodes_append, ← List.cons_append, List.mem_append] at inside
    rcases inside with earlier | latest
    · exact apart.2 y member earlier
    · rw [Grove.nodes, Grove.nodes, List.append_nil] at latest
      rcases List.mem_cons.mp latest with rfl | below
      · exact lt_irrefl _ inFront
      · exact lt_asymm inFront (copy.fresh y below)

/-- The loop goes on behind the child. -/
theorem Joined.copyChildren {sons siblings done sons' : Grove} {parent : Option Addr}
    {result : Except Fault Heap}
    (joined : Joined mem h x sons siblings parent m done h₁ h₂ sons')
    (rest : ∃ n, ∀ fuel, n ≤ fuel → copyChildren mem fuel h₂ m (h₂.sibling x) = result) :
    ∃ n, ∀ fuel, n ≤ fuel → copyChildren mem fuel h m (some x) = result := by
  rcases joined.copied with ⟨n₁, copied⟩
  rcases rest with ⟨n₂, loop⟩
  refine ⟨max n₁ n₂ + 1, fun fuel enough => ?_⟩
  obtain ⟨fuel, rfl⟩ := Nat.exists_eq_add_of_le' (Nat.le_of_add_left_le enough)
  have more : max n₁ n₂ ≤ fuel := by omega
  rw [Heap.copyChildren, copied fuel ((Nat.le_max_left ..).trans more), ok_bind]
  simp only [joined.appended, ok_bind]
  exact loop fuel ((Nat.le_max_right ..).trans more)

/-- **Spec of the loop.**  It ends, and the copies of the children stand behind the children
that `m` had. -/
theorem copiesWell (mem : Memory) (g : Grove) : CopiesWell mem g := by
  induction g with
  | nil =>
      intro h m done parent start stands keyed named building apart
      have noMore : start = none := stands
      subst noMore
      refine ⟨h, .nil, ⟨1, fun fuel enough => ?_⟩, by rwa [Grove.append_nil], trivial, .refl h m _,
        fun _ member => (List.not_mem_nil member).elim⟩
      obtain ⟨fuel, rfl⟩ := Nat.exists_eq_add_of_le' enough
      rfl
  | node x sons siblings ihSons ihSiblings =>
      intro h m done parent start stands keyed named building apart
      rw [Keyed, Grove.nodes, ← List.cons_append, List.forall_mem_append] at keyed
      rw [Named, Grove.nodes, ← List.cons_append, List.forall_mem_append] at named
      -- the child is copied before the loop goes on
      rcases ihSons.joined stands keyed.1 named.1 building apart with ⟨h₁, h₂, sons', joined⟩
      have copy := joined.copy
      have adopted := joined.adopted
      have same := joined.same
      rcases ihSiblings joined.beside
        (fun y member => by rw [(same y member).attrs]; exact keyed.2 y member)
        (fun y member => by rw [(same y member).name]; exact named.2 y member)
        joined.building joined.apart with
        ⟨h₃, siblings', loop, building₃, copies, grown, fresh⟩
      have old : h.top ∉ m :: done.nodes := fun member =>
        lt_irrefl _ (h.live_lt h.top (building.live_of_mem member))
      have other : h.top ≠ m := fun same => old (same ▸ List.mem_cons_self)
      have notRoot : m ∉ done.roots := fun member =>
        (List.nodup_cons.mp building.nodup).1 (done.roots_subset_nodes member)
      rcases stands with ⟨rfl, -⟩
      refine ⟨h₃, .node h.top sons' siblings', joined.copyChildren loop, ?_, ?_, ?_, ?_⟩
      · rw [Grove.append_assoc] at building₃
        exact building₃
      · refine copy.copies_node adopted other (fun member => ?_) grown same copies
        exact lt_asymm (h.live_lt m building.live) (copy.fresh m member)
      · have grown' := grown
        rw [Grove.roots_append] at grown'
        exact grown'.adopted adopted other notRoot copy.top.le h.live_top copy.kept building.live
      · intro y member
        rcases List.mem_cons.mp member with rfl | member
        · exact le_rfl
        · rcases List.mem_append.mp member with below | behind
          · exact (copy.fresh y below).le
          · exact (copy.top.le.trans (adopted.top ▸ le_rfl)).trans (fresh y behind)

/-! ## A name without room -/

/-- What the loop does for the children `g` if a name among them has no room. -/
def Overflows (mem : Memory) (g : Grove) : Prop :=
  ∀ ⦃h : Heap⦄ ⦃m : Addr⦄ ⦃done : Grove⦄ ⦃parent start : Option Addr⦄,
    g.Stands h parent start → h.Keyed g.nodes → ¬h.Named g.nodes → Building h m done →
    (∀ y ∈ g.nodes, y ∉ m :: done.nodes) →
    ∃ n, ∀ fuel, n ≤ fuel → copyChildren mem fuel h m start = .error .overflow

/-- The call for an object fails if it is the object's own name, or one below it. -/
theorem Overflows.object {sons : Grove} (overflows : Overflows mem sons) (root : IsRoot h x sons)
    (keyed : h.Keyed (x :: sons.nodes)) (tight : ¬h.Named (x :: sons.nodes)) :
    ∃ n, ∀ fuel, n ≤ fuel →
      fullCopyWith mem (copyChildren mem fuel) h x = .error .overflow := by
  rw [Keyed, List.forall_mem_cons] at keyed
  rw [Named, List.forall_mem_cons, not_and_or] at tight
  by_cases own : NameFits (h.name x)
  · rcases copy_eq_ok mem root.live keyed.1 own with ⟨h₁, copied, new⟩
    have same : ∀ y ∈ sons.nodes, AgreeAt h h₁ y := fun y member =>
      new.kept y (root.below.live_of_mem member)
    have below : ¬h₁.Named sons.nodes := by
      intro named
      apply tight.resolve_left (not_not.mpr own)
      intro y member
      rw [← (same y member).name]
      exact named y member
    rcases overflows (new.below root)
      (fun y member => by rw [(same y member).attrs]; exact keyed.2 y member)
      below new.building (new.apart root) with ⟨n, loop⟩
    refine ⟨n, fun fuel enough => ?_⟩
    simp only [fullCopyWith, copied, ok_bind, loop fuel enough, error_bind]
  · refine ⟨0, fun fuel _ => ?_⟩
    rw [fullCopyWith, copy_eq_error mem root.live own]
    rfl

/-- **The loop does not get past a name without room.** -/
theorem overflows (mem : Memory) (g : Grove) : Overflows mem g := by
  induction g with
  | nil =>
      intro h m done parent start stands keyed tight
      exact absurd (fun _ member => (List.not_mem_nil member).elim) tight
  | node x sons siblings ihSons ihSiblings =>
      intro h m done parent start stands keyed tight building apart
      rw [Keyed, Grove.nodes, ← List.cons_append, List.forall_mem_append] at keyed
      rw [Named, Grove.nodes, ← List.cons_append, List.forall_mem_append, not_and_or] at tight
      have start_eq : start = some x := stands.1
      subst start_eq
      by_cases named : h.Named (x :: sons.nodes)
      · rcases (copiesWell mem sons).joined stands keyed.1 named building apart with
          ⟨h₁, h₂, sons', joined⟩
        have same := joined.same
        have behind : ¬h₂.Named siblings.nodes := by
          intro named₂
          apply tight.resolve_left (not_not.mpr named)
          intro y member
          rw [← (same y member).name]
          exact named₂ y member
        exact joined.copyChildren (ihSiblings joined.beside
          (fun y member => by rw [(same y member).attrs]; exact keyed.2 y member)
          behind joined.building joined.apart)
      · rcases ihSons.object ⟨stands.2.1, stands.2.2.2.1⟩ keyed.1 named with ⟨n, fails⟩
        refine ⟨n + 1, fun fuel enough => ?_⟩
        obtain ⟨fuel, rfl⟩ := Nat.exists_eq_add_of_le' (Nat.le_of_add_left_le enough)
        rw [copyChildren, fails fuel (by omega), error_bind]

/-! ## Where the copies are -/

/-- The side that an object is on does not matter when there is one side only. -/
theorem separate_true (h : Heap) : h.Separate fun _ => True :=
  fun _ _ _ _ => Iff.rfl

/-- A function that allocates from the side, for an object of the side, stays on it. -/
def StaysWithin (loop : Heap → Addr → Option Addr → Except Fault Heap) : Prop :=
  ∀ ⦃side : Addr → Prop⦄ ⦃h h' : Heap⦄ ⦃m : Addr⦄ ⦃start : Option Addr⦄, h.Separate side → side m →
    (∀ y, h.top ≤ y → y < h'.top → side y) → loop h m start = .ok h' → Within side h h'

theorem within_copy {side : Addr → Prop} (separate : h.Separate side) (new : side h.top)
    (result : h.copy mem x = .ok (h', m)) : m = h.top ∧ h'.top = h.top + 1 ∧ Within side h h' := by
  rcases bind_eq_ok_iff.mp result with ⟨made, created, afterNew⟩
  cases (newObject_message h).symm.trans created
  rcases bind_eq_ok_iff.mp afterNew with ⟨y, -, afterDeref⟩
  rcases bind_eq_ok_iff.mp afterDeref with ⟨h₁, filled, ⟨⟩⟩
  rcases bind_eq_ok_iff.mp filled with ⟨h₂, named, ⟨⟩⟩
  rcases setName_eq_ok_iff.mp named with ⟨-, rfl⟩
  have first := separate.alloc (lit "$message") none
  have second := first.separate.putName new ((h.alloc (lit "$message") none).1.name y)
  have third := second.separate.setAttrs new (assigned ((h.alloc (lit "$message") none).1.attrs y)
    ((h.alloc (lit "$message") none).1.attrs h.top))
  exact ⟨rfl, rfl, first.trans (second.trans (third.trans (third.separate.setContent new _)))⟩

theorem StaysWithin.fullCopyWith {loop : Heap → Addr → Option Addr → Except Fault Heap}
    (stays : StaysWithin loop) {side : Addr → Prop} (separate : h.Separate side)
    (new : ∀ y, h.top ≤ y → y < h'.top → side y)
    (result : fullCopyWith mem loop h x = .ok (h', m)) : Within side h h' ∧ side m := by
  rcases bind_eq_ok_iff.mp result with ⟨⟨h₁, msg⟩, copied, afterCopy⟩
  rcases bind_eq_ok_iff.mp afterCopy with ⟨h₂, looped, ⟨⟩⟩
  rcases within_copy h.separate_true trivial copied with ⟨rfl, top_eq, -⟩
  have longer := (stays h₁.separate_true trivial (fun _ _ _ => trivial) looped).top
  have newTop : side h.top := new h.top le_rfl (by omega)
  rcases within_copy separate newTop copied with ⟨-, -, first⟩
  have second := stays first.separate newTop
    (fun y behind inside => new y (by omega) inside) looped
  exact ⟨first.trans second, newTop⟩

/-- **The copies are made on one side.** -/
theorem staysWithin_copyChildren (mem : Memory) (fuel : Nat) :
    StaysWithin (copyChildren mem fuel) := by
  induction fuel with
  | zero =>
      intro side h h' m start separate inside new result
      cases result
  | succ fuel ih =>
      intro side h h' m start separate inside new result
      cases start with
      | none =>
          cases result
          exact .refl separate
      | some tmp =>
          rcases bind_eq_ok_iff.mp result with ⟨⟨h₁, child⟩, copied, afterCopy⟩
          rcases bind_eq_ok_iff.mp afterCopy with ⟨h₂, appended, looped⟩
          have top₁ := (ih.fullCopyWith h.separate_true (fun _ _ _ => trivial) copied).1.top
          have top₂ := (h₁.separate_true.appendChildNoCb trivial trivial appended).top
          have top₃ := (ih h₂.separate_true trivial (fun _ _ _ => trivial) looped).top
          rcases ih.fullCopyWith separate (fun y behind before =>
            new y behind (by omega)) copied with
            ⟨first, insideChild⟩
          have second := first.separate.appendChildNoCb inside insideChild appended
          have third := ih second.separate inside (fun y behind before => new y (by omega) before)
            looped
          exact first.trans (second.trans third)

/-! ## The whole tree -/

/-- No live object points to an object that is yet to be allocated. -/
def Grounded (h : Heap) : Prop :=
  h.Separate fun x => h.top ≤ x

/-- A step that stays among the objects up to the new top makes no pointer behind it. -/
theorem Grounded.of_within (grounded : h.Grounded) (longer : h.top ≤ h'.top)
    (stays : (h.Separate fun x => x < h'.top) → Within (fun x => x < h'.top) h h') :
    h'.Grounded := by
  have separate : h.Separate fun x => x < h'.top := by
    intro y alive z points
    have inside := h.live_lt y alive
    have target : z < h.top := not_le.mp (mt (grounded y alive z points).mpr (not_le.mpr inside))
    exact iff_of_true (inside.trans_le longer) (target.trans_le longer)
  intro y alive z points
  change h'.top ≤ y ↔ h'.top ≤ z
  rw [← not_lt, ← not_lt]
  exact not_congr ((stays separate).separate y alive z points)

/-- A pointer to an object that is yet to be allocated is not made. -/
theorem Grounded.change (grounded : h.Grounded) (step : Change)
    (objects : ∀ x ∈ step.objects, x < h.top) (result : h.change step = .ok h') : h'.Grounded := by
  have longer := (h.separate_true.change (fun _ _ => trivial) result).top
  apply grounded.of_within longer
  intro separate
  exact separate.change (fun x member => (objects x member).trans_le longer) result

theorem Grounded.changeAll (grounded : h.Grounded) (steps : List Change)
    (objects : ∀ step ∈ steps, ∀ x ∈ step.objects, x < h.top)
    (result : h.changeAll steps = .ok h') : h'.Grounded := by
  induction steps generalizing h with
  | nil =>
      cases result
      exact grounded
  | cons step rest ih =>
      rcases bind_eq_ok_iff.mp result with ⟨h₁, first, after⟩
      rw [List.forall_mem_cons] at objects
      have longer := (h.separate_true.change (fun _ _ => trivial) first).top
      exact ih (grounded.change step objects.1 first)
        (fun step member x inside => (objects.2 step member x inside).trans_le longer) after

theorem Grounded.alloc (grounded : h.Grounded) (name : Text) (objclass : Option Nat) :
    (h.alloc name objclass).1.Grounded := by
  apply grounded.of_within (Nat.le_succ h.top)
  intro separate
  exact separate.alloc name objclass

theorem grounded_newObjects (names : List Text) : (newObjects names).Grounded := by
  induction names with
  | nil => exact fun _ alive => by cases alive
  | cons name rest ih => exact ih.alloc name none

/-- Sides that tell the objects from `base` on from those before.  Objects that are yet to be
allocated may be on either side. -/
def Divides (h : Heap) (base : Addr) (side : Addr → Prop) : Prop :=
  ∀ y < h.top, side y ↔ base ≤ y

/-- Whatever is done to the objects on one side, including new ones, leaves every object on the
other side as it is. -/
def Independent (h : Heap) (base : Addr) : Prop :=
  ∀ side, h.Divides base side → ∀ steps h', h.changeAll steps = .ok h' →
    ((∀ step ∈ steps, ∀ x ∈ step.objects, side x) →
      ∀ y, h.live y = true → y < base → AgreeAt h h' y) ∧
    ((∀ step ∈ steps, ∀ x ∈ step.objects, ¬ side x) →
      ∀ y, h.live y = true → base ≤ y → AgreeAt h h' y)

/-- The objects that a call has allocated are independent of the others. -/
theorem independent_of_staysWithin {fuel : Nat} (grounded : h.Grounded)
    (result : fullCopy mem fuel h x = .ok (h', c)) : Independent h' h.top := by
  intro side divides steps h'' changed
  have longer := ((staysWithin_copyChildren mem fuel).fullCopyWith h.separate_true
    (fun _ _ _ => trivial) result).1.top
  have separate : h.Separate side := by
    intro y alive z points
    have inside := h.live_lt y alive
    have target : z < h.top := not_le.mp (mt (grounded y alive z points).mpr (not_le.mpr inside))
    rw [divides y (inside.trans_le longer), divides z (target.trans_le longer)]
    exact iff_of_false (not_le.mpr inside) (not_le.mpr target)
  have within := ((staysWithin_copyChildren mem fuel).fullCopyWith separate
    (fun y behind before => (divides y before).mpr behind) result).1
  constructor
  · intro onSide y alive old
    have outside : ¬ side y := by
      rw [divides y (h'.live_lt y alive)]
      exact not_le.mpr old
    exact (within.separate.changeAll onSide changed).agree y alive outside
  · intro offSide y alive new
    refine (within.separate.symm.changeAll offSide changed).agree y alive (not_not.mpr ?_)
    exact (divides y (h'.live_lt y alive)).mpr new

/-- The call ends with a new tree of new objects, which has the shape of the old one, and in which
each object looks like the one it was copied from.  Nothing else has changed, and what is done
later to either tree leaves the other one alone. -/
def FullyCopied (mem : Memory) (h : Heap) (t : Addr) (g : Grove) : Prop :=
  ∃ h' c g', (∃ n, ∀ fuel, n ≤ fuel → fullCopy mem fuel h t = .ok (h', c)) ∧
    IsRoot h' c g' ∧ (Grove.node t g .nil).Copies h h' (.node c g' .nil) ∧
    (c :: g'.nodes).Nodup ∧ (∀ y ∈ c :: g'.nodes, h.top ≤ y) ∧
    h'.parent c = none ∧ h'.sibling c = none ∧
    (∀ y, h.live y = true → AgreeAt h h' y) ∧ h'.Independent h.top

section Whole

variable {t : Addr} {g : Grove}

theorem fullyCopied_of_named (mem : Memory) (root : IsRoot h t g) (keyed : h.Keyed (t :: g.nodes))
    (named : h.Named (t :: g.nodes)) (grounded : h.Grounded) : FullyCopied mem h t g := by
  rcases (copiesWell mem g).object root keyed named with ⟨h', g', ⟨n, copied⟩, copy⟩
  refine ⟨h', h.top, g', ⟨n, copied⟩, ⟨copy.building.live, copy.building.stands⟩,
    ⟨copy.alike, copy.building.count, copy.copies, trivial⟩, copy.building.nodup,
    fun y member => ?_, copy.parent, copy.sibling, copy.kept,
    independent_of_staysWithin grounded (copied n le_rfl)⟩
  rcases List.mem_cons.mp member with rfl | below
  · exact le_rfl
  · exact (copy.fresh y below).le

/-- A call that keeps failing makes no copy. -/
theorem not_fullyCopied_of_error {fault : Fault}
    (fails : ∃ n, ∀ fuel, n ≤ fuel → fullCopy mem fuel h t = .error fault) :
    ¬FullyCopied mem h t g := by
  rintro ⟨h', c, g', ⟨n₁, copied⟩, -⟩
  rcases fails with ⟨n₂, failed⟩
  have impossible := copied (max n₁ n₂) (Nat.le_max_left ..)
  rw [failed (max n₁ n₂) (Nat.le_max_right ..)] at impossible
  cases impossible

/-- **A full copy is a structural copy** exactly if every name of the tree has room in the block
that its copy gets. -/
theorem fullyCopied_iff_named (mem : Memory) (root : IsRoot h t g)
    (keyed : h.Keyed (t :: g.nodes)) (grounded : h.Grounded) :
    FullyCopied mem h t g ↔ h.Named (t :: g.nodes) := by
  constructor
  · intro copied
    by_contra tight
    exact not_fullyCopied_of_error ((overflows mem g).object root keyed tight) copied
  · intro named
    exact fullyCopied_of_named mem root keyed named grounded

end Whole

/-- `<a><b k='v'>hi</b><b/></a>` -/
def brothers : List Change :=
  [.call (.appendChild 0 1), .call (.appendChild 0 2), .setAttr 1 (lit "k") (some (lit "v")),
    .setContent 1 (XString.zero.write (.filled 0) (lit "hi"))]

theorem fullyCopied_iff_named_brothers :
    ∃ h, (newObjects [lit "b", lit "b", lit "a"]).changeAll brothers = .ok h ∧
      h.attrs 1 = [(lit "k", lit "v")] ∧ (h.content 1).bytes = lit "hi" ∧
      FullyCopied (Memory.filled 0) h 0 (.node 1 .nil (.node 2 .nil .nil)) := by
  have built : ∃ h, (newObjects [lit "b", lit "b", lit "a"]).changeAll brothers = .ok h ∧
      IsRoot h 0 (.node 1 .nil (.node 2 .nil .nil)) ∧ h.attrs 1 = [(lit "k", lit "v")] ∧
      (h.content 1).bytes = lit "hi" ∧ h.Keyed [0, 1, 2] ∧ h.Named [0, 1, 2] := by
    refine ⟨_, rfl, ⟨rfl, rfl, rfl, rfl, rfl, rfl, rfl, rfl, rfl, rfl⟩, rfl, rfl, ?_, ?_⟩
    · exact List.forall_mem_cons.mpr ⟨List.nodup_nil, List.forall_mem_cons.mpr
        ⟨List.nodup_singleton _, List.forall_mem_singleton.mpr List.nodup_nil⟩⟩
    · decide
  rcases built with ⟨h, result, root, attrs, content, keyed, named⟩
  have grounded := (grounded_newObjects _).changeAll brothers (by decide) result
  exact ⟨h, result, attrs, content,
    (fullyCopied_iff_named (Memory.filled 0) root keyed grounded).mpr named⟩

/-- The tree is one object, whose name takes 32 bytes with its terminator. -/
theorem not_fullyCopied_thirtyone :
    IsRoot (newObjects [List.replicate 31 (ch 'a')]) 0 .nil ∧
      ¬FullyCopied (Memory.filled 0) (newObjects [List.replicate 31 (ch 'a')]) 0 .nil := by
  have root : IsRoot (newObjects [List.replicate 31 (ch 'a')]) 0 .nil := ⟨rfl, rfl⟩
  have keyed : (newObjects [List.replicate 31 (ch 'a')]).Keyed [0] :=
    List.forall_mem_singleton.mpr List.nodup_nil
  have tight : ¬(newObjects [List.replicate 31 (ch 'a')]).Named [0] := by decide
  exact ⟨root, not_fullyCopied_of_error ((overflows _ .nil).object root keyed tight)⟩

end Heap

end Xwbot
