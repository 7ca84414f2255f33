import Xwbot.Object.Linked
import Xwbot.Object.TreeRun

/-!
# What the operations leave alone

Objects are on one of two sides, and no pointer leads from one side to the other.  An operation
that is called with objects of one side follows pointers of that side only.  So it changes no
object of the other side, and does not connect the sides.
-/

namespace Xwbot.Heap

open Links

variable {h h' h'' : Heap} {x y p c : Addr} {v : Option Addr}

/-! ## An object that stays as it is -/

/-- The heaps agree on an object. -/
structure AgreeAt (h h' : Heap) (x : Addr) : Prop where
  live : h'.live x = h.live x
  name : h'.name x = h.name x
  childCount : h'.childCount x = h.childCount x
  parent : h'.parent x = h.parent x
  next : h'.next x = h.next x
  sibling : h'.sibling x = h.sibling x
  sons : h'.sons x = h.sons x
  attrs : h'.attrs x = h.attrs x
  content : h'.content x = h.content x
  bus : h'.bus x = h.bus x
  refcount : h'.refcount x = h.refcount x
  objclass : h'.objclass x = h.objclass x

theorem AgreeAt.refl (h : Heap) (x : Addr) : AgreeAt h h x :=
  ⟨rfl, rfl, rfl, rfl, rfl, rfl, rfl, rfl, rfl, rfl, rfl, rfl⟩

theorem AgreeAt.trans (first : AgreeAt h h' x) (second : AgreeAt h' h'' x) : AgreeAt h h'' x where
  live := second.live.trans first.live
  name := second.name.trans first.name
  childCount := second.childCount.trans first.childCount
  parent := second.parent.trans first.parent
  next := second.next.trans first.next
  sibling := second.sibling.trans first.sibling
  sons := second.sons.trans first.sons
  attrs := second.attrs.trans first.attrs
  content := second.content.trans first.content
  bus := second.bus.trans first.bus
  refcount := second.refcount.trans first.refcount
  objclass := second.objclass.trans first.objclass

theorem Agree.at (agree : Agree h h') (alive : h.live x = true) : AgreeAt h h' x where
  live := congrFun agree.live x
  name := agree.name x alive
  childCount := agree.childCount x alive
  parent := agree.parent x alive
  next := agree.next x alive
  sibling := agree.sibling x alive
  sons := agree.sons x alive
  attrs := agree.attrs x alive
  content := agree.content x alive
  bus := agree.bus x alive
  refcount := agree.refcount x alive
  objclass := agree.objclass x alive

section Stores

variable (other : y ≠ x)
include other

theorem agreeAt_putName (name : Text) : AgreeAt h (h.putName x name) y := by
  constructor <;> simp [other]

theorem agreeAt_setParent : AgreeAt h (h.setParent x v) y := by
  constructor <;> simp [other]

theorem agreeAt_setNext : AgreeAt h (h.setNext x v) y := by
  constructor <;> simp [other]

theorem agreeAt_setSibling : AgreeAt h (h.setSibling x v) y := by
  constructor <;> simp [other]

theorem agreeAt_setSons : AgreeAt h (h.setSons x v) y := by
  constructor <;> simp [other]

theorem agreeAt_setChildCount (n : Int) : AgreeAt h (h.setChildCount x n) y := by
  constructor <;> simp [other]

theorem agreeAt_setRefcount (n : Int) : AgreeAt h (h.setRefcount x n) y := by
  constructor <;> simp [other]

theorem agreeAt_setAttrs (l : AttrList) : AgreeAt h (h.setAttrs x l) y := by
  constructor <;> simp [other]

theorem agreeAt_setContent (s : XString) : AgreeAt h (h.setContent x s) y := by
  constructor <;> simp [other]

theorem agreeAt_setBus : AgreeAt h (h.setBus x v) y := by
  constructor <;> simp [other]

theorem agreeAt_free : AgreeAt h (h.free x) y := by
  constructor <;> simp [other]

end Stores

theorem agreeAt_alloc (alive : h.live y = true) (name : Text) (objclass : Option Nat) :
    AgreeAt h (h.alloc name objclass).1 y := by
  have other : y ≠ h.top := ne_top alive
  constructor <;> simp [other]

/-! ## The two sides -/

/-- A link of the object leads to another one. -/
def PointsTo (h : Heap) (x z : Addr) : Prop :=
  h.parent x = some z ∨ h.next x = some z ∨ h.sibling x = some z ∨ h.sons x = some z

/-- No link of a live object leads to the other side. -/
def Separate (h : Heap) (side : Addr → Prop) : Prop :=
  ∀ x, h.live x = true → ∀ z, h.PointsTo x z → (side x ↔ side z)

/-- A pointer to an object of the side, or to none. -/
def OnSide (side : Addr → Prop) (v : Option Addr) : Prop :=
  ∀ z, v = some z → side z

/-- From `h` to `h'` only objects of the side have changed. -/
structure Within (side : Addr → Prop) (h h' : Heap) : Prop where
  top : h.top ≤ h'.top
  separate : h'.Separate side
  agree : ∀ y, h.live y = true → ¬ side y → AgreeAt h h' y

variable {side : Addr → Prop}

theorem Separate.symm (separate : h.Separate side) : h.Separate fun x => ¬ side x :=
  fun x alive z points => not_congr (separate x alive z points)

theorem Within.refl (separate : h.Separate side) : Within side h h :=
  ⟨le_rfl, separate, fun y _ _ => .refl h y⟩

theorem Within.trans (first : Within side h h') (second : Within side h' h'') :
    Within side h h'' where
  top := first.top.trans second.top
  separate := second.separate
  agree y alive outside :=
    (first.agree y alive outside).trans
      (second.agree y (by rw [(first.agree y alive outside).live, alive]) outside)

section Stores

variable (separate : h.Separate side) (inside : side x)
include separate inside

/-- A store into an object of the side, of links that it had and of `v`. -/
theorem Separate.store (target : OnSide side v) (top : h'.top = h.top)
    (live : ∀ y, h'.live y = true → h.live y = true) (agree : ∀ y, y ≠ x → AgreeAt h h' y)
    (links : ∀ z, h'.PointsTo x z → h.PointsTo x z ∨ v = some z) : Within side h h' := by
  refine ⟨top.ge, fun y alive z points => ?_, fun y _ outside => agree y fun same =>
    outside (same ▸ inside)⟩
  by_cases same : y = x
  · subst same
    rcases links z points with old | new
    · exact separate y (live y alive) z old
    · exact iff_of_true inside (target z new)
  · have kept := agree y same
    apply separate y (live y alive) z
    rwa [PointsTo, kept.parent, kept.next, kept.sibling, kept.sons] at points

theorem Separate.setParent (target : OnSide side v) : Within side h (h.setParent x v) := by
  refine separate.store inside target rfl (fun _ alive => alive)
    (fun _ other => agreeAt_setParent other) fun z points => ?_
  rcases points with link | points
  · exact .inr (by simpa using link)
  · exact .inl (.inr points)

theorem Separate.setNext (target : OnSide side v) : Within side h (h.setNext x v) := by
  refine separate.store inside target rfl (fun _ alive => alive)
    (fun _ other => agreeAt_setNext other) fun z points => ?_
  rcases points with link | link | points
  · exact .inl (.inl link)
  · exact .inr (by simpa using link)
  · exact .inl (.inr (.inr points))

theorem Separate.setSibling (target : OnSide side v) : Within side h (h.setSibling x v) := by
  refine separate.store inside target rfl (fun _ alive => alive)
    (fun _ other => agreeAt_setSibling other) fun z points => ?_
  rcases points with link | link | link | link
  · exact .inl (.inl link)
  · exact .inl (.inr (.inl link))
  · exact .inr (by simpa using link)
  · exact .inl (.inr (.inr (.inr link)))

theorem Separate.setSons (target : OnSide side v) : Within side h (h.setSons x v) := by
  refine separate.store inside target rfl (fun _ alive => alive)
    (fun _ other => agreeAt_setSons other) fun z points => ?_
  rcases points with link | link | link | link
  · exact .inl (.inl link)
  · exact .inl (.inr (.inl link))
  · exact .inl (.inr (.inr (.inl link)))
  · exact .inr (by simpa using link)

theorem Separate.putName (name : Text) : Within side h (h.putName x name) :=
  separate.store inside (v := none) (fun _ same => by cases same) rfl (fun _ alive => alive)
    (fun _ other => agreeAt_putName other name) fun _ => .inl

theorem Separate.setChildCount (n : Int) : Within side h (h.setChildCount x n) :=
  separate.store inside (v := none) (fun _ same => by cases same) rfl (fun _ alive => alive)
    (fun _ other => agreeAt_setChildCount other n) fun _ => .inl

theorem Separate.setRefcount (n : Int) : Within side h (h.setRefcount x n) :=
  separate.store inside (v := none) (fun _ same => by cases same) rfl (fun _ alive => alive)
    (fun _ other => agreeAt_setRefcount other n) fun _ => .inl

theorem Separate.setAttrs (l : AttrList) : Within side h (h.setAttrs x l) :=
  separate.store inside (v := none) (fun _ same => by cases same) rfl (fun _ alive => alive)
    (fun _ other => agreeAt_setAttrs other l) fun _ => .inl

theorem Separate.setContent (s : XString) : Within side h (h.setContent x s) :=
  separate.store inside (v := none) (fun _ same => by cases same) rfl (fun _ alive => alive)
    (fun _ other => agreeAt_setContent other s) fun _ => .inl

theorem Separate.setBus (v : Option Addr) : Within side h (h.setBus x v) :=
  separate.store inside (v := none) (fun _ same => by cases same) rfl (fun _ alive => alive)
    (fun _ other => agreeAt_setBus other) fun _ => .inl

theorem Separate.free : Within side h (h.free x) :=
  separate.store inside (v := none) (fun _ same => by cases same) rfl (fun _ => live_of_free)
    (fun _ other => agreeAt_free other) fun _ => .inl

end Stores

/-- A new object has no links. -/
theorem Separate.alloc (separate : h.Separate side) (name : Text) (objclass : Option Nat) :
    Within side h (h.alloc name objclass).1 := by
  refine ⟨Nat.le_succ h.top, fun y alive z points => ?_, fun y alive _ =>
    agreeAt_alloc alive name objclass⟩
  by_cases new : y = h.top
  · subst new
    simp [PointsTo] at points
  · have old := live_alloc alive new
    have same := agreeAt_alloc old name objclass
    apply separate y old z
    rwa [PointsTo, same.parent, same.next, same.sibling, same.sons] at points

/-! ## Walks -/

theorem onSide_none : OnSide side none := fun _ same => by cases same

theorem onSide_some (inside : side x) : OnSide side (some x) := by
  rintro z ⟨⟩
  exact inside

/-- A chain of live objects that begins on the side stays there. -/
theorem Separate.path (separate : h.Separate side) {field : Addr → Option Addr}
    (isLink : ∀ y z, field y = some z → h.PointsTo y z) {start found : Option Addr}
    {l : List Addr} (path : Path field start l found) (alive : ∀ y ∈ l, h.live y = true)
    (inside : OnSide side start) : (∀ y ∈ l, side y) ∧ OnSide side found := by
  induction l generalizing start with
  | nil =>
      have same : start = found := path
      exact ⟨fun _ member => (List.not_mem_nil member).elim, same ▸ inside⟩
  | cons y rest ih =>
      rcases path with ⟨rfl, tail⟩
      rw [List.forall_mem_cons] at alive
      have sideY := inside y rfl
      rcases ih tail alive.2 fun z link => (separate y alive.1 z (isLink y z link)).mp sideY with
        ⟨members, last⟩
      exact ⟨List.forall_mem_cons.mpr ⟨sideY, members⟩, last⟩

/-- So what a walk finds, and the object before it, are live objects of the side. -/
theorem Separate.follow (separate : h.Separate side) {field : Addr → Option Addr}
    (isLink : ∀ y z, field y = some z → h.PointsTo y z) {stop : Addr → Bool}
    {start before found : Option Addr} (inside : OnSide side start)
    (result : h.follow field stop start = .ok (before, found)) :
    OnSide (fun y => side y ∧ h.live y = true) before ∧
      OnSide (fun y => side y ∧ h.live y = true) found := by
  rcases passes_of_follow result with ⟨l, passes, rfl⟩
  rcases separate.path isLink passes.path passes.live_of_mem inside with ⟨members, last⟩
  constructor
  · intro y atEnd
    have member := List.mem_of_getLast? atEnd
    exact ⟨members y member, passes.live_of_mem y member⟩
  · intro y same
    exact ⟨last y same, passes.live_of_found y same⟩

theorem Separate.sons (separate : h.Separate side) (alive : h.live p = true) (inside : side p) :
    OnSide side (h.sons p) :=
  fun z link => (separate p alive z (.inr (.inr (.inr link)))).mp inside

theorem Separate.getChild (separate : h.Separate side) (inside : side p) {cname : Option Text}
    {found : Option Addr} (result : h.getChild (some p) cname = .ok found) :
    OnSide side found := by
  unfold Heap.getChild at result
  rcases bind_eq_ok_iff.mp result with ⟨q, parentFound, rest⟩
  rcases deref_eq_ok_iff.mp parentFound with ⟨alive, rfl⟩
  have sons := separate.sons alive inside
  cases cname with
  | none =>
      cases rest
      exact sons
  | some cname =>
      rcases bind_eq_ok_iff.mp rest with ⟨⟨_, xobj⟩, walked, stored⟩
      cases stored
      have walk := separate.follow (fun y z link => .inr (.inr (.inl link))) sons walked
      exact fun z same => (walk.2 z same).1

/-! ## The operations -/

section Operations

variable (separate : h.Separate side) (insideP : side p) (inside : side x)
include separate insideP inside

theorem Separate.insertIntoTree (aliveP : h.live p = true)
    (result : h.insertIntoTree p x = .ok h') : Within side h h' := by
  have adopted := separate.setParent inside (onSide_some insideP)
  -- the end of the chain of a name
  have chained : ∀ (h₁ : Heap) (cname : Text) (start found : Option Addr) (y : Addr),
      Within side h h₁ → h₁.getChild (some p) (some cname) = .ok start →
      h₁.follow h₁.next (fun _ => false) start = .ok (some y, found) →
      Within side h (h₁.setNext y (some x)) := by
    intro h₁ cname start found y within named walked
    have starts := within.separate.getChild insideP named
    have walk := within.separate.follow (fun _ _ link => .inr (.inl link)) starts walked
    exact within.trans (within.separate.setNext (walk.1 y rfl).1 (onSide_some inside))
  -- the stores behind the walks
  have settled : ∀ h₁ : Heap, Within side h h₁ → ∀ n, Within side h
      (((h₁.setNext x none).setSibling x none).setChildCount p n) := by
    intro h₁ within n
    have first := within.separate.setNext inside onSide_none
    have second := first.separate.setSibling inside onSide_none
    exact within.trans (first.trans (second.trans (second.separate.setChildCount insideP n)))
  unfold Heap.insertIntoTree at result
  simp only [setParent_sons] at result
  cases sons_eq : h.sons p with
  | none =>
      rw [sons_eq] at result
      cases result
      exact settled _ (adopted.trans (adopted.separate.setSons insideP (onSide_some inside))) _
  | some son =>
      rw [sons_eq] at result
      rcases bind_eq_ok_iff.mp result with ⟨⟨lastSon, _⟩, siblings, afterSiblings⟩
      rcases bind_eq_ok_iff.mp afterSiblings with ⟨start, named, afterLookup⟩
      rcases bind_eq_ok_iff.mp afterLookup with ⟨⟨last, _⟩, nexts, stored⟩
      have sons : OnSide side (some son) := sons_eq ▸ separate.sons aliveP insideP
      have walk := (adopted.separate.follow (fun _ _ link => .inr (.inr (.inl link))) sons
        siblings).1
      cases lastSon with
      | none =>
          cases last with
          | none =>
              cases stored
              exact settled _ adopted _
          | some y =>
              cases stored
              exact settled _ (chained _ _ _ _ y adopted named nexts) _
      | some z =>
          have linked := adopted.trans
            (adopted.separate.setSibling (walk z rfl).1 (onSide_some inside))
          cases last with
          | none =>
              cases stored
              exact settled _ linked _
          | some y =>
              cases stored
              exact settled _ (chained _ _ _ _ y linked named nexts) _

theorem Separate.unlinkNext (result : h.unlinkNext p x = .ok h') : Within side h h' := by
  unfold Heap.unlinkNext at result
  rcases bind_eq_ok_iff.mp result with ⟨start, named, afterLookup⟩
  rcases bind_eq_ok_iff.mp afterLookup with ⟨⟨before, found⟩, walked, stored⟩
  have starts := separate.getChild insideP named
  have walk := separate.follow (fun _ _ link => .inr (.inl link)) starts walked
  have cleared : ∀ h₁, Within side h h₁ → Within side h (h₁.setNext x none) := fun h₁ within =>
    within.trans (within.separate.setNext inside onSide_none)
  cases before <;> cases found <;> cases stored
  case some.some y z =>
    rcases walk.2 z rfl with ⟨sideZ, aliveZ⟩
    exact cleared _ (separate.setNext (walk.1 y rfl).1 fun w link =>
      (separate z aliveZ w (.inr (.inl link))).mp sideZ)
  all_goals exact cleared h (.refl separate)

theorem Separate.removeSibling (aliveP : h.live p = true)
    (result : h.removeSibling p x = .ok h') : Within side h h' := by
  unfold Heap.removeSibling at result
  rcases bind_eq_ok_iff.mp result with ⟨⟨before, found⟩, walked, stored⟩
  have walk := separate.follow (fun _ _ link => .inr (.inr (.inl link)))
    (separate.sons aliveP insideP) walked
  have cleared : ∀ h₁, Within side h h₁ → Within side h (h₁.setSibling x none) :=
    fun h₁ within => within.trans (within.separate.setSibling inside onSide_none)
  cases before <;> cases found <;> cases stored
  case some.some y z =>
    rcases walk.2 z rfl with ⟨sideZ, aliveZ⟩
    exact cleared _ (separate.setSibling (walk.1 y rfl).1 fun w link =>
      (separate z aliveZ w (.inr (.inr (.inl link)))).mp sideZ)
  all_goals exact cleared h (.refl separate)

theorem Separate.unlinkSibling (aliveP : h.live p = true)
    (result : h.unlinkSibling p x = .ok h') : Within side h h' := by
  unfold Heap.unlinkSibling at result
  rcases bind_eq_ok_iff.mp result with ⟨⟨before, found⟩, walked, stored⟩
  have walk := separate.follow (fun _ _ link => .inr (.inr (.inl link)))
    (separate.sons aliveP insideP) walked
  have cleared : ∀ h₁, Within side h h₁ → Within side h (h₁.setSibling x none) :=
    fun h₁ within => within.trans (within.separate.setSibling inside onSide_none)
  have behind : ∀ z, found = some z → OnSide side (h.sibling z) := by
    intro z same w link
    rcases walk.2 z same with ⟨sideZ, aliveZ⟩
    exact (separate z aliveZ w (.inr (.inr (.inl link)))).mp sideZ
  cases before <;> cases found <;> cases stored
  case none.some z => exact cleared _ (separate.setSons insideP (behind z rfl))
  case some.some y z => exact cleared _ (separate.setSibling (walk.1 y rfl).1 (behind z rfl))
  all_goals exact cleared h (.refl separate)

theorem Separate.removeFromTreenode (aliveP : h.live p = true)
    (result : h.removeFromTreenode p x = .ok h') : Within side h h' := by
  have orphaned := separate.setParent inside onSide_none
  unfold Heap.removeFromTreenode at result
  simp only [setParent_sons] at result
  cases sons_eq : h.sons p with
  | none =>
      rw [sons_eq] at result
      cases result
      exact orphaned.trans (orphaned.separate.setChildCount insideP _)
  | some son =>
      rw [sons_eq] at result
      rcases bind_eq_ok_iff.mp result with ⟨h₁, unchained, afterNext⟩
      rcases bind_eq_ok_iff.mp afterNext with ⟨h₂, unlisted, stored⟩
      have first := orphaned.separate.unlinkNext insideP inside unchained
      have aliveP₁ : h₁.live p = true := by
        rw [(sameObjects_of_unlinkNext unchained).live]
        exact aliveP
      have second := first.separate.removeSibling insideP inside aliveP₁ unlisted
      cases stored
      exact orphaned.trans (first.trans (second.trans (second.separate.setChildCount insideP _)))

theorem Separate.appendChildNoCb (result : h.appendChildNoCb p x = .ok h') :
    Within side h h' := by
  unfold Heap.appendChildNoCb at result
  rcases bind_eq_ok_iff.mp result with ⟨q, foundP, afterParent⟩
  rcases deref_eq_ok_iff.mp foundP with ⟨aliveP, rfl⟩
  rcases bind_eq_ok_iff.mp afterParent with ⟨y, foundC, afterChild⟩
  rcases deref_eq_ok_iff.mp foundC with ⟨-, rfl⟩
  rcases bind_eq_ok_iff.mp afterChild with ⟨h₁, inserted, stored⟩
  have first := separate.insertIntoTree insideP inside aliveP inserted
  have second := first.separate.setRefcount insideP (h₁.refcount q + 1)
  have third := second.separate.setRefcount inside
    ((h₁.setRefcount q (h₁.refcount q + 1)).refcount y + 1)
  cases stored
  exact first.trans (second.trans (third.trans (third.separate.setBus inside _)))

end Operations

section Releases

variable (separate : h.Separate side)
include separate

theorem Separate.destroyNoCb (inside : side x) (result : h.destroyNoCb x = .ok h') :
    Within side h h' := by
  unfold Heap.destroyNoCb at result
  rcases bind_eq_ok_iff.mp result with ⟨y, found, afterFirst⟩
  rcases deref_eq_ok_iff.mp found with ⟨alive, rfl⟩
  cases parent_eq : h.parent y with
  | none =>
      rw [parent_eq] at afterFirst
      cases afterFirst
      exact separate.free inside
  | some p =>
      rw [parent_eq] at afterFirst
      have insideP : side p := (separate y alive p (.inl parent_eq)).mp inside
      rcases bind_eq_ok_iff.mp afterFirst with ⟨q, foundP, afterParent⟩
      rcases deref_eq_ok_iff.mp foundP with ⟨aliveP, rfl⟩
      rcases bind_eq_ok_iff.mp afterParent with ⟨h₁, unlisted, afterSibling⟩
      rcases bind_eq_ok_iff.mp afterSibling with ⟨h₂, unchained, stored⟩
      have first := separate.unlinkSibling insideP inside aliveP unlisted
      have second := first.separate.unlinkNext insideP inside unchained
      have third := second.separate.setParent inside onSide_none
      have fourth := third.separate.setChildCount insideP (h₂.childCount q - 1)
      cases stored
      exact first.trans (second.trans (third.trans (fourth.trans (fourth.separate.free inside))))

theorem Separate.refPut {o : Option Addr} (inside : OnSide side o)
    (result : h.refPut o = .ok h') : Within side h h' := by
  cases o with
  | none =>
      cases result
      exact .refl separate
  | some x =>
      have insideX := inside x rfl
      unfold Heap.refPut at result
      rcases bind_eq_ok_iff.mp result with ⟨y, found, counted⟩
      rcases deref_eq_ok_iff.mp found with ⟨-, rfl⟩
      have first := separate.setRefcount insideX (h.refcount y - 1)
      dsimp only at counted
      split at counted
      · exact first.trans (first.separate.destroyNoCb insideX counted)
      · cases counted
        exact first

/-- The message of a notification comes and goes. -/
theorem Separate.agree (agree : Agree h h') (top : h.top ≤ h'.top) : Within side h h' := by
  refine ⟨top, fun y alive z points => ?_, fun y alive _ => agree.at alive⟩
  rw [agree.live] at alive
  apply separate y alive z
  rwa [PointsTo, agree.parent y alive, agree.next y alive, agree.sibling y alive,
    agree.sons y alive] at points

theorem Separate.notify (result : h.notify = .ok h') : Within side h h' := by
  rcases notify_eq_ok h with ⟨h₁, notified, agree, top_eq⟩
  rw [result] at notified
  cases notified
  exact separate.agree agree (top_eq ▸ Nat.le_succ h.top)

theorem Separate.appendChild (insideP : side p) (inside : side x)
    (result : h.appendChild p x = .ok h') : Within side h h' := by
  unfold Heap.appendChild at result
  rcases bind_eq_ok_iff.mp result with ⟨h₁, appended, afterAppend⟩
  rcases bind_eq_ok_iff.mp afterAppend with ⟨_, -, notified⟩
  have first := separate.appendChildNoCb insideP inside appended
  exact first.trans (first.separate.notify notified)

theorem Separate.removeFromParent (inside : side x) (result : h.removeFromParent x = .ok h') :
    Within side h h' := by
  unfold Heap.removeFromParent at result
  rcases bind_eq_ok_iff.mp result with ⟨y, found, afterFirst⟩
  rcases deref_eq_ok_iff.mp found with ⟨alive, rfl⟩
  cases parent_eq : h.parent y with
  | none =>
      rw [parent_eq] at afterFirst
      rcases bind_eq_ok_iff.mp afterFirst with ⟨_, ⟨⟩, afterNothing⟩
      rcases bind_eq_ok_iff.mp afterNothing with ⟨h₁, put, ⟨⟩⟩
      exact separate.refPut (onSide_some inside) put
  | some p =>
      rw [parent_eq] at afterFirst
      have insideP : side p := (separate y alive p (.inl parent_eq)).mp inside
      rcases bind_eq_ok_iff.mp afterFirst with ⟨q, foundP, afterParent⟩
      rcases deref_eq_ok_iff.mp foundP with ⟨aliveP, rfl⟩
      rcases bind_eq_ok_iff.mp afterParent with ⟨_, -, afterIndex⟩
      rcases bind_eq_ok_iff.mp afterIndex with ⟨h₁, removed, afterRemoval⟩
      rcases bind_eq_ok_iff.mp afterRemoval with ⟨h₂, notified, afterNotice⟩
      rcases bind_eq_ok_iff.mp afterNotice with ⟨h₃, put, putParent⟩
      have first := separate.removeFromTreenode insideP inside aliveP removed
      have second := first.separate.notify notified
      have third := second.separate.refPut (onSide_some inside) put
      have fourth := third.separate.refPut (onSide_some insideP) putParent
      exact first.trans (second.trans (third.trans fourth))

end Releases

/-! ## Runs -/

/-- What a program can do to the objects of a tree. -/
inductive Change where
  | create (name : Text) (objclass : Option Nat)
  | call (op : Op)
  | refGet (x : Addr)
  | refPut (x : Addr)
  | setName (x : Addr) (name : Text)
  | setAttr (x : Addr) (key : Text) (val : Option Text)
  | setContent (x : Addr) (s : XString)

/-- The objects that a call is given. -/
def Op.objects : Op → List Addr
  | .appendChild parent child => [parent, child]
  | .appendChildNoCb parent child => [parent, child]
  | .removeFromParent xobj => [xobj]
  | .destroyNoCb xobj => [xobj]

/-- The objects that a change is about. -/
def Change.objects : Change → List Addr
  | .create _ _ => []
  | .call op => op.objects
  | .refGet x => [x]
  | .refPut x => [x]
  | .setName x _ => [x]
  | .setAttr x _ _ => [x]
  | .setContent x _ => [x]

/-- Make a change. -/
def change (h : Heap) : Change → Except Fault Heap
  | .create name objclass => do
      let (h, _) ← h.newObject name objclass
      .ok h
  | .call op => h.exec op
  | .refGet x => do
      let x ← h.deref (some x)
      .ok (h.setRefcount x (h.refcount x + 1))
  | .refPut x => h.refPut (some x)
  | .setName x name => do
      let x ← h.deref (some x)
      h.setName x name
  | .setAttr x key val => do
      let x ← h.deref (some x)
      .ok (h.setAttrs x (Xwbot.setattr key val (h.attrs x)))
  | .setContent x s => do
      let x ← h.deref (some x)
      .ok (h.setContent x s)

/-- Changes one after the other. -/
def changeAll (h : Heap) : List Change → Except Fault Heap
  | [] => .ok h
  | step :: rest => h.change step >>= fun h' => h'.changeAll rest

/-- **A call stays on the side of its objects.** -/
theorem Separate.exec {op : Op} (separate : h.Separate side) (inside : ∀ x ∈ op.objects, side x)
    (result : h.exec op = .ok h') : Within side h h' := by
  cases op with
  | appendChild p x =>
      exact separate.appendChild (inside p (by simp [Op.objects])) (inside x (by simp [Op.objects]))
        result
  | appendChildNoCb p x =>
      exact separate.appendChildNoCb (inside p (by simp [Op.objects]))
        (inside x (by simp [Op.objects])) result
  | removeFromParent x => exact separate.removeFromParent (inside x (by simp [Op.objects])) result
  | destroyNoCb x => exact separate.destroyNoCb (inside x (by simp [Op.objects])) result

/-- A change stays on the side of its objects. -/
theorem Separate.change {step : Change} (separate : h.Separate side)
    (inside : ∀ x ∈ step.objects, side x) (result : h.change step = .ok h') :
    Within side h h' := by
  cases step with
  | create name objclass =>
      rcases bind_eq_ok_iff.mp result with ⟨made, new, ⟨⟩⟩
      rcases newObject_eq_ok_iff.mp new with ⟨-, rfl⟩
      exact separate.alloc _ objclass
  | call op => exact separate.exec inside result
  | refPut x => exact separate.refPut (onSide_some (inside x (by simp [Change.objects]))) result
  | refGet x =>
      rcases bind_eq_ok_iff.mp result with ⟨y, found, ⟨⟩⟩
      rcases deref_eq_ok_iff.mp found with ⟨-, rfl⟩
      exact separate.setRefcount (inside y (by simp [Change.objects])) _
  | setName x name =>
      rcases bind_eq_ok_iff.mp result with ⟨y, found, stored⟩
      rcases deref_eq_ok_iff.mp found with ⟨-, rfl⟩
      rcases setName_eq_ok_iff.mp stored with ⟨-, rfl⟩
      exact separate.putName (inside y (by simp [Change.objects])) _
  | setAttr x key val =>
      rcases bind_eq_ok_iff.mp result with ⟨y, found, ⟨⟩⟩
      rcases deref_eq_ok_iff.mp found with ⟨-, rfl⟩
      exact separate.setAttrs (inside y (by simp [Change.objects])) _
  | setContent x s =>
      rcases bind_eq_ok_iff.mp result with ⟨y, found, ⟨⟩⟩
      rcases deref_eq_ok_iff.mp found with ⟨-, rfl⟩
      exact separate.setContent (inside y (by simp [Change.objects])) _

/-- **Changes on one side leave the other side alone.** -/
theorem Separate.changeAll {steps : List Change} (separate : h.Separate side)
    (inside : ∀ step ∈ steps, ∀ x ∈ step.objects, side x) (result : h.changeAll steps = .ok h') :
    Within side h h' := by
  induction steps generalizing h with
  | nil =>
      cases result
      exact .refl separate
  | cons step rest ih =>
      rcases bind_eq_ok_iff.mp result with ⟨h₁, first, after⟩
      rw [List.forall_mem_cons] at inside
      have within := separate.change inside.1 first
      exact within.trans (ih within.separate inside.2 after)

end Xwbot.Heap
