import Xwbot.Object.Linked
import Xwbot.Object.Listeners

/-!
# Reference accounting

The count of an object should be the number of references that the program holds, one for
the link to its parent, one for each of its sons and one for each listener list it is in.
The balance below has one further entry, so that it can be drawn up between the steps of a
call: references that are not accounted for otherwise.
-/

namespace Xwbot

open Links Runs

/-! ## Counting -/

/-- How many of the numbers below `n` have a property. -/
def tally (n : Nat) (P : Nat → Prop) [DecidablePred P] : Nat :=
  ((Finset.range n).filter P).card

section Tally

variable {n a : Nat} {P Q : Nat → Prop} [DecidablePred P] [DecidablePred Q]

theorem tally_congr (same : ∀ x < n, P x ↔ Q x) : tally n P = tally n Q := by
  unfold tally
  congr 1
  ext x
  simp only [Finset.mem_filter, Finset.mem_range]
  exact and_congr_right fun inside => same x inside

/-- One more number has the property. -/
theorem tally_succ (inside : a < n) (before : ¬P a) (after : Q a)
    (same : ∀ x, x ≠ a → (Q x ↔ P x)) : tally n Q = tally n P + 1 := by
  have split : (Finset.range n).filter Q = insert a ((Finset.range n).filter P) := by
    ext x
    simp only [Finset.mem_filter, Finset.mem_range, Finset.mem_insert]
    by_cases here : x = a
    · subst here
      simp [inside, after]
    · simp [here, same x here]
  unfold tally
  rw [split, Finset.card_insert_of_notMem (by simp [before])]

/-- The range grows by a number without the property. -/
theorem tally_range_succ (last : ¬P n) : tally (n + 1) P = tally n P := by
  unfold tally
  rw [Finset.range_add_one, Finset.filter_insert, if_neg last]

theorem tally_eq_zero_iff : tally n P = 0 ↔ ∀ x < n, ¬P x := by
  unfold tally
  simp [Finset.filter_eq_empty_iff]

end Tally

/-! ## The entries -/

namespace Objects

/-- One for the link to the parent. -/
def parentCount (w : Objects) (o : Addr) : Nat :=
  if (w.heap.parent o).isSome then 1 else 0

/-- One for each attached son. -/
def sonCount (w : Objects) (o : Addr) : Nat :=
  tally w.heap.top fun c => w.heap.live c = true ∧ w.heap.parent c = some o

/-- One for each listener list. -/
def listCount (w : Objects) (o : Addr) : Nat :=
  tally w.heap.top fun x => w.heap.live x = true ∧ o ∈ w.listening x

/-- The books are balanced when each count is the sum of its entries, with `extra`
references outside the objects and their lists. -/
structure Balance (w : Objects) (extra : Addr → Nat) : Prop where
  count : ∀ o, w.heap.live o = true →
    w.heap.refcount o = extra o + w.parentCount o + w.sonCount o + w.listCount o
  positive : ∀ o, w.heap.live o = true → 0 < w.heap.refcount o
  spent : ∀ o, o < w.heap.top → w.heap.live o = false → w.heap.refcount o = 0
  extra_live : ∀ o, 0 < extra o → w.heap.live o = true
  parent_live : ∀ c p, w.heap.live c = true → w.heap.parent c = some p → w.heap.live p = true
  listener_live : ∀ x l, w.heap.live x = true → l ∈ w.listening x → w.heap.live l = true
  ordered : ∃ lists, w.Ordered lists

namespace Balance

variable {w w' : Objects} {extra : Addr → Nat} {o p c x l : Addr}

theorem empty : Objects.empty.Balance fun _ => 0 := by
  refine ⟨?_, ?_, ?_, ?_, ?_, ?_, ⟨_, .empty⟩⟩ <;> simp [Objects.empty, Heap.empty]

/-- An object with one reference, and that outside, has no other entries. -/
theorem alone (balance : w.Balance extra) (owned : 0 < extra o)
    (last : w.heap.refcount o ≤ 1) :
    extra o = 1 ∧ w.heap.parent o = none ∧
      (∀ c, w.heap.live c = true → w.heap.parent c ≠ some o) ∧
      ∀ x, w.heap.live x = true → o ∉ w.listening x := by
  have alive := balance.extra_live o owned
  have sum := balance.count o alive
  have parts : extra o = 1 ∧ w.parentCount o = 0 ∧ w.sonCount o = 0 ∧ w.listCount o = 0 := by
    omega
  obtain ⟨once, orphan, sons, lists⟩ := parts
  refine ⟨once, ?_, fun c aliveC mine => ?_, fun x aliveX member => ?_⟩
  · unfold parentCount at orphan
    cases parent : w.heap.parent o with
    | none => rfl
    | some p => simp [parent] at orphan
  · exact tally_eq_zero_iff.mp sons c (w.heap.live_lt c aliveC) ⟨aliveC, mine⟩
  · exact tally_eq_zero_iff.mp lists x (w.heap.live_lt x aliveX) ⟨aliveX, member⟩

/-! ### References outside -/

/-- A reference more, or one of several less. -/
theorem setRefcount (balance : w.Balance extra) (alive : w.heap.live o = true) {n : Nat}
    {k : Int} (positive : 0 < k) (difference : k + extra o = w.heap.refcount o + n) :
    (w.withHeap (w.heap.setRefcount o k)).Balance (Function.update extra o n) := by
  obtain ⟨lists, ordered⟩ := balance.ordered
  have count : ∀ y, w.heap.live y = true → Function.update w.heap.refcount o k y =
      Function.update extra o n y + w.parentCount y + w.sonCount y + w.listCount y := by
    intro y aliveY
    have sum := balance.count y aliveY
    by_cases same : y = o
    · subst same
      rw [Function.update_self, Function.update_self]
      omega
    · rw [Function.update_of_ne same, Function.update_of_ne same]
      exact sum
  refine ⟨count, fun y aliveY => ?_, fun y old dead => ?_, fun y owned => ?_,
    balance.parent_live, balance.listener_live, lists, ordered.withHeap _⟩
  · rw [withHeap_heap, Heap.setRefcount_refcount]
    by_cases same : y = o
    · rw [same, Function.update_self]
      exact positive
    · rw [Function.update_of_ne same]
      exact balance.positive y aliveY
  · have other : y ≠ o := by
      rintro rfl
      rw [withHeap_heap, Heap.setRefcount_live, alive] at dead
      cases dead
    rw [withHeap_heap, Heap.setRefcount_refcount, Function.update_of_ne other]
    exact balance.spent y old dead
  · by_cases same : y = o
    · rw [same]
      exact alive
    · rw [Function.update_of_ne same] at owned
      exact balance.extra_live y owned

/-- **Spec of `x_object_ref_get`.** -/
theorem refGet (balance : w.Balance extra) (alive : w.heap.live o = true) :
    w.refGet o = .ok (w.withHeap (w.heap.setRefcount o (w.heap.refcount o + 1))) ∧
      (w.withHeap (w.heap.setRefcount o (w.heap.refcount o + 1))).Balance
        (Function.update extra o (extra o + 1)) := by
  constructor
  · rw [Objects.refGet, Heap.deref_of_live alive, ok_bind]
  · have positive := balance.positive o alive
    exact balance.setRefcount alive (by omega) (by push_cast; omega)

/-- The references outside when an object has died: those that its list held are left. -/
def afterLast (w : Objects) (extra : Addr → Nat) (o : Addr) : Addr → Nat :=
  fun y => if y = o then 0 else extra y + if y ∈ w.listening o then 1 else 0

/-- An object whose only reference is dropped. -/
theorem free (balance : w.Balance extra) (owned : 0 < extra o)
    (last : w.heap.refcount o ≤ 1) :
    (w.withHeap ((w.heap.setRefcount o (w.heap.refcount o - 1)).free o)).Balance
      (afterLast w extra o) := by
  obtain ⟨lists, ordered⟩ := balance.ordered
  obtain ⟨once, orphan, noSons, noLists⟩ := balance.alone owned last
  have alive := balance.extra_live o owned
  have positive := balance.positive o alive
  have stays : ∀ {y}, Function.update w.heap.live o false y = true → y ≠ o ∧
    w.heap.live y = true := by
    intro y aliveY
    by_cases same : y = o
    · rw [same, Function.update_self] at aliveY
      cases aliveY
    · rw [Function.update_of_ne same] at aliveY
      exact ⟨same, aliveY⟩
  refine ⟨fun y aliveY => ?_, fun y aliveY => ?_, fun y old dead => ?_, fun y owned => ?_,
    fun c p aliveC parent => ?_, fun x l aliveX member => ?_, lists, ordered.withHeap _⟩
  · obtain ⟨other, aliveY⟩ := stays aliveY
    have sum := balance.count y aliveY
    have sons : (w.withHeap ((w.heap.setRefcount o (w.heap.refcount o - 1)).free o)).sonCount y =
        w.sonCount y := by
      refine tally_congr fun c _ => ?_
      simp only [withHeap_heap, Heap.free_live, Heap.free_parent, Heap.setRefcount_live,
        Heap.setRefcount_parent]
      by_cases same : c = o
      · simp [same, orphan]
      · rw [Function.update_of_ne same]
    have listed : (if y ∈ w.listening o then 1 else 0) + (w.withHeap ((w.heap.setRefcount o
        (w.heap.refcount o - 1)).free o)).listCount y = w.listCount y := by
      have same : ∀ x, x ≠ o → ((w.heap.live x = true ∧ y ∈ w.listening x) ↔
          (Function.update w.heap.live o false x = true ∧ y ∈ w.listening x)) := by
        intro x different
        rw [Function.update_of_ne different]
      by_cases member : y ∈ w.listening o
      · rw [if_pos member, Nat.add_comm]
        exact (tally_succ (w.heap.live_lt o alive) (by simp) ⟨alive, member⟩ same).symm
      · rw [if_neg member, Nat.zero_add]
        refine tally_congr fun x _ => ?_
        by_cases here : x = o
        · subst here
          simp [member]
        · exact (same x here).symm
    have parents : (w.withHeap ((w.heap.setRefcount o (w.heap.refcount o - 1)).free o)).parentCount
      y =
        w.parentCount y := rfl
    rw [sons, parents, afterLast, if_neg other]
    simp only [withHeap_heap, Heap.free_refcount, Heap.setRefcount_refcount]
    rw [Function.update_of_ne other, sum]
    push_cast [← listed]
    ring
  · obtain ⟨other, aliveY⟩ := stays aliveY
    simp only [withHeap_heap, Heap.free_refcount, Heap.setRefcount_refcount]
    rw [Function.update_of_ne other]
    exact balance.positive y aliveY
  · simp only [withHeap_heap, Heap.free_refcount, Heap.setRefcount_refcount]
    by_cases same : y = o
    · rw [same, Function.update_self]
      omega
    · simp only [withHeap_heap, Heap.free_live, Heap.setRefcount_live] at dead
      rw [Function.update_of_ne same] at dead ⊢
      exact balance.spent y old dead
  · unfold afterLast at owned
    by_cases same : y = o
    · simp [same] at owned
    · simp only [withHeap_heap, Heap.free_live, Heap.setRefcount_live]
      rw [Function.update_of_ne same]
      rw [if_neg same] at owned
      by_cases member : y ∈ w.listening o
      · exact balance.listener_live o y alive member
      · rw [if_neg member] at owned
        exact balance.extra_live y owned
  · obtain ⟨-, aliveC⟩ := stays aliveC
    simp only [withHeap_heap, Heap.free_live, Heap.setRefcount_live]
    have other : p ≠ o := fun same => noSons c aliveC (same ▸ parent)
    rw [Function.update_of_ne other]
    exact balance.parent_live c p aliveC parent
  · obtain ⟨-, aliveX⟩ := stays aliveX
    simp only [withHeap_heap, Heap.free_live, Heap.setRefcount_live]
    have other : l ≠ o := fun same => noLists x aliveX (same ▸ member)
    rw [Function.update_of_ne other]
    exact balance.listener_live x l aliveX member

/-- The references outside after one of them is dropped. -/
def afterPut (w : Objects) (extra : Addr → Nat) (o : Addr) : Addr → Nat :=
  if w.heap.refcount o ≤ 1 then afterLast w extra o
  else Function.update extra o (extra o - 1)

/-- **Spec of `x_object_ref_put`.** -/
theorem refPut (balance : w.Balance extra) (owned : 0 < extra o) :
    w.refPut o = .ok (w.withHeap (w.heap.release o)) ∧
      (w.withHeap (w.heap.release o)).Balance (afterPut w extra o) := by
  have alive := balance.extra_live o owned
  unfold afterPut Heap.release
  by_cases last : w.heap.refcount o ≤ 1
  · obtain ⟨-, orphan, -⟩ := balance.alone owned last
    rw [if_pos last, if_pos last]
    constructor
    · rw [Objects.refPut, Heap.refPut_of_orphan alive orphan, ok_bind, Heap.release, if_pos last]
    · exact balance.free owned last
  · rw [if_neg last, if_neg last]
    constructor
    · simp only [Objects.refPut, Heap.refPut, Heap.deref_of_live alive, ok_bind,
        Heap.setRefcount_refcount, Function.update_self]
      rw [if_neg (by omega), ok_bind]
    · exact balance.setRefcount alive (by omega) (by omega)

/-- No reference outside is lost but the one dropped. -/
theorem le_afterPut (balance : w.Balance extra) (owned : 0 < extra o) (y : Addr) :
    Function.update extra o (extra o - 1) y ≤ afterPut w extra o y := by
  unfold afterPut
  split
  · next last =>
      obtain ⟨once, -⟩ := balance.alone owned last
      unfold afterLast
      by_cases same : y = o
      · simp [same, once]
      · rw [Function.update_of_ne same, if_neg same]
        exact Nat.le_add_right _ _
  · exact le_refl _

/-- An object that dies with an empty list leaves none. -/
theorem afterPut_eq (balance : w.Balance extra) (owned : 0 < extra o)
    (quiet : w.heap.refcount o ≤ 1 → w.listening o = []) :
    afterPut w extra o = Function.update extra o (extra o - 1) := by
  unfold afterPut
  split
  · next last =>
      obtain ⟨once, -⟩ := balance.alone owned last
      funext y
      unfold afterLast
      rw [quiet last]
      by_cases same : y = o
      · simp [same, once]
      · simp [same]
  · rfl

/-! ### Objects and listeners -/

/-- A new object. -/
theorem alloc (balance : w.Balance extra) (name : Text) :
    (w.alloc name).1.Balance (Function.update extra w.heap.top 1) := by
  obtain ⟨lists, ordered⟩ := balance.ordered
  have fresh : ∀ {y}, w.heap.live y = true → y ≠ w.heap.top := fun alive => Heap.ne_top alive
  have outside : extra w.heap.top = 0 := by
    by_contra owned
    exact fresh (balance.extra_live _ (Nat.pos_of_ne_zero owned)) rfl
  have listening : ∀ x, (w.alloc name).1.listening x =
      if x = w.heap.top then [] else w.listening x := by
    intro x
    rw [(ordered.alloc name).listening_eq, ordered.listening_eq]
    by_cases new : x = w.heap.top
    · simp [new]
    · rw [Function.update_of_ne new, if_neg new]
      rfl
  have live : ∀ {y}, (w.alloc name).1.heap.live y = true → y ≠ w.heap.top → w.heap.live y = true :=
    fun alive => Heap.live_alloc alive
  have sons : ∀ y, (w.alloc name).1.sonCount y = w.sonCount y := by
    intro y
    have old : ∀ c < w.heap.top, ((w.alloc name).1.heap.live c = true ∧
        (w.alloc name).1.heap.parent c = some y) ↔
          (w.heap.live c = true ∧ w.heap.parent c = some y) := by
      intro c below
      simp [Objects.alloc, Heap.alloc, below.ne]
    refine (tally_range_succ ?_).trans (tally_congr old)
    simp [Objects.alloc]
  have lists_eq : ∀ y, (w.alloc name).1.listCount y = w.listCount y := by
    intro y
    have old : ∀ x < w.heap.top, ((w.alloc name).1.heap.live x = true ∧
        y ∈ (w.alloc name).1.listening x) ↔ (w.heap.live x = true ∧ y ∈ w.listening x) := by
      intro x below
      rw [listening, if_neg below.ne]
      simp [Objects.alloc, Heap.alloc, below.ne]
    refine (tally_range_succ ?_).trans (tally_congr old)
    rw [listening, if_pos rfl]
    simp
  refine ⟨fun y alive => ?_, fun y alive => ?_, fun y old dead => ?_, fun y owned => ?_,
    fun c p alive parent => ?_, fun x l alive member => ?_, _, ordered.alloc name⟩
  · rw [sons, lists_eq]
    by_cases new : y = w.heap.top
    · have noSons : w.sonCount w.heap.top = 0 := by
        apply tally_eq_zero_iff.mpr
        rintro c - ⟨aliveC, mine⟩
        exact fresh (balance.parent_live c _ aliveC mine) rfl
      have noLists : w.listCount w.heap.top = 0 := by
        apply tally_eq_zero_iff.mpr
        rintro x - ⟨aliveX, member⟩
        exact fresh (balance.listener_live x _ aliveX member) rfl
      subst new
      simp [Objects.alloc, parentCount, noSons, noLists]
    · have sum := balance.count y (live alive new)
      simpa [Objects.alloc, parentCount, new] using sum
  · by_cases new : y = w.heap.top
    · simp [Objects.alloc, new]
    · simpa [Objects.alloc, new] using balance.positive y (live alive new)
  · by_cases new : y = w.heap.top
    · subst new
      simp [Objects.alloc] at dead
    · have before : y < w.heap.top := by
        simp [Objects.alloc] at old
        omega
      simp [Objects.alloc, new] at dead ⊢
      exact balance.spent y before dead
  · by_cases new : y = w.heap.top
    · simp [Objects.alloc, new]
    · rw [Function.update_of_ne new] at owned
      simpa [Objects.alloc, new] using balance.extra_live y owned
  · by_cases new : c = w.heap.top
    · subst new
      simp [Objects.alloc] at parent
    · have parent : w.heap.parent c = some p := by simpa [Objects.alloc, new] using parent
      have aliveP := balance.parent_live c p (live alive new) parent
      simpa [Objects.alloc, fresh aliveP] using aliveP
  · rw [listening] at member
    by_cases new : x = w.heap.top
    · simp [new] at member
    · rw [if_neg new] at member
      have aliveL := balance.listener_live x l (live alive new) member
      simpa [Objects.alloc, fresh aliveL] using aliveL

/-- A change of one listener list: `d` references go from outside to the list. -/
theorem relist (balance : w.Balance extra) (heap : w'.heap = w.heap)
    (aliveX : w.heap.live x = true) (aliveL : w.heap.live l = true)
    (ordered : ∃ lists, w'.Ordered lists)
    (others : ∀ y z, y ≠ x ∨ z ≠ l → (z ∈ w'.listening y ↔ z ∈ w.listening y)) {n : Nat}
    (moved : n + (if l ∈ w'.listening x then 1 else 0) =
      extra l + if l ∈ w.listening x then 1 else 0) :
    w'.Balance (Function.update extra l n) := by
  have lists_eq : ∀ z, z ≠ l → w'.listCount z = w.listCount z := by
    intro z other
    unfold listCount
    rw [heap]
    refine tally_congr fun y _ => ?_
    rw [others y z (.inr other)]
  have same : ∀ y, y ≠ x → ((w.heap.live y = true ∧ l ∈ w'.listening y) ↔
      (w.heap.live y = true ∧ l ∈ w.listening y)) := by
    intro y other
    rw [others y l (.inl other)]
  have below := w.heap.live_lt x aliveX
  have mine : n + w'.listCount l = extra l + w.listCount l := by
    unfold listCount
    rw [heap]
    by_cases after : l ∈ w'.listening x
    · by_cases before : l ∈ w.listening x
      · rw [if_pos after, if_pos before] at moved
        have lists_same : tally w.heap.top (fun y => w.heap.live y = true ∧ l ∈ w'.listening y) =
            tally w.heap.top fun y => w.heap.live y = true ∧ l ∈ w.listening y := by
          refine tally_congr fun y _ => ?_
          by_cases here : y = x
          · simp [here, after, before]
          · exact same y here
        omega
      · rw [if_pos after, if_neg before] at moved
        have grown := tally_succ (P := fun y => w.heap.live y = true ∧ l ∈ w.listening y)
          (Q := fun y => w.heap.live y = true ∧ l ∈ w'.listening y) below
          (fun both => before both.2) ⟨aliveX, after⟩ same
        omega
    · by_cases before : l ∈ w.listening x
      · rw [if_neg after, if_pos before] at moved
        have shrunk := tally_succ (P := fun y => w.heap.live y = true ∧ l ∈ w'.listening y)
          (Q := fun y => w.heap.live y = true ∧ l ∈ w.listening y) below
          (fun both => after both.2) ⟨aliveX, before⟩ fun y other => (same y other).symm
        omega
      · rw [if_neg after, if_neg before] at moved
        have lists_same : tally w.heap.top (fun y => w.heap.live y = true ∧ l ∈ w'.listening y) =
            tally w.heap.top fun y => w.heap.live y = true ∧ l ∈ w.listening y := by
          refine tally_congr fun y _ => ?_
          by_cases here : y = x
          · simp [here, after, before]
          · exact same y here
        omega
  refine ⟨fun y alive => ?_, ?_, ?_, fun y owned => ?_, ?_, fun y z alive member => ?_, ordered⟩
  · rw [heap] at alive ⊢
    have sum := balance.count y alive
    have parents : w'.parentCount y = w.parentCount y := by rw [parentCount, heap, parentCount]
    have sons : w'.sonCount y = w.sonCount y := by simp only [sonCount, heap]
    rw [parents, sons]
    by_cases here : y = l
    · subst here
      rw [Function.update_self]
      omega
    · rw [Function.update_of_ne here, lists_eq y here]
      exact sum
  · rw [heap]
    exact balance.positive
  · rw [heap]
    exact balance.spent
  · rw [heap]
    by_cases here : y = l
    · rw [here]
      exact aliveL
    · rw [Function.update_of_ne here] at owned
      exact balance.extra_live y owned
  · rw [heap]
    exact balance.parent_live
  · rw [heap] at alive ⊢
    by_cases here : z = l
    · rw [here]
      exact aliveL
    · rw [others y z (.inr here)] at member
      exact balance.listener_live y z alive member

theorem listening_pushCell (balance : w.Balance extra) (absent : l ∉ w.listening x) (y : Addr) :
    (w.pushCell x l).listening y = if y = x then l :: w.listening x else w.listening y := by
  obtain ⟨lists, ordered⟩ := balance.ordered
  have keys : ∀ z, (lists z).map (Function.update w.key w.cells l) = (lists z).map w.key := by
    intro z
    refine List.map_congr_left fun c member => ?_
    rw [Function.update_of_ne (ordered.ne_cells member)]
  rw [(ordered.pushCell absent).listening_eq, ordered.listening_eq, ordered.listening_eq,
    pushCell_key]
  by_cases here : y = x
  · subst here
    rw [Function.update_self, if_pos rfl, List.map_cons, Function.update_self, keys]
  · rw [Function.update_of_ne here, if_neg here, keys]

/-- A reference from outside goes to a new cell. -/
theorem pushCell (balance : w.Balance extra) (aliveX : w.heap.live x = true)
    (absent : l ∉ w.listening x) (owned : 0 < extra l) :
    (w.pushCell x l).Balance (Function.update extra l (extra l - 1)) := by
  obtain ⟨lists, ordered⟩ := balance.ordered
  have heap : (w.pushCell x l).heap = w.heap := rfl
  refine balance.relist heap aliveX (balance.extra_live l owned) ⟨_, ordered.pushCell absent⟩ ?_ ?_
  · rintro y z (other | other)
    · rw [balance.listening_pushCell absent, if_neg other]
    · rw [balance.listening_pushCell absent]
      split
      · next here =>
          subst here
          simp [other]
      · rfl
  · rw [balance.listening_pushCell absent, if_pos rfl, if_pos (by simp), if_neg absent]
    omega

/-- The cell of a listener is found and can be taken out. -/
theorem findCell (balance : w.Balance extra) (x l : Addr) :
    (l ∉ w.listening x ∧ ∃ prev, w.findCell x l = .ok (prev, none)) ∨
      l ∈ w.listening x ∧ ∃ prev p, w.findCell x l = .ok (prev, some p) ∧
        (∃ lists, ((w.unlinkCell x prev p).freeCell p).Ordered lists) ∧
        ∀ y, ((w.unlinkCell x prev p).freeCell p).listening y =
          if y = x then (w.listening x).erase l else w.listening y := by
  obtain ⟨lists, ordered⟩ := balance.ordered
  by_cases member : l ∈ w.listening x
  · right
    obtain ⟨p, inside, same⟩ := List.mem_map.mp (ordered.listening_eq x ▸ member)
    obtain ⟨before, behind, split⟩ := List.append_of_mem inside
    have dropped := ordered.dropCell split
    refine ⟨member, before.getLast?, p, ordered.findCell_eq_some split same, ⟨_, dropped⟩, ?_⟩
    intro y
    rw [dropped.listening_eq, ordered.listening_eq, ordered.listening_eq]
    by_cases here : y = x
    · subst here
      have keys := ordered.keys y
      rw [split, List.map_append, List.map_cons, same, List.nodup_append] at keys
      have notBefore : l ∉ before.map w.key := fun earlier => keys.2.2 l earlier l (by simp) rfl
      rw [Function.update_self, if_pos rfl, split, List.map_append, List.map_append, List.map_cons,
        same, List.erase_append_right _ notBefore, List.erase_cons_head]
      rfl
    · rw [Function.update_of_ne here, if_neg here]
      rfl
  · exact .inl ⟨member, ordered.findCell_eq_none member⟩

/-- The reference of a cell that is taken out is outside. -/
theorem takeCell (balance : w.Balance extra) (aliveX : w.heap.live x = true)
    (member : l ∈ w.listening x) (heap : w'.heap = w.heap)
    (ordered : ∃ lists, w'.Ordered lists)
    (listening : ∀ y, w'.listening y = if y = x then (w.listening x).erase l else w.listening y) :
    w'.Balance (Function.update extra l (extra l + 1)) := by
  have nodup : (w.listening x).Nodup := by
    obtain ⟨lists, ordered⟩ := balance.ordered
    rw [ordered.listening_eq]
    exact ordered.keys x
  apply balance.relist heap aliveX (balance.listener_live x l aliveX member) ordered
  · rintro y z (other | other)
    · rw [listening, if_neg other]
    · rw [listening]
      split
      · next here =>
          subst here
          rw [List.mem_erase_of_ne other]
      · rfl
  · rw [listening, if_pos rfl, if_neg (List.Nodup.not_mem_erase nodup), if_pos member]

/-- A reference that is not the last. -/
theorem refPut_of_many (balance : w.Balance extra) (owned : 0 < extra o)
    (many : 1 < w.heap.refcount o) :
    w.refPut o = .ok (w.withHeap (w.heap.setRefcount o (w.heap.refcount o - 1))) ∧
      (w.withHeap (w.heap.setRefcount o (w.heap.refcount o - 1))).Balance
        (Function.update extra o (extra o - 1)) := by
  obtain ⟨result, balance'⟩ := balance.refPut owned
  rw [balance.afterPut_eq owned fun last => absurd last (not_le.mpr many)] at balance'
  rw [Heap.release, if_neg (not_le.mpr many)] at result balance'
  exact ⟨result, balance'⟩

/-! ### Subscriptions -/

/-- **Spec of `x_object_subscribe`.**  The references that it takes for its own use are given
back, and the one for the listener goes to the new cell. -/
theorem subscribe (balance : w.Balance extra) (aliveX : w.heap.live x = true)
    (aliveL : w.heap.live l = true) :
    ∃ h, w.subscribe x l =
        .ok ((if l ∈ w.listening x then w else w.pushCell x l).withHeap h) ∧
      ((if l ∈ w.listening x then w else w.pushCell x l).withHeap h).Balance extra ∧
      h.live = w.heap.live := by
  obtain ⟨getX, balance₁⟩ := balance.refGet aliveX
  obtain ⟨getL, balance₂⟩ := balance₁.refGet (o := l) aliveL
  set w₁ := w.withHeap (w.heap.setRefcount x (w.heap.refcount x + 1)) with w₁_eq
  set w₂ := w₁.withHeap (w₁.heap.setRefcount l (w₁.heap.refcount l + 1)) with w₂_eq
  have manyX : 1 < w₁.heap.refcount x := by
    have positive := balance.positive x aliveX
    simp [w₁_eq]
    omega
  have manyX₂ : 1 < w₂.heap.refcount x := by
    by_cases same : x = l
    · subst same
      simp [w₂_eq]
      omega
    · simpa [w₂_eq, same] using manyX
  have manyL : 1 < w₂.heap.refcount l := by
    have positive := balance₁.positive l aliveL
    simp [w₂_eq]
    omega
  set e₁ := Function.update extra x (extra x + 1) with e₁_eq
  set e₂ := Function.update e₁ l (e₁ l + 1) with e₂_eq
  have ownedX : 0 < Function.update e₂ l (e₂ l - 1) x := by
    by_cases same : x = l
    · subst same
      simp [e₂_eq, e₁_eq]
    · simp [e₂_eq, e₁_eq, same]
  have ownedL : 0 < e₂ l := by simp [e₂_eq]
  have restored : Function.update (Function.update e₂ l (e₂ l - 1)) x
      (Function.update e₂ l (e₂ l - 1) x - 1) = extra := by
    funext y
    by_cases hereX : y = x
    · subst hereX
      by_cases same : y = l
      · subst same
        simp [e₂_eq, e₁_eq]
      · simp [e₂_eq, e₁_eq, same]
    · by_cases hereL : y = l
      · subst hereL
        simp [e₂_eq, e₁_eq, hereX]
      · simp [e₂_eq, e₁_eq, hereX]
  have listening : w₂.listening x = w.listening x := rfl
  unfold Objects.subscribe
  rw [getX, ok_bind, getL, ok_bind]
  rcases balance₂.findCell x l with ⟨absent, prev, found⟩ | ⟨present, prev, p, found, -⟩
  · rw [found, ok_bind]
    have balance₃ := balance₂.pushCell aliveX absent ownedL
    obtain ⟨putX, balance₄⟩ := balance₃.refPut_of_many ownedX manyX₂
    rw [restored] at balance₄
    rw [listening] at absent
    refine ⟨w₂.heap.setRefcount x (w₂.heap.refcount x - 1), ?_, ?_, rfl⟩
    · dsimp only
      rw [ok_bind, putX, if_neg absent]
      rfl
    · rw [if_neg absent]
      exact balance₄
  · rw [found, ok_bind]
    obtain ⟨putL, balance₃⟩ := balance₂.refPut_of_many ownedL manyL
    have manyX₃ : 1 < (w₂.heap.setRefcount l (w₂.heap.refcount l - 1)).refcount x := by
      by_cases same : x = l
      · subst same
        simpa [w₂_eq] using manyX
      · simpa [same] using manyX₂
    obtain ⟨putX, balance₄⟩ := balance₃.refPut_of_many ownedX manyX₃
    rw [restored] at balance₄
    rw [listening] at present
    set h₃ := w₂.heap.setRefcount l (w₂.heap.refcount l - 1)
    refine ⟨h₃.setRefcount x (h₃.refcount x - 1), ?_, ?_, rfl⟩
    · dsimp only
      rw [putL, ok_bind, putX, if_pos present]
      rfl
    · rw [if_pos present]
      exact balance₄

/-- The cell may as well be freed before the reference is dropped. -/
theorem dropCell_eq (w : Objects) (x l : Addr) (prev : Option Cell) (p : Cell) :
    w.dropCell x l prev p = ((w.unlinkCell x prev p).freeCell p).refPut l := by
  simp only [Objects.dropCell, Objects.refPut, freeCell_heap]
  cases (w.unlinkCell x prev p).heap.refPut (some l) <;> rfl

/-- The cells of an object's listeners without one of them. -/
def Without (w w' : Objects) (x l : Addr) : Prop :=
  (l ∉ w.listening x ∧ w' = w) ∨
    l ∈ w.listening x ∧ ∃ prev p, w.findCell x l = .ok (prev, some p) ∧
      w' = (w.unlinkCell x prev p).freeCell p

/-- **Spec of `x_object_unsubscribe`.**  The reference of the cell is dropped; a listener
that this destroys leaves the references of its own list behind. -/
theorem unsubscribe (balance : w.Balance extra) (aliveX : w.heap.live x = true) :
    ∃ w₀ h extra', Without w w₀ x l ∧ w.unsubscribe x l = .ok (w₀.withHeap h) ∧
      (w₀.withHeap h).Balance extra' ∧ (∀ y, extra y ≤ extra' y) ∧
      ((l ∈ w.listening x → w.heap.refcount l ≤ 1 → ∀ y ∈ w.listening l, y = l) →
        extra' = extra) := by
  obtain ⟨getX, balance₁⟩ := balance.refGet aliveX
  set w₁ := w.withHeap (w.heap.setRefcount x (w.heap.refcount x + 1)) with w₁_eq
  set e₁ := Function.update extra x (extra x + 1) with e₁_eq
  have positive := balance.positive x aliveX
  have manyX : 1 < w₁.heap.refcount x := by
    simp [w₁_eq]
    omega
  have ownedX : 0 < e₁ x := by simp [e₁_eq]
  have back : Function.update e₁ x (e₁ x - 1) = extra := by
    funext y
    by_cases here : y = x
    · simp [here, e₁_eq]
    · simp [here, e₁_eq]
  unfold Objects.unsubscribe
  rw [getX, ok_bind]
  rcases balance₁.findCell x l with
    ⟨absent, prev, found⟩ | ⟨present, prev, p, found, ordered, listening⟩
  · obtain ⟨putX, balance₂⟩ := balance₁.refPut_of_many ownedX manyX
    rw [back] at balance₂
    refine ⟨w, w₁.heap.setRefcount x (w₁.heap.refcount x - 1), extra, .inl ⟨absent, rfl⟩, ?_, ?_,
      fun _ => le_refl _, fun _ => rfl⟩
    · rw [found, ok_bind]
      exact putX
    · exact balance₂
  · set w₂ := (w₁.unlinkCell x prev p).freeCell p with w₂_eq
    have heap : w₂.heap = w₁.heap := rfl
    have balance₂ := balance₁.takeCell aliveX present heap ordered listening
    set e₂ := Function.update e₁ l (e₁ l + 1) with e₂_eq
    have ownedL : 0 < e₂ l := by simp [e₂_eq]
    have backL : Function.update e₂ l (e₂ l - 1) = e₁ := by
      funext y
      by_cases here : y = l
      · simp [here, e₂_eq]
      · simp [here, e₂_eq]
    obtain ⟨putL, balance₃⟩ := balance₂.refPut ownedL
    have more := balance₂.le_afterPut ownedL
    rw [backL] at more
    set e₃ := afterPut w₂ e₂ l with e₃_eq
    set w₃ := w₂.withHeap (w₂.heap.release l) with w₃_eq
    have ownedX₃ : 0 < e₃ x := ownedX.trans_le (more x)
    obtain ⟨putX, balance₄⟩ := balance₃.refPut ownedX₃
    refine ⟨(w.unlinkCell x prev p).freeCell p, w₃.heap.release x, afterPut w₃ e₃ x,
      .inr ⟨present, prev, p, found, rfl⟩, ?_, balance₄, fun y => ?_, fun quiet => ?_⟩
    · rw [found, ok_bind]
      dsimp only
      rw [dropCell_eq, putL, ok_bind]
      exact putX
    · refine le_trans ?_ (balance₃.le_afterPut ownedX₃ y)
      by_cases here : y = x
      · subst here
        rw [Function.update_self]
        have := more y
        simp only [e₁_eq, Function.update_self] at this
        omega
      · rw [Function.update_of_ne here]
        have := more y
        rwa [e₁_eq, Function.update_of_ne here] at this
    · -- neither of the objects that may be destroyed has a listener left
      have counts : l ≠ x → w₂.heap.refcount l = w.heap.refcount l := by
        intro other
        change w₁.heap.refcount l = _
        simp [w₁_eq, other]
      have quietL : w₂.heap.refcount l ≤ 1 → w₂.listening l = [] := by
        intro last
        obtain ⟨-, -, -, unlisted⟩ := balance₂.alone ownedL last
        have aliveL := balance₂.extra_live l ownedL
        have other : l ≠ x := by
          rintro rfl
          change w₁.heap.refcount l ≤ 1 at last
          omega
        have same := listening l
        rw [if_neg other] at same
        rw [counts other] at last
        refine List.eq_nil_iff_forall_not_mem.mpr fun y member => ?_
        rw [same] at member
        have self := quiet present last y member
        subst self
        exact unlisted y aliveL (same ▸ member)
      have e₃_same : e₃ = e₁ := by
        rw [e₃_eq, balance₂.afterPut_eq ownedL quietL, backL]
      have quietX : w₃.heap.refcount x ≤ 1 → w₃.listening x = [] := by
        intro last
        by_cases same : l = x
        · subst same
          have once : w.heap.refcount l ≤ 1 := by
            have released : (w₂.heap.release l).refcount l = w₂.heap.refcount l - 1 := by
              unfold Heap.release
              split <;> simp
            have more : w₂.heap.refcount l = w.heap.refcount l + 1 := by
              change w₁.heap.refcount l = _
              simp [w₁_eq]
            change (w₂.heap.release l).refcount l ≤ 1 at last
            omega
          have own := quiet present once
          have rest := listening l
          rw [if_pos rfl] at rest
          change w₂.listening l = []
          rw [rest]
          obtain ⟨lists, ordered⟩ := balance.ordered
          have nodup : (w.listening l).Nodup := by
            rw [ordered.listening_eq]
            exact ordered.keys l
          refine List.eq_nil_iff_forall_not_mem.mpr fun y member => ?_
          have inside := (List.Nodup.mem_erase_iff nodup).mp member
          exact inside.1 (own y inside.2)
        · have kept : (w₂.heap.release l).refcount x = w₁.heap.refcount x := by
            have other : x ≠ l := fun here => same here.symm
            unfold Heap.release
            split <;> simp [other, w₂_eq]
          change (w₂.heap.release l).refcount x ≤ 1 at last
          omega
      rw [balance₃.afterPut_eq ownedX₃ quietX, e₃_same, back]

/-! ### Links to parents -/

/-- The entries when `c` has become a son of `p`. -/
theorem counts_of_attached {h h' : Heap} (top : h'.top = h.top) (live : h'.live = h.live)
    (orphan : h.parent c = none) (parent : h'.parent = Function.update h.parent c (some p))
    (aliveC : h.live c = true) (y : Addr) :
    (w.withHeap h').sonCount y = (w.withHeap h).sonCount y + (if y = p then 1 else 0) ∧
      (w.withHeap h').parentCount y = (w.withHeap h).parentCount y + if y = c then 1 else 0 := by
  constructor
  · unfold sonCount
    simp only [withHeap_heap, top, live, parent]
    have same : ∀ z, z ≠ c → ((h.live z = true ∧ Function.update h.parent c (some p) z = some y) ↔
        (h.live z = true ∧ h.parent z = some y)) := by
      intro z other
      rw [Function.update_of_ne other]
    by_cases here : y = p
    · subst here
      rw [if_pos rfl]
      exact tally_succ (h.live_lt c aliveC) (by simp [orphan])
        ⟨aliveC, Function.update_self ..⟩ same
    · rw [if_neg here, Nat.add_zero]
      refine tally_congr fun z _ => ?_
      by_cases new : z = c
      · subst new
        simp [orphan, Ne.symm here]
      · exact same z new
  · unfold parentCount
    simp only [withHeap_heap, parent]
    by_cases here : y = c
    · simp [here, orphan]
    · simp [here]

/-- An object gets a parent. -/
theorem attach {h : Heap} (balance : w.Balance extra) (top : h.top = w.heap.top)
    (live : h.live = w.heap.live) (orphan : w.heap.parent c = none)
    (parent : h.parent = Function.update w.heap.parent c (some p))
    (refcount : ∀ y, h.refcount y =
      w.heap.refcount y + (if y = p then 1 else 0) + if y = c then 1 else 0)
    (aliveP : w.heap.live p = true) (aliveC : w.heap.live c = true) :
    (w.withHeap h).Balance extra := by
  obtain ⟨lists, ordered⟩ := balance.ordered
  have counts := counts_of_attached (w := w) top live orphan parent aliveC
  refine ⟨fun y alive => ?_, fun y alive => ?_, fun y old dead => ?_, fun y owned => ?_,
    fun z q alive mine => ?_, fun x l alive member => ?_, lists, ordered.withHeap h⟩
  · obtain ⟨sons, parents⟩ := counts y
    have lists_eq : (w.withHeap h).listCount y = w.listCount y := by
      unfold listCount
      simp only [withHeap_heap, top, live]
      rfl
    rw [withHeap_heap, live] at alive
    have sum := balance.count y alive
    change (w.withHeap h).sonCount y = w.sonCount y + _ at sons
    change (w.withHeap h).parentCount y = w.parentCount y + _ at parents
    rw [withHeap_heap, refcount, sons, parents, lists_eq, sum]
    push_cast
    ring
  · rw [withHeap_heap, live] at alive
    have positive := balance.positive y alive
    rw [withHeap_heap, refcount]
    split <;> split <;> omega
  · rw [withHeap_heap, live] at dead
    rw [withHeap_heap, top] at old
    have notP : y ≠ p := by
      rintro rfl
      rw [aliveP] at dead
      cases dead
    have notC : y ≠ c := by
      rintro rfl
      rw [aliveC] at dead
      cases dead
    rw [withHeap_heap, refcount, if_neg notP, if_neg notC, balance.spent y old dead]
    rfl
  · rw [withHeap_heap, live]
    exact balance.extra_live y owned
  · rw [withHeap_heap, live] at alive ⊢
    rw [withHeap_heap, parent] at mine
    by_cases new : z = c
    · rw [new, Function.update_self] at mine
      cases mine
      exact aliveP
    · rw [Function.update_of_ne new] at mine
      exact balance.parent_live z q alive mine
  · rw [withHeap_heap, live] at alive ⊢
    exact balance.listener_live x l alive member

/-- The references that an object and its parent have held on each other are outside. -/
def afterDetach (extra : Addr → Nat) (p c : Addr) : Addr → Nat :=
  fun y => extra y + (if y = p then 1 else 0) + if y = c then 1 else 0

/-- An object loses its parent. -/
theorem detach {h : Heap} (balance : w.Balance extra) (top : h.top = w.heap.top)
    (live : h.live = w.heap.live) (mine : w.heap.parent c = some p)
    (parent : h.parent = Function.update w.heap.parent c none)
    (refcount : h.refcount = w.heap.refcount) (aliveC : w.heap.live c = true) :
    (w.withHeap h).Balance (afterDetach extra p c) := by
  obtain ⟨lists, ordered⟩ := balance.ordered
  have aliveP := balance.parent_live c p aliveC mine
  have back : w.heap.parent = Function.update h.parent c (some p) := by
    rw [parent, Function.update_idem, ← mine, Function.update_eq_self]
  have orphan : h.parent c = none := by rw [parent, Function.update_self]
  have counts := counts_of_attached (w := w) top.symm live.symm orphan back (by rw [live, aliveC])
  refine ⟨fun y alive => ?_, fun y alive => ?_, fun y old dead => ?_, fun y owned => ?_,
    fun z q alive mine => ?_, fun x l alive member => ?_, lists, ordered.withHeap h⟩
  · obtain ⟨sons, parents⟩ := counts y
    have lists_eq : (w.withHeap h).listCount y = w.listCount y := by
      unfold listCount
      simp only [withHeap_heap, top, live]
      rfl
    rw [withHeap_heap, live] at alive
    have sum := balance.count y alive
    change w.sonCount y = _ at sons
    change w.parentCount y = _ at parents
    rw [withHeap_heap, refcount, sum, lists_eq, sons, parents, afterDetach]
    push_cast
    ring
  · rw [withHeap_heap, live] at alive
    rw [withHeap_heap, refcount]
    exact balance.positive y alive
  · rw [withHeap_heap, live] at dead
    rw [withHeap_heap, top] at old
    rw [withHeap_heap, refcount]
    exact balance.spent y old dead
  · rw [withHeap_heap, live]
    unfold afterDetach at owned
    by_cases atP : y = p
    · rw [atP]
      exact aliveP
    · by_cases atC : y = c
      · rw [atC]
        exact aliveC
      · rw [if_neg atP, if_neg atC] at owned
        exact balance.extra_live y owned
  · rw [withHeap_heap, live] at alive ⊢
    rw [withHeap_heap, parent] at mine
    by_cases same : z = c
    · rw [same, Function.update_self] at mine
      cases mine
    · rw [Function.update_of_ne same] at mine
      exact balance.parent_live z q alive mine
  · rw [withHeap_heap, live] at alive ⊢
    exact balance.listener_live x l alive member

/-! ### The calls on the tree -/

/-- A message that nobody handles changes nothing. -/
theorem eq_of_multicastLoop {turns : Nat} {start : Option Cell}
    {log log' : List (Addr × List ListenerCall)}
    (result : multicastLoop noRx turns w log start = .ok (w', log')) : w' = w := by
  induction turns generalizing log start with
  | zero =>
      cases start with
      | none =>
          cases result
          rfl
      | some p => cases result
  | succ turns ih =>
      cases start with
      | none =>
          cases result
          rfl
      | some p =>
          rw [multicastLoop] at result
          split at result
          · next alive =>
              obtain ⟨listener, -, handled⟩ := bind_eq_ok_iff.mp result
              dsimp only [noRx] at handled
              rw [run_nil, ok_bind, if_pos alive] at handled
              exact ih handled
          · cases result

/-- The objects that were there before a notification are as they were. -/
structure Notified (w w' : Objects) : Prop where
  live : w'.heap.live = w.heap.live
  refcount : ∀ y, y ≠ w.heap.top → w'.heap.refcount y = w.heap.refcount y
  listening : ∀ y, y ≠ w.heap.top → w'.listening y = w.listening y

theorem notify (balance : w.Balance extra) (result : w.notify p = .ok w') :
    w'.Balance extra ∧ Notified w w' := by
  have unused : w.heap.live w.heap.top = false := w.heap.live_top
  have outside : extra w.heap.top = 0 := by
    by_contra owned
    have alive := balance.extra_live _ (Nat.pos_of_ne_zero owned)
    rw [unused] at alive
    cases alive
  have made := balance.alloc (lit "$message")
  have owned : 0 < Function.update extra w.heap.top 1 w.heap.top := by simp
  obtain ⟨put, dropped⟩ := made.refPut owned
  have once : (w.alloc (lit "$message")).1.heap.refcount w.heap.top = 1 := by
    simp [Objects.alloc]
  obtain ⟨lists, ordered⟩ := balance.ordered
  have created := ordered.alloc (lit "$message")
  have silent : (w.alloc (lit "$message")).1.listening w.heap.top = [] := by
    rw [created.listening_eq, Function.update_self, List.map_nil]
  rw [made.afterPut_eq owned fun _ => silent] at dropped
  have restored : Function.update (Function.update extra w.heap.top 1) w.heap.top
      (Function.update extra w.heap.top 1 w.heap.top - 1) = extra := by
    rw [Function.update_self, Function.update_idem, Nat.sub_self, ← outside,
      Function.update_eq_self]
  rw [restored] at dropped
  unfold Objects.notify at result
  dsimp only at result
  obtain ⟨⟨w₁, log⟩, sent, done⟩ := bind_eq_ok_iff.mp result
  have same := eq_of_multicastLoop sent
  subst same
  dsimp only at done
  change (w.alloc (lit "$message")).1.refPut w.heap.top = _ at done
  rw [put] at done
  cases done
  refine ⟨dropped, ?_, fun y other => ?_, fun y other => ?_⟩
  · funext y
    simp only [withHeap_heap, Heap.release, once, if_pos (le_refl (1 : Int)), Heap.free_live,
      Heap.setRefcount_live]
    by_cases here : y = w.heap.top
    · rw [here, Function.update_self, unused]
    · simp [here, Objects.alloc]
  · simp only [withHeap_heap, Heap.release, once, if_pos (le_refl (1 : Int)), Heap.free_refcount,
      Heap.setRefcount_refcount]
    simp [other, Objects.alloc]
  · change (w.alloc (lit "$message")).1.listening y = _
    rw [created.listening_eq, ordered.listening_eq, Function.update_of_ne other]
    rfl

end Balance

end Objects

namespace Heap

variable {h h' : Heap} {p c x : Addr}

/-- The heaps have the same objects with the same parents and counts. -/
structure SameCounts (h h' : Heap) : Prop where
  top : h'.top = h.top
  live : h'.live = h.live
  parent : h'.parent = h.parent
  refcount : h'.refcount = h.refcount

theorem sameCounts_of_unlinkNext (result : h.unlinkNext p x = .ok h') : SameCounts h h' := by
  unfold Heap.unlinkNext at result
  obtain ⟨start, -, walked⟩ := bind_eq_ok_iff.mp result
  obtain ⟨⟨before, found⟩, -, stored⟩ := bind_eq_ok_iff.mp walked
  cases before <;> cases found <;> cases stored <;> exact ⟨rfl, rfl, rfl, rfl⟩

theorem sameCounts_of_removeSibling (result : h.removeSibling p x = .ok h') :
    SameCounts h h' := by
  unfold Heap.removeSibling at result
  obtain ⟨⟨before, found⟩, -, stored⟩ := bind_eq_ok_iff.mp result
  cases before <;> cases found <;> cases stored <;> exact ⟨rfl, rfl, rfl, rfl⟩

theorem sameCounts_of_removeFromTreenode (result : h.removeFromTreenode p x = .ok h') :
    SameCounts (h.setParent x none) h' := by
  unfold Heap.removeFromTreenode at result
  simp only [setParent_sons] at result
  cases sons_eq : h.sons p with
  | none =>
      rw [sons_eq] at result
      cases result
      exact ⟨rfl, rfl, rfl, rfl⟩
  | some son =>
      rw [sons_eq] at result
      obtain ⟨h₁, cut, behindNext⟩ := bind_eq_ok_iff.mp result
      obtain ⟨h₂, removed, stored⟩ := bind_eq_ok_iff.mp behindNext
      have first := sameCounts_of_unlinkNext cut
      have second := sameCounts_of_removeSibling removed
      cases stored
      exact ⟨second.top.trans first.top, second.live.trans first.live,
        second.parent.trans first.parent, second.refcount.trans first.refcount⟩

theorem sameCounts_of_insertIntoTree (result : h.insertIntoTree p c = .ok h') :
    SameCounts (h.setParent c (some p)) h' := by
  unfold Heap.insertIntoTree at result
  simp only [setParent_sons] at result
  cases sons_eq : h.sons p with
  | none =>
      rw [sons_eq] at result
      cases result
      exact ⟨rfl, rfl, rfl, rfl⟩
  | some son =>
      rw [sons_eq] at result
      obtain ⟨⟨lastSon, _⟩, -, behindSiblings⟩ := bind_eq_ok_iff.mp result
      obtain ⟨start, -, behindLookup⟩ := bind_eq_ok_iff.mp behindSiblings
      obtain ⟨⟨last, _⟩, -, stored⟩ := bind_eq_ok_iff.mp behindLookup
      cases lastSon <;> cases last <;> cases stored <;> exact ⟨rfl, rfl, rfl, rfl⟩

/-- The references that an append takes. -/
theorem refcount_of_appendChildNoCb (result : h.appendChildNoCb p c = .ok h') (y : Addr) :
    h'.refcount y = h.refcount y + (if y = p then 1 else 0) + if y = c then 1 else 0 := by
  unfold Heap.appendChildNoCb at result
  obtain ⟨p', found, behindParent⟩ := bind_eq_ok_iff.mp result
  obtain ⟨-, same⟩ := deref_eq_ok_iff.mp found
  subst same
  obtain ⟨c', foundC, behindChild⟩ := bind_eq_ok_iff.mp behindParent
  obtain ⟨-, same⟩ := deref_eq_ok_iff.mp foundC
  subst same
  obtain ⟨h₁, inserted, stored⟩ := bind_eq_ok_iff.mp behindChild
  have placed := sameCounts_of_insertIntoTree inserted
  cases stored
  simp only [setBus_refcount, setRefcount_refcount]
  by_cases atC : y = c'
  · subst atC
    by_cases atP : y = p'
    · subst atP
      simp [placed.refcount]
    · simp [placed.refcount, atP]
  · by_cases atP : y = p'
    · subst atP
      simp [placed.refcount, atC]
    · simp [placed.refcount, atC, atP]

end Heap

namespace Objects

variable {w w' : Objects} {extra : Addr → Nat} {o p c x l : Addr}

/-- **Spec of `x_object_append_child`** for a child without a parent. -/
theorem Balance.appendChild (balance : w.Balance extra) (orphan : w.heap.parent c = none)
    (result : w.appendChild p c = .ok w') : w'.Balance extra := by
  unfold Objects.appendChild at result
  obtain ⟨h, appended, behindAppend⟩ := bind_eq_ok_iff.mp result
  obtain ⟨-, -, notified⟩ := bind_eq_ok_iff.mp behindAppend
  obtain ⟨aliveP, aliveC, placed⟩ := Heap.appended_of_appendChildNoCb appended
  have attached := balance.attach placed.top placed.live orphan placed.parent
    (Heap.refcount_of_appendChildNoCb appended) aliveP aliveC
  exact (attached.notify notified).1

/-- An object with at most so many references has no listener. -/
def Quiet (w : Objects) (o : Addr) (n : Int) : Prop :=
  w.heap.refcount o ≤ n → w.listening o = []

instance (w : Objects) (o : Addr) (n : Int) : Decidable (w.Quiet o n) :=
  inferInstanceAs (Decidable (w.heap.refcount o ≤ n → w.listening o = []))

/-- The object has a parent, and if the call destroys one of the two, that has no listener. -/
def RemoveOk (w : Objects) (x : Addr) : Prop :=
  ∃ p ∈ w.heap.parent x, if p = x then w.Quiet x 2 else w.Quiet x 1 ∧ w.Quiet p 1

instance (w : Objects) (x : Addr) : Decidable (w.RemoveOk x) :=
  inferInstanceAs (Decidable (∃ p ∈ w.heap.parent x, _))

/-- **Spec of `x_object_remove_from_parent`.**  The references that the two objects have
held on each other are given back; one that this destroys leaves the references of its
list behind. -/
theorem Balance.removeFromParent (balance : w.Balance extra) (mine : w.heap.parent x = some p)
    (result : w.removeFromParent x = .ok w') :
    ∃ extra', w'.Balance extra' ∧ (∀ y, extra y ≤ extra' y) ∧ (w.RemoveOk x → extra' = extra) := by
  unfold Objects.removeFromParent at result
  obtain ⟨x', found, rest⟩ := bind_eq_ok_iff.mp result
  obtain ⟨alive, same⟩ := Heap.deref_eq_ok_iff.mp found
  subst same
  rw [mine] at rest
  dsimp only at rest
  obtain ⟨w₂, detached, behindDetach⟩ := bind_eq_ok_iff.mp rest
  obtain ⟨w₃, putX, putP⟩ := bind_eq_ok_iff.mp behindDetach
  unfold Objects.detach at detached
  obtain ⟨p', foundP, behindParent⟩ := bind_eq_ok_iff.mp detached
  obtain ⟨aliveP, same⟩ := Heap.deref_eq_ok_iff.mp foundP
  subst same
  obtain ⟨-, -, behindIndex⟩ := bind_eq_ok_iff.mp behindParent
  obtain ⟨h₁, removed, notified⟩ := bind_eq_ok_iff.mp behindIndex
  have counts := Heap.sameCounts_of_removeFromTreenode removed
  have apart := balance.detach counts.top counts.live mine counts.parent counts.refcount alive
  obtain ⟨balance₂, old⟩ := apart.notify notified
  set e₂ := afterDetach extra p' x' with e₂_eq
  have ownedX : 0 < e₂ x' := by simp [e₂_eq, Balance.afterDetach]
  have ownedP : 0 < Function.update e₂ x' (e₂ x' - 1) p' := by
    by_cases same : p' = x'
    · subst same
      simp [e₂_eq, Balance.afterDetach]
    · simp [e₂_eq, Balance.afterDetach, same]
  have restored : Function.update (Function.update e₂ x' (e₂ x' - 1)) p'
      (Function.update e₂ x' (e₂ x' - 1) p' - 1) = extra := by
    funext y
    by_cases atX : y = x'
    · subst atX
      by_cases same : y = p'
      · subst same
        simp [e₂_eq, Balance.afterDetach]
      · simp [e₂_eq, Balance.afterDetach, same]
    · by_cases atP : y = p'
      · subst atP
        simp [e₂_eq, Balance.afterDetach, atX]
      · simp [e₂_eq, Balance.afterDetach, atX, atP]
  obtain ⟨put, balance₃⟩ := balance₂.refPut ownedX
  rw [put] at putX
  cases putX
  have more := balance₂.le_afterPut ownedX
  set e₃ := afterPut w₂ e₂ x' with e₃_eq
  have ownedP₃ : 0 < e₃ p' := ownedP.trans_le (more p')
  obtain ⟨putLast, balance₄⟩ := balance₃.refPut ownedP₃
  rw [putLast] at putP
  cases putP
  refine ⟨_, balance₄, fun y => ?_, fun ok => ?_⟩
  · refine le_trans ?_ (balance₃.le_afterPut ownedP₃ y)
    rw [← congrFun restored y]
    by_cases here : y = p'
    · subst here
      rw [Function.update_self, Function.update_self]
      exact Nat.sub_le_sub_right (more y) 1
    · rw [Function.update_of_ne here, Function.update_of_ne here]
      exact more y
  · obtain ⟨q, mine', quiet⟩ := ok
    cases (Option.mem_def.mp mine').symm.trans mine
    have other : ∀ y, w.heap.live y = true → y ≠ (w.withHeap h₁).heap.top := by
      intro y aliveY
      rw [withHeap_heap, counts.top]
      exact Heap.ne_top aliveY
    have refcount₂ : ∀ y, w.heap.live y = true → w₂.heap.refcount y = w.heap.refcount y := by
      intro y aliveY
      rw [old.refcount y (other y aliveY), withHeap_heap, counts.refcount]
      rfl
    have listening₂ : ∀ y, w.heap.live y = true → w₂.listening y = w.listening y := by
      intro y aliveY
      rw [old.listening y (other y aliveY)]
      rfl
    have quietX : w₂.heap.refcount x' ≤ 1 → w₂.listening x' = [] := by
      intro last
      rw [refcount₂ x' alive] at last
      rw [listening₂ x' alive]
      split at quiet
      · exact quiet (by omega)
      · exact quiet.1 last
    have count : (w₂.heap.release x').refcount p' =
        w.heap.refcount p' - if p' = x' then 1 else 0 := by
      rw [← refcount₂ p' aliveP]
      unfold Heap.release
      by_cases same : p' = x'
      · subst same
        split <;> simp
      · split <;> simp [same]
    have quietP : (w₂.withHeap (w₂.heap.release x')).heap.refcount p' ≤ 1 →
        (w₂.withHeap (w₂.heap.release x')).listening p' = [] := by
      intro last
      rw [withHeap_heap, count] at last
      change w₂.listening p' = []
      rw [listening₂ p' aliveP]
      split at quiet
      · next same =>
          subst same
          exact quiet (by simp at last; omega)
      · next different => exact quiet.2 (by simp [different] at last; omega)
    rw [balance₃.afterPut_eq ownedP₃ quietP, e₃_eq, balance₂.afterPut_eq ownedX quietX, restored]

/-- If the call destroys the listener, nobody else listens to that. -/
def UnsubscribeOk (w : Objects) (x l : Addr) : Prop :=
  l ∈ w.listening x → w.heap.refcount l ≤ 1 → ∀ y ∈ w.listening l, y = l

instance (w : Objects) (x l : Addr) : Decidable (w.UnsubscribeOk x l) :=
  inferInstanceAs
    (Decidable (l ∈ w.listening x → w.heap.refcount l ≤ 1 → ∀ y ∈ w.listening l, y = l))

end Objects

/-! ## Runs -/

/-- The calls that take and drop references. -/
inductive ObjectCall where
  | create (name : Text)
  | refGet (o : Addr)
  | refPut (o : Addr)
  | appendChild (parent child : Addr)
  | removeFromParent (xobj : Addr)
  | subscribe (xobj listener : Addr)
  | unsubscribe (xobj listener : Addr)
  deriving DecidableEq, Repr

namespace ObjectCall

/-- Make a call. -/
def exec (w : Objects) : ObjectCall → Except Fault Objects
  | create name => do
      let (w, _) ← w.create name
      .ok w
  | refGet o => w.refGet o
  | refPut o => w.refPut o
  | appendChild parent child => w.appendChild parent child
  | removeFromParent xobj => w.removeFromParent xobj
  | subscribe xobj listener => w.subscribe xobj listener
  | unsubscribe xobj listener => w.unsubscribe xobj listener

/-- The references that the callers hold after a call. -/
def held (w : Objects) (held : Addr → Nat) : ObjectCall → Addr → Nat
  | create _ => Function.update held w.heap.top 1
  | refGet o => Function.update held o (held o + 1)
  | refPut o => Function.update held o (held o - 1)
  | _ => held

/-- The objects and the references held after a call. -/
def step (s : Objects × (Addr → Nat)) (call : ObjectCall) :
    Except Fault (Objects × (Addr → Nat)) :=
  (call.exec s.1).map fun w => (w, call.held s.1 s.2)

/-- A caller only puts a reference that it holds. -/
def Owned (s : Objects × (Addr → Nat)) : ObjectCall → Prop
  | refPut o => 0 < s.2 o
  | _ => True

/-- A call appends an object without a parent only and removes one with a parent only, and
an object that it destroys has no listener. -/
def Tidy (s : Objects × (Addr → Nat)) : ObjectCall → Prop
  | refPut o => s.1.Quiet o 1
  | appendChild _ child => s.1.heap.parent child = none
  | removeFromParent xobj => s.1.RemoveOk xobj
  | unsubscribe xobj listener => s.1.UnsubscribeOk xobj listener
  | _ => True

/-- A call appends an object without a parent only and removes one with a parent only. -/
def InTurn (s : Objects × (Addr → Nat)) : ObjectCall → Prop
  | appendChild _ child => s.1.heap.parent child = none
  | removeFromParent xobj => (s.1.heap.parent xobj).isSome
  | _ => True

instance (s : Objects × (Addr → Nat)) (call : ObjectCall) : Decidable (call.InTurn s) :=
  match call with
  | appendChild _ child => inferInstanceAs (Decidable (s.1.heap.parent child = none))
  | removeFromParent xobj => inferInstanceAs (Decidable ((s.1.heap.parent xobj).isSome = true))
  | create _ | refGet _ | refPut _ | subscribe _ _ | unsubscribe _ _ => isTrue trivial

instance (s : Objects × (Addr → Nat)) (call : ObjectCall) : Decidable (call.Owned s) :=
  match call with
  | refPut o => inferInstanceAs (Decidable (0 < s.2 o))
  | create _ | refGet _ | appendChild _ _ | removeFromParent _ | subscribe _ _
  | unsubscribe _ _ => isTrue trivial

instance (s : Objects × (Addr → Nat)) (call : ObjectCall) : Decidable (call.Tidy s) :=
  match call with
  | refPut o => inferInstanceAs (Decidable (s.1.Quiet o 1))
  | appendChild _ child => inferInstanceAs (Decidable (s.1.heap.parent child = none))
  | removeFromParent xobj => inferInstanceAs (Decidable (s.1.RemoveOk xobj))
  | unsubscribe xobj listener => inferInstanceAs (Decidable (s.1.UnsubscribeOk xobj listener))
  | create _ | refGet _ | subscribe _ _ => isTrue trivial

end ObjectCall

/-- No object, and no reference held. -/
def noObjects : Objects × (Addr → Nat) :=
  (.empty, fun _ => 0)

namespace Objects

variable {w w' : Objects} {extra : Addr → Nat} {s s' : Objects × (Addr → Nat)}
  {call : ObjectCall}

/-- What a call that returns makes of the references: those that the callers hold change as
they should, and more are left if it destroys an object with listeners. -/
theorem Balance.exec (balance : w.Balance extra) (owned : call.Owned (w, extra))
    (inTurn : call.InTurn (w, extra)) (result : call.exec w = .ok w') :
    ∃ extra', w'.Balance extra' ∧ (∀ y, call.held w extra y ≤ extra' y) ∧
      (call.Tidy (w, extra) → extra' = call.held w extra) := by
  cases call with
  | create name =>
      rcases bind_eq_ok_iff.mp result with ⟨made, created, ⟨⟩⟩
      rcases create_eq_ok_iff.mp created with ⟨-, rfl⟩
      exact ⟨_, balance.alloc (objectName name), fun _ => le_refl _, fun _ => rfl⟩
  | refGet o =>
      obtain ⟨o', found, -⟩ := bind_eq_ok_iff.mp result
      obtain ⟨alive, -⟩ := Heap.deref_eq_ok_iff.mp found
      obtain ⟨got, balance'⟩ := balance.refGet alive
      cases got.symm.trans result
      exact ⟨_, balance', fun _ => le_refl _, fun _ => rfl⟩
  | refPut o =>
      obtain ⟨put, balance'⟩ := balance.refPut owned
      cases put.symm.trans result
      exact ⟨_, balance', balance.le_afterPut owned, balance.afterPut_eq owned⟩
  | appendChild parent child =>
      exact ⟨extra, balance.appendChild inTurn result, fun _ => le_refl _, fun _ => rfl⟩
  | removeFromParent xobj =>
      obtain ⟨p, mine⟩ := Option.isSome_iff_exists.mp inTurn
      exact balance.removeFromParent mine result
  | subscribe xobj listener =>
      obtain ⟨w₁, gotX, behind⟩ := bind_eq_ok_iff.mp result
      obtain ⟨_, foundX, stored⟩ := bind_eq_ok_iff.mp gotX
      obtain ⟨alive, same⟩ := Heap.deref_eq_ok_iff.mp foundX
      subst same
      cases stored
      obtain ⟨w₂, gotL, -⟩ := bind_eq_ok_iff.mp behind
      obtain ⟨_, foundL, -⟩ := bind_eq_ok_iff.mp gotL
      obtain ⟨aliveL, -⟩ := Heap.deref_eq_ok_iff.mp foundL
      obtain ⟨h, subscribed, balance', -⟩ := balance.subscribe alive aliveL
      cases subscribed.symm.trans result
      exact ⟨extra, balance', fun _ => le_refl _, fun _ => rfl⟩
  | unsubscribe xobj listener =>
      obtain ⟨w₁, got, -⟩ := bind_eq_ok_iff.mp result
      obtain ⟨_, found, -⟩ := bind_eq_ok_iff.mp got
      obtain ⟨alive, -⟩ := Heap.deref_eq_ok_iff.mp found
      obtain ⟨w₀, h, extra', -, unsubscribed, balance', more, equal⟩ :=
        balance.unsubscribe (l := listener) alive
      cases unsubscribed.symm.trans result
      exact ⟨extra', balance', more, equal⟩

theorem inTurn_of_tidy (tidy : call.Tidy s) : call.InTurn s := by
  cases call with
  | appendChild parent child => exact tidy
  | removeFromParent xobj =>
      obtain ⟨p, mine, -⟩ := tidy
      exact Option.isSome_iff_exists.mpr ⟨p, mine⟩
  | _ => trivial

/-- **A call keeps the books balanced.** -/
theorem Balance.step (balance : s.1.Balance s.2) (owned : call.Owned s) (tidy : call.Tidy s)
    (result : call.step s = .ok s') : s'.1.Balance s'.2 := by
  obtain ⟨w', performed, same⟩ := map_eq_ok_iff.mp result
  subst same
  obtain ⟨extra', balance', -, equal⟩ := balance.exec owned (inTurn_of_tidy tidy) performed
  rw [equal tidy] at balance'
  exact balance'

/-- There are at least the references that the callers hold. -/
def Backed (s : Objects × (Addr → Nat)) : Prop :=
  ∃ extra, s.1.Balance extra ∧ ∀ y, s.2 y ≤ extra y

theorem held_mono {held : Addr → Nat} (less : ∀ y, held y ≤ extra y) (y : Addr) :
    call.held w held y ≤ call.held w extra y := by
  cases call with
  | create name =>
      by_cases here : y = w.heap.top
      · simp [ObjectCall.held, here]
      · simpa [ObjectCall.held, here] using less y
  | refGet o =>
      by_cases here : y = o
      · simpa [ObjectCall.held, here] using less o
      · simpa [ObjectCall.held, here] using less y
  | refPut o =>
      by_cases here : y = o
      · simp only [ObjectCall.held, here, Function.update_self]
        exact Nat.sub_le_sub_right (less o) 1
      · simpa [ObjectCall.held, here] using less y
  | _ => exact less y

/-- **No object is destroyed early** in a run whose callers put what they hold only. -/
theorem backed_of_run {calls : List ObjectCall}
    (along : Along ObjectCall.step (fun s call => call.Owned s ∧ call.InTurn s) noObjects calls)
    (result : run ObjectCall.step noObjects calls = .ok s) : Backed s := by
  refine along.invariant (fun s call s' backed fair step => ?_) ⟨_, .empty, fun _ => le_refl _⟩
    result
  obtain ⟨extra, balance, less⟩ := backed
  obtain ⟨w', performed, same⟩ := map_eq_ok_iff.mp step
  subst same
  have owned : call.Owned (s.1, extra) := by
    cases call with
    | refPut o => exact Nat.lt_of_lt_of_le fair.1 (less o)
    | _ => trivial
  have inTurn : call.InTurn (s.1, extra) := by
    cases call with
    | _ => exact fair.2
  obtain ⟨extra', balance', more, -⟩ := balance.exec owned inTurn performed
  exact ⟨extra', balance', fun y => (held_mono less y).trans (more y)⟩

/-- The count of each live object is the number of the references to it, and an object is
destroyed exactly when its count has reached zero. -/
structure Accounted (w : Objects) (held : Addr → Nat) : Prop where
  count : ∀ o, w.heap.live o = true →
    w.heap.refcount o = held o + w.parentCount o + w.sonCount o + w.listCount o
  destroyed : ∀ o, o < w.heap.top → (w.heap.live o = false ↔ w.heap.refcount o = 0)

theorem Balance.accounted {w : Objects} {held : Addr → Nat} (balance : w.Balance held) :
    w.Accounted held := by
  refine ⟨balance.count, fun o old => ?_⟩
  constructor
  · exact balance.spent o old
  · intro none
    by_contra alive
    have positive := balance.positive o (by simpa using alive)
    omega

/-- **Reference accounting.**  In every run whose callers put what they hold only, the books
are balanced as long as objects are appended and removed in turn and have no listener left
when they are destroyed. -/
theorem accounted_of_run {calls : List ObjectCall}
    (along : Along ObjectCall.step (fun s call => call.Owned s ∧ call.Tidy s) noObjects calls)
    (result : run ObjectCall.step noObjects calls = .ok s) : s.1.Accounted s.2 := by
  have keeps : ∀ (s : Objects × (Addr → Nat)) call s', s.1.Balance s.2 →
      call.Owned s ∧ call.Tidy s → ObjectCall.step s call = .ok s' → s'.1.Balance s'.2 :=
    fun s call s' balance fair step => balance.step fair.1 fair.2 step
  have balance := along.invariant keeps .empty result
  exact balance.accounted

/-- A son who also listens to his father, and dies when he has left him. -/
def family : List ObjectCall :=
  [.create (lit "a"), .create (lit "b"), .appendChild 0 1, .subscribe 0 1, .unsubscribe 0 1,
    .removeFromParent 1, .refPut 1]

theorem accounted_of_run_family :
    ∃ s, run ObjectCall.step noObjects family = .ok s ∧ s.1.Accounted s.2 := by
  have along : Along ObjectCall.step (fun s call => call.Owned s ∧ call.Tidy s) noObjects
      family := by
    decide +kernel
  have returns : (run ObjectCall.step noObjects family).map (fun _ => ()) = .ok () := by
    decide +kernel
  obtain ⟨s, result, -⟩ := map_eq_ok_iff.mp returns
  exact ⟨s, result, accounted_of_run along result⟩

/-- The listener of an object that is destroyed keeps the reference that the list held. -/
theorem not_accounted_listener :
    ∃ calls s, Along ObjectCall.step (fun s call => call.Owned s) noObjects calls ∧
      run ObjectCall.step noObjects calls = .ok s ∧ ¬s.1.Accounted s.2 := by
  let calls : List ObjectCall :=
    [.create (lit "a"), .create (lit "b"), .subscribe 0 1, .refPut 0]
  have owned : Along ObjectCall.step (fun s call => call.Owned s) noObjects calls := by
    decide +kernel
  have computed : (run ObjectCall.step noObjects calls).map (fun s =>
      (s.1.heap.live 1, s.1.heap.refcount 1, s.2 1, s.1.parentCount 1, s.1.sonCount 1,
        s.1.listCount 1)) = .ok (true, 2, 1, 0, 0, 0) := by
    decide +kernel
  obtain ⟨s, result, values⟩ := map_eq_ok_iff.mp computed
  simp only [Prod.mk.injEq] at values
  obtain ⟨alive, count, held, parents, sons, lists⟩ := values
  refine ⟨calls, s, owned, result, fun accounted => ?_⟩
  have sum := accounted.count 1 alive
  rw [count, held, parents, sons, lists] at sum
  cases sum

end Objects

end Xwbot
