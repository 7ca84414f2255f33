import Xwbot.Object.Tree
import Xwbot.Runs

/-!
# Objects that listen to objects

`x_object_subscribe` puts a cell with the listener in front of a list that begins in the
object, and the list holds a reference to the listener.  The functions below are those of
`x_obj.c` on objects with such lists; a call that only reads or changes the tree is the
one of the tree.
-/

namespace Xwbot

open Links

/-- The address of a cell of a listener list. -/
abbrev Cell := Nat

/-- The objects and the cells of their listener lists.  Cells from `cells` on have not
been allocated yet. -/
structure Objects where
  heap : Heap
  /-- The field `listeners.next` of an object. -/
  listeners : Addr → Option Cell
  /-- The fields `key` and `val` of a cell, which are the same. -/
  key : Cell → Addr
  next : Cell → Option Cell
  allocated : Cell → Bool
  cells : Nat
  allocated_lt : ∀ c, allocated c = true → c < cells

/-- A call of `x_object_subscribe` or `x_object_unsubscribe`. -/
inductive ListenerCall where
  | subscribe (xobj listener : Addr)
  | unsubscribe (xobj listener : Addr)
  deriving DecidableEq, Repr

/-- What the class callback `rx` of a listener does when it is the n-th to be called. -/
abbrev Rx := Nat → Addr → List ListenerCall

/-- Nobody has an `rx` callback. -/
def noRx : Rx :=
  fun _ _ => []

namespace Objects

/-- No object has been allocated. -/
def empty : Objects where
  heap := .empty
  listeners _ := none
  key _ := 0
  next _ := none
  allocated _ := false
  cells := 0
  allocated_lt _ h := by cases h

/-- The objects after something has happened to the heap only. -/
@[simps -fullyApplied]
def withHeap (w : Objects) (h : Heap) : Objects :=
  { w with heap := h }

/-! ## References -/

/-- A new object, which nobody listens to. -/
def alloc (w : Objects) (name : Text) : Objects × Addr :=
  ({ w.withHeap (w.heap.alloc name none).1 with
      listeners := Function.update w.listeners w.heap.top none }, w.heap.top)

/-- `x_object_new_ns_match` for a class without callbacks. -/
def create (w : Objects) (pName : Text) : Except Fault (Objects × Addr) := do
  let (h, xobj) ← w.heap.newObject pName none
  .ok ({ w.withHeap h with listeners := Function.update w.listeners xobj none }, xobj)

theorem create_eq_ok_iff {w : Objects} {pName : Text} {result : Objects × Addr} :
    w.create pName = .ok result ↔
      NameFits (objectName pName) ∧ result = w.alloc (objectName pName) := by
  rw [create, Heap.newObject_eq]
  split
  · next fits =>
      rw [ok_bind]
      simp only [fits, true_and, Except.ok.injEq]
      exact eq_comm
  · next tight => simp [tight]

/-- `x_object_ref_get`. -/
def refGet (w : Objects) (o : Addr) : Except Fault Objects := do
  let o ← w.heap.deref (some o)
  .ok (w.withHeap (w.heap.setRefcount o (w.heap.refcount o + 1)))

/-- `x_object_ref_put`.  The cells of an object that is destroyed stay allocated. -/
def refPut (w : Objects) (o : Addr) : Except Fault Objects := do
  let h ← w.heap.refPut (some o)
  .ok (w.withHeap h)

/-! ## Listener lists -/

/-- The loops of `x_object_listeners_exists` and `x_object_unsubscribe`: the cell of the
listener and the one before it. -/
def findCell (w : Objects) (xobj listener : Addr) : Except Fault (Option Cell × Option Cell) :=
  scan .freed .hang w.allocated (fun c => w.key c = listener) w.next w.cells none
    (w.listeners xobj)

/-- A new first cell. -/
@[simps -fullyApplied]
def pushCell (w : Objects) (xobj listener : Addr) : Objects :=
  { w with
    listeners := Function.update w.listeners xobj (some w.cells)
    key := Function.update w.key w.cells listener
    next := Function.update w.next w.cells (w.listeners xobj)
    allocated := Function.update w.allocated w.cells true
    cells := w.cells + 1
    allocated_lt := by
      intro c alive
      rw [Function.update_apply] at alive
      split at alive
      · next same => exact same ▸ Nat.lt_succ_self w.cells
      · exact (w.allocated_lt c alive).trans (Nat.lt_succ_self w.cells) }

/-- The store `prev->next = p->next`, where `prev` is a cell or the head. -/
@[simps -fullyApplied]
def unlinkCell (w : Objects) (xobj : Addr) (prev : Option Cell) (p : Cell) : Objects :=
  { w with
    listeners := match prev with
      | none => Function.update w.listeners xobj (w.next p)
      | some _ => w.listeners
    next := match prev with
      | none => w.next
      | some prev => Function.update w.next prev (w.next p) }

/-- `x_free` on a cell. -/
@[simps -fullyApplied]
def freeCell (w : Objects) (p : Cell) : Objects :=
  { w with
    allocated := Function.update w.allocated p false
    allocated_lt := by
      intro c alive
      rw [Function.update_apply] at alive
      split at alive
      · cases alive
      · exact w.allocated_lt c alive }

/-- `x_object_subscribe`. -/
def subscribe (w : Objects) (xobj listener : Addr) : Except Fault Objects := do
  let w ← w.refGet xobj
  let w ← w.refGet listener
  let (_, p) ← w.findCell xobj listener
  let w ← match p with
    | none => .ok (w.pushCell xobj listener)
    | some _ => w.refPut listener
  w.refPut xobj

/-- The body of the loop of `x_object_unsubscribe` for the cell of the listener. -/
def dropCell (w : Objects) (xobj listener : Addr) (prev : Option Cell) (p : Cell) :
    Except Fault Objects := do
  let w ← (w.unlinkCell xobj prev p).refPut listener
  .ok (w.freeCell p)

/-- `x_object_unsubscribe`. -/
def unsubscribe (w : Objects) (xobj listener : Addr) : Except Fault Objects := do
  let w ← w.refGet xobj
  let (prev, p) ← w.findCell xobj listener
  let w ← match p with
    | none => .ok w
    | some p => w.dropCell xobj listener prev p
  w.refPut xobj

end Objects

/-- Make a call on the lists. -/
def ListenerCall.exec (w : Objects) : ListenerCall → Except Fault Objects
  | subscribe xobj listener => w.subscribe xobj listener
  | unsubscribe xobj listener => w.unsubscribe xobj listener

namespace Objects

/-! ## Messages -/

/-- The loop of `x_object_sendmsg_multicast`, with the messages delivered so far: who got
one, and what its callback did.  The pointer to the next cell is read behind the callback. -/
def multicastLoop (rx : Rx) :
    Nat → Objects → List (Addr × List ListenerCall) → Option Cell →
      Except Fault (Objects × List (Addr × List ListenerCall))
  | _, w, log, none => .ok (w, log)
  | 0, _, _, some _ => .error .hang
  | turns + 1, w, log, some p =>
      if w.allocated p then do
        let listener ← w.heap.deref (some (w.key p))
        let calls := rx log.length listener
        let w ← Runs.run ListenerCall.exec w calls
        if w.allocated p then multicastLoop rx turns w (log ++ [(listener, calls)]) (w.next p)
        else .error .freed
      else .error .freed

/-- `x_object_sendmsg_multicast`. -/
def multicast (rx : Rx) (w : Objects) (source : Addr) :
    Except Fault (Objects × List (Addr × List ListenerCall)) :=
  multicastLoop rx w.cells w [] (w.listeners source)

/-- The notification that a call on the tree makes: a message is made, sent and dropped.  Its name
has room. -/
def notify (w : Objects) (parent : Addr) : Except Fault Objects := do
  let (w, msg) := w.alloc (lit "$message")
  let (w, _) ← multicast noRx w parent
  w.refPut msg

/-! ## The tree -/

/-- `x_object_append_child`. -/
def appendChild (w : Objects) (parent child : Addr) : Except Fault Objects := do
  let h ← w.heap.appendChildNoCb parent child
  h.getIndex child
  (w.withHeap h).notify parent

/-- The part of `x_object_remove_from_parent` for an object with a parent. -/
def detach (w : Objects) (xobj parent : Addr) : Except Fault Objects := do
  let parent ← w.heap.deref (some parent)
  w.heap.getIndex xobj
  let h ← w.heap.removeFromTreenode parent xobj
  (w.withHeap h).notify parent

/-- `x_object_remove_from_parent`. -/
def removeFromParent (w : Objects) (xobj : Addr) : Except Fault Objects := do
  let xobj ← w.heap.deref (some xobj)
  match w.heap.parent xobj with
  | none => w.refPut xobj
  | some parent => do
      let w ← w.detach xobj parent
      let w ← w.refPut xobj
      w.refPut parent

/-! ## Who listens to an object -/

/-- The listeners of an object, the last one subscribed first. -/
def listening (w : Objects) (xobj : Addr) : List Addr :=
  (chain w.next w.cells (w.listeners xobj)).map w.key

/-! ## What the cells represent -/

/-- The cells are in order: they make up the lists, and no cell is in two of them. -/
structure Ordered (w : Objects) (lists : Addr → List Cell) : Prop where
  path : ∀ x, Path w.next (w.listeners x) (lists x) none
  allocated : ∀ x, ∀ c ∈ lists x, w.allocated c = true
  apart : ∀ x y, ∀ c ∈ lists x, c ∈ lists y → x = y
  /-- Nobody listens to an object twice. -/
  keys : ∀ x, ((lists x).map w.key).Nodup

variable {w : Objects} {lists : Addr → List Cell} {x y listener : Addr} {p : Cell}
  {before behind : List Cell}

namespace Ordered

theorem empty : Objects.empty.Ordered fun _ => [] := by
  constructor <;> simp [Objects.empty]

/-- A list is no longer than the number of cells. -/
theorem length_le (ordered : w.Ordered lists) (x : Addr) : (lists x).length ≤ w.cells := by
  have subset : lists x ⊆ List.range w.cells := fun c member =>
    List.mem_range.mpr (w.allocated_lt c (ordered.allocated x c member))
  simpa using ((ordered.path x).nodup.subperm subset).length_le

theorem listening_eq (ordered : w.Ordered lists) (x : Addr) :
    w.listening x = (lists x).map w.key := by
  rw [listening, chain_of_path (ordered.path x) (ordered.length_le x)]

theorem ne_cells (ordered : w.Ordered lists) {c : Cell} (member : c ∈ lists x) : c ≠ w.cells :=
  (w.allocated_lt c (ordered.allocated x c member)).ne

theorem withHeap (ordered : w.Ordered lists) (h : Heap) : (w.withHeap h).Ordered lists :=
  ⟨ordered.path, ordered.allocated, ordered.apart, ordered.keys⟩

theorem alloc (ordered : w.Ordered lists) (name : Text) :
    (w.alloc name).1.Ordered (Function.update lists w.heap.top []) := by
  have old : ∀ {x c}, c ∈ Function.update lists w.heap.top [] x → c ∈ lists x := by
    intro x c member
    by_cases new : x = w.heap.top
    · rw [new, Function.update_self] at member
      cases member
    · rwa [Function.update_of_ne new] at member
  constructor
  · intro x
    by_cases new : x = w.heap.top
    · simp [new, Objects.alloc]
    · change Path w.next (Function.update w.listeners w.heap.top none x) _ none
      rw [Function.update_of_ne new, Function.update_of_ne new]
      exact ordered.path x
  · intro x c member
    exact ordered.allocated x c (old member)
  · intro x y c first second
    exact ordered.apart x y c (old first) (old second)
  · intro x
    by_cases new : x = w.heap.top
    · simp [new]
    · rw [Function.update_of_ne new]
      exact ordered.keys x

/-- The walk to a listener that is not in the list. -/
theorem findCell_eq_none (ordered : w.Ordered lists) (absent : listener ∉ w.listening x) :
    ∃ prev, w.findCell x listener = .ok (prev, none) := by
  rw [ordered.listening_eq, List.mem_map] at absent
  have passes : Passes w.allocated (fun c => w.key c = listener) w.next (w.listeners x)
      (lists x) none := by
    refine ⟨ordered.path x, ordered.allocated x, ?_, by simp, by simp⟩
    intro c member
    exact decide_eq_false fun same => absent ⟨c, member, same⟩
  exact ⟨_, scan_of_passes none passes (.inr ⟨rfl, ordered.length_le x⟩)⟩

/-- The walk to the cell of a listener. -/
theorem findCell_eq_some (ordered : w.Ordered lists) (split : lists x = before ++ p :: behind)
    (same : w.key p = listener) :
    w.findCell x listener = .ok (before.getLast?, some p) := by
  have path := ordered.path x
  have keys := ordered.keys x
  rw [split] at path keys
  have passes : Passes w.allocated (fun c => w.key c = listener) w.next (w.listeners x)
      before (some p) := by
    obtain ⟨middle, first, rest⟩ := path_append.mp path
    refine ⟨?_, ?_, ?_, ?_, ?_⟩
    · rw [rest.1] at first
      exact first
    · intro c member
      exact ordered.allocated x c (by simp [split, member])
    · intro c member
      rw [List.map_append, List.nodup_append] at keys
      refine decide_eq_false fun equal => ?_
      exact keys.2.2 _ (List.mem_map_of_mem member) _ (by simp) (equal.trans same.symm)
    · rintro c ⟨⟩
      exact ordered.allocated x p (by simp [split])
    · rintro c ⟨⟩
      exact decide_eq_true same
  have enough := ordered.length_le x
  rw [split, List.length_append, List.length_cons] at enough
  rw [findCell, scan_of_passes none passes (.inl (by omega)), Option.or_none]

/-- A new listener. -/
theorem pushCell (ordered : w.Ordered lists) (absent : listener ∉ w.listening x) :
    (w.pushCell x listener).Ordered (Function.update lists x (w.cells :: lists x)) := by
  have fresh : ∀ z, w.cells ∉ lists z := fun z member => ordered.ne_cells member rfl
  have old : ∀ {z c}, c ∈ Function.update lists x (w.cells :: lists x) z →
      c = w.cells ∧ z = x ∨ c ∈ lists z := by
    intro z c member
    by_cases here : z = x
    · subst here
      rw [Function.update_self, List.mem_cons] at member
      exact member.imp (⟨·, rfl⟩) id
    · rw [Function.update_of_ne here] at member
      exact .inr member
  have keys : ∀ z, (lists z).map (Function.update w.key w.cells listener) =
      (lists z).map w.key := by
    intro z
    refine List.map_congr_left fun c member => ?_
    rw [Function.update_of_ne (ordered.ne_cells member)]
  constructor
  · intro z
    rw [pushCell_next, pushCell_listeners]
    by_cases here : z = x
    · subst here
      rw [Function.update_self, Function.update_self]
      refine ⟨rfl, ?_⟩
      rw [Function.update_self]
      exact (ordered.path z).update (fresh z)
    · rw [Function.update_of_ne here, Function.update_of_ne here]
      exact (ordered.path z).update (fresh z)
  · intro z c member
    rw [pushCell_allocated]
    rcases old member with ⟨new, -⟩ | member
    · rw [new, Function.update_self]
    · rw [Function.update_of_ne (ordered.ne_cells member)]
      exact ordered.allocated z c member
  · intro z z' c first second
    rcases old first with ⟨new, here⟩ | first
    · rcases old second with ⟨-, here'⟩ | second
      · exact here.trans here'.symm
      · exact absurd (new ▸ second) (fresh z')
    · rcases old second with ⟨new, -⟩ | second
      · exact absurd (new ▸ first) (fresh z)
      · exact ordered.apart z z' c first second
  · intro z
    rw [pushCell_key]
    by_cases here : z = x
    · subst here
      rw [Function.update_self, List.map_cons, Function.update_self, keys, List.nodup_cons,
        ← ordered.listening_eq]
      refine ⟨absent, ?_⟩
      rw [ordered.listening_eq]
      exact ordered.keys z
    · rw [Function.update_of_ne here, keys]
      exact ordered.keys z

/-- A listener that is taken out. -/
theorem dropCell (ordered : w.Ordered lists) (split : lists x = before ++ p :: behind) :
    ((w.unlinkCell x before.getLast? p).freeCell p).Ordered
      (Function.update lists x (before ++ behind)) := by
  have path := ordered.path x
  rw [split] at path
  have nodup := path.nodup
  rw [List.nodup_append, List.nodup_cons] at nodup
  obtain ⟨-, ⟨notBehind, -⟩, apart⟩ := nodup
  have notBefore : p ∉ before := fun member => apart p member p List.mem_cons_self rfl
  have old : ∀ {z c}, c ∈ Function.update lists x (before ++ behind) z → c ∈ lists z ∧ c ≠ p := by
    intro z c member
    by_cases here : z = x
    · subst here
      rw [Function.update_self] at member
      rw [split]
      rcases List.mem_append.mp member with member | member
      · exact ⟨by simp [member], fun same => notBefore (same ▸ member)⟩
      · exact ⟨by simp [member], fun same => notBehind (same ▸ member)⟩
    · rw [Function.update_of_ne here] at member
      refine ⟨member, fun same => here ?_⟩
      exact ordered.apart z x p (same ▸ member) (by simp [split])
  constructor
  · intro z
    rcases List.eq_nil_or_concat before with rfl | ⟨front, prev, rfl⟩
    · obtain ⟨first, tail⟩ := path
      by_cases here : z = x
      · subst here
        simpa using tail
      · simpa [here] using ordered.path z
    · rw [List.concat_eq_append] at path split notBefore apart ⊢
      have inX : prev ∈ lists x := by simp [split]
      by_cases here : z = x
      · subst here
        obtain ⟨middle, first, second, tail⟩ := path_append.mp path
        have notFront : prev ∉ front := by
          have nodup := (ordered.path z).nodup
          rw [split, List.append_assoc, List.nodup_append] at nodup
          exact fun member => nodup.2.2 prev member prev (by simp) rfl
        have notTail : prev ∉ behind := fun member =>
          apart prev (by simp) prev (by simp [member]) rfl
        simp only [freeCell_next, unlinkCell_next, freeCell_listeners, unlinkCell_listeners,
          List.getLast?_append, List.getLast?_singleton, Option.some_or, Function.update_self]
        exact path_append.mpr ⟨w.next p, first.concat notFront, tail.update notTail⟩
      · have outside : prev ∉ lists z := fun member => here (ordered.apart z x prev member inX)
        simp only [freeCell_next, unlinkCell_next, freeCell_listeners, unlinkCell_listeners,
          List.getLast?_append, List.getLast?_singleton, Option.some_or]
        rw [Function.update_of_ne here]
        exact (ordered.path z).update outside
  · intro z c member
    obtain ⟨member, other⟩ := old member
    rw [freeCell_allocated, Function.update_of_ne other]
    exact ordered.allocated z c member
  · intro z z' c first second
    exact ordered.apart z z' c (old first).1 (old second).1
  · intro z
    by_cases here : z = x
    · subst here
      have keys := ordered.keys z
      rw [split] at keys
      rw [Function.update_self]
      exact keys.sublist (List.Sublist.map _
        (List.Sublist.append_left (List.sublist_cons_self p behind) before))
    · rw [Function.update_of_ne here]
      exact ordered.keys z

end Ordered

end Objects

end Xwbot
