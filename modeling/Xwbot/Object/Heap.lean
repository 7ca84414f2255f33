import Xwbot.AttrList
import Xwbot.Fault
import Xwbot.Links
import Xwbot.XString

/-!
# The object heap

An `x_object` is named by its address.  Each field of the C structure that the
modelled functions use is a function on addresses, so a store is
`Function.update` on one field.  An address is not used again after the object
is freed.
-/

namespace Xwbot

open Links

/-- The address of an object; NULL is `none`. -/
abbrev Addr := Nat

/-- The objects.  Addresses from `top` on have not been allocated yet. -/
structure Heap where
  top : Nat
  live : Addr → Bool
  name : Addr → Text
  childCount : Addr → Int
  parent : Addr → Option Addr
  next : Addr → Option Addr
  sibling : Addr → Option Addr
  sons : Addr → Option Addr
  attrs : Addr → AttrList
  content : Addr → XString
  bus : Addr → Option Addr
  refcount : Addr → Int
  /-- The index of the object's class in the table of registered classes. -/
  objclass : Addr → Option Nat
  live_lt : ∀ x, live x = true → x < top

namespace Heap

/-- No object has been allocated. -/
def empty : Heap where
  top := 0
  live _ := false
  name _ := []
  childCount _ := 0
  parent _ := none
  next _ := none
  sibling _ := none
  sons _ := none
  attrs _ := []
  content _ := .zero
  bus _ := none
  refcount _ := 0
  objclass _ := none
  live_lt _ h := by cases h

/-! ## Stores -/

/-- Store a name. -/
@[simps -fullyApplied]
def putName (h : Heap) (x : Addr) (name : Text) : Heap :=
  { h with name := Function.update h.name x name }

/-- Store a pointer to the parent. -/
@[simps -fullyApplied]
def setParent (h : Heap) (x : Addr) (v : Option Addr) : Heap :=
  { h with parent := Function.update h.parent x v }

/-- Store a pointer to the next object of the same name. -/
@[simps -fullyApplied]
def setNext (h : Heap) (x : Addr) (v : Option Addr) : Heap :=
  { h with next := Function.update h.next x v }

/-- Store a pointer to the next son of the same parent. -/
@[simps -fullyApplied]
def setSibling (h : Heap) (x : Addr) (v : Option Addr) : Heap :=
  { h with sibling := Function.update h.sibling x v }

/-- Store a pointer to the first son. -/
@[simps -fullyApplied]
def setSons (h : Heap) (x : Addr) (v : Option Addr) : Heap :=
  { h with sons := Function.update h.sons x v }

/-- Store the number of sons. -/
@[simps -fullyApplied]
def setChildCount (h : Heap) (x : Addr) (n : Int) : Heap :=
  { h with childCount := Function.update h.childCount x n }

/-- Store the number of references. -/
@[simps -fullyApplied]
def setRefcount (h : Heap) (x : Addr) (n : Int) : Heap :=
  { h with refcount := Function.update h.refcount x n }

/-- Store the attribute list. -/
@[simps -fullyApplied]
def setAttrs (h : Heap) (x : Addr) (l : AttrList) : Heap :=
  { h with attrs := Function.update h.attrs x l }

/-- Store the text of the object. -/
@[simps -fullyApplied]
def setContent (h : Heap) (x : Addr) (s : XString) : Heap :=
  { h with content := Function.update h.content x s }

/-- Store the object's bus. -/
@[simps -fullyApplied]
def setBus (h : Heap) (x : Addr) (v : Option Addr) : Heap :=
  { h with bus := Function.update h.bus x v }

/-! ## Access -/

/-- The address of an object that is about to be used. -/
def deref (h : Heap) : Option Addr → Except Fault Addr
  | none => .error .segv
  | some x => if h.live x then .ok x else .error .freed

/-- Following the links of a field, from `start`, up to an object that satisfies
`stop`: the object before it and the object found. -/
def follow (h : Heap) (field : Addr → Option Addr) (stop : Addr → Bool) (start : Option Addr) :
    Except Fault (Option Addr × Option Addr) :=
  scan .freed .hang h.live stop field h.top none start

/-! ## Allocation -/

/-- What `__x_object_alloc` and `x_object_init` leave behind the top of the heap, with a name
and a class. -/
@[simps -fullyApplied]
def alloc (h : Heap) (name : Text) (objclass : Option Nat) : Heap × Addr :=
  ({ h with
      top := h.top + 1
      live := Function.update h.live h.top true
      name := Function.update h.name h.top name
      childCount := Function.update h.childCount h.top 0
      parent := Function.update h.parent h.top none
      next := Function.update h.next h.top none
      sibling := Function.update h.sibling h.top none
      sons := Function.update h.sons h.top none
      attrs := Function.update h.attrs h.top []
      content := Function.update h.content h.top .zero
      bus := Function.update h.bus h.top none
      refcount := Function.update h.refcount h.top 1
      objclass := Function.update h.objclass h.top objclass
      live_lt := by
        intro x alive
        rw [Function.update_apply] at alive
        split at alive
        · next same => exact same ▸ Nat.lt_succ_self h.top
        · exact (h.live_lt x alive).trans (Nat.lt_succ_self h.top) },
    h.top)

/-- `__x_object_destroy`: the memory of the object is given back. -/
@[simps -fullyApplied]
def free (h : Heap) (x : Addr) : Heap :=
  { h with
    live := Function.update h.live x false
    live_lt := by
      intro y alive
      rw [Function.update_apply] at alive
      split at alive
      · cases alive
      · exact h.live_lt y alive }

end Heap

/-! ## Names -/

/-- `x_object_set_name` asks for a block of `len` bytes for the name and its terminator, and
stores a second NUL at `name[len]`: that byte is in the block if its size is rounded up. -/
def NameFits (name : Text) : Prop :=
  name.length + 1 < strMemlenAlign (name.length + 1)

instance (name : Text) : Decidable (NameFits name) :=
  inferInstanceAs (Decidable (_ < _))

theorem nameFits_iff {name : Text} : NameFits name ↔ (name.length + 1) % strBufsiz ≠ 0 :=
  lt_strMemlenAlign_iff _

/-- The name that `x_object_new_ns_match` gives an object: what it is given up to a line
end. -/
def objectName (pName : Text) : Text :=
  pName.takeWhile (· ≠ ch '\n')

namespace Heap

/-- `x_object_set_name`. -/
def setName (h : Heap) (x : Addr) (name : Text) : Except Fault Heap :=
  if NameFits name then .ok (h.putName x name) else .error .overflow

theorem setName_eq_ok_iff {h h' : Heap} {x : Addr} {name : Text} :
    h.setName x name = .ok h' ↔ NameFits name ∧ h' = h.putName x name := by
  unfold setName
  split
  · next fits => simp [fits, eq_comm]
  · next tight => simp [tight]

/-- The part of `x_object_new_ns_match` behind the lookup of the class: an object is made,
and gets its name. -/
def newObject (h : Heap) (pName : Text) (objclass : Option Nat) : Except Fault (Heap × Addr) := do
  let (h, xobj) := h.alloc [] objclass
  let h ← h.setName xobj (objectName pName)
  .ok (h, xobj)

/-- **An object is made if its name has room.** -/
theorem newObject_eq (h : Heap) (pName : Text) (objclass : Option Nat) :
    h.newObject pName objclass =
      if NameFits (objectName pName) then .ok (h.alloc (objectName pName) objclass)
      else .error .overflow := by
  have named : (h.alloc [] objclass).1.putName h.top (objectName pName) =
      (h.alloc (objectName pName) objclass).1 := by
    simp only [putName, alloc, Function.update_idem]
  change ((h.alloc [] objclass).1.setName h.top (objectName pName) >>=
    fun h' => .ok (h', h.top)) = _
  unfold setName
  split
  · rw [ok_bind, named]
    rfl
  · rfl

theorem newObject_eq_ok_iff {h : Heap} {pName : Text} {objclass : Option Nat}
    {result : Heap × Addr} :
    h.newObject pName objclass = .ok result ↔
      NameFits (objectName pName) ∧ result = h.alloc (objectName pName) objclass := by
  rw [newObject_eq]
  split
  · next fits => simp [fits, eq_comm]
  · next tight => simp [tight]

/-- The object that carries a message has a name with room. -/
theorem newObject_message (h : Heap) :
    h.newObject (lit "$message") none = .ok (h.alloc (lit "$message") none) := by
  rw [newObject_eq]
  exact if_pos (by decide)

/-- A list of different live objects is no longer than the heap. -/
theorem length_le_top (h : Heap) {l : List Addr} (nodup : l.Nodup)
    (alive : ∀ x ∈ l, h.live x = true) : l.length ≤ h.top := by
  have subset : l ⊆ List.range h.top := fun x member =>
    List.mem_range.mpr (h.live_lt x (alive x member))
  simpa using (nodup.subperm subset).length_le

/-- The loop gets through a chain of live objects that ends or stops it. -/
theorem follow_of_passes (h : Heap) {field : Addr → Option Addr} {stop : Addr → Bool}
    {start found : Option Addr} {l : List Addr}
    (passes : Passes h.live stop field start l found) :
    h.follow field stop start = .ok (l.getLast?, found) := by
  have enough : l.length < h.top ∨ found = none ∧ l.length ≤ h.top := by
    cases found with
    | none => exact .inr ⟨rfl, h.length_le_top passes.nodup passes.live_of_mem⟩
    | some y =>
        have outside : y ∉ l := by
          intro member
          have stops := passes.stop_of_found y rfl
          rw [passes.stop_of_mem y member] at stops
          cases stops
        have length_le := h.length_le_top (l := y :: l)
          (List.nodup_cons.mpr ⟨outside, passes.nodup⟩)
          (List.forall_mem_cons.mpr ⟨passes.live_of_found y rfl, passes.live_of_mem⟩)
        exact .inl (by simpa using length_le)
  rw [follow, scan_of_passes none passes enough, Option.or_none]

theorem passes_of_follow {h : Heap} {field : Addr → Option Addr} {stop : Addr → Bool}
    {start found last : Option Addr} (result : h.follow field stop start = .ok (last, found)) :
    ∃ l, Passes h.live stop field start l found ∧ last = l.getLast? := by
  obtain ⟨l, passes, last_eq⟩ := passes_of_scan result
  exact ⟨l, passes, by rw [last_eq, Option.or_none]⟩

end Heap

end Xwbot
