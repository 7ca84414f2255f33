import Xwbot.Object.Heap

/-!
# Objects as values

A whole object tree as one value, for functions that build a tree and hand it over or that read one
they were handed.
-/

namespace Xwbot

/-- An attribute list as `setattr` leaves it: no key is there twice. -/
@[ext]
structure AttrMap where
  cells : AttrList
  nodup : (attrKeys cells).Nodup

namespace AttrMap

/-- `attr_list_init` -/
def empty : AttrMap :=
  ⟨[], List.nodup_nil⟩

/-- `getattr` -/
def get (a : AttrMap) (k : Text) : Option Text :=
  getattr k a.cells

/-- `setattr` -/
def set (a : AttrMap) (k : Text) (v : Option Text) : AttrMap :=
  ⟨setattr k v a.cells, nodup_setattr a.nodup⟩

/-- `x_object_default_assign_cb` -/
def assign (a : AttrMap) (attrs : AttrList) : AttrMap :=
  attrs.foldl (fun a attr => a.set attr.1 (some attr.2)) a

variable {a : AttrMap} {k k' : Text} {v : Option Text}

@[simp]
theorem get_empty (k : Text) : empty.get k = none :=
  rfl

theorem get_set : (a.set k v).get k' = if k' = k then v else a.get k' := by
  cases v with
  | some v => exact getattr_setattr
  | none =>
      by_cases same : k' = k
      · subst same
        rw [if_pos rfl]
        exact getattr_delattr_self a.nodup
      · rw [if_neg same]
        exact getattr_delattr_of_ne same

/-- An attribute that is absent need not be removed. -/
theorem set_none (absent : a.get k = none) : a.set k none = a :=
  AttrMap.ext (delattr_of_absent absent)

theorem cells_assign (a : AttrMap) (attrs : AttrList) :
    (a.assign attrs).cells = assigned attrs a.cells := by
  rw [assign, assigned]
  induction attrs generalizing a with
  | nil => rfl
  | cons attr rest ih => exact ih (a.set attr.1 (some attr.2))

theorem get_assign (a b : AttrMap) (k : Text) :
    (a.assign b.cells).get k = (b.get k).or (a.get k) := by
  rw [get, cells_assign, getattr_assigned, getattr_reverse b.nodup]
  rfl

end AttrMap

/-- An object with its attributes and the objects below it. -/
structure Node where
  name : Text
  attrs : AttrMap
  sons : List Node

namespace Node

/-- `_GNEW` with a class that sets no attributes, and `_SETNM` with a name that fits. -/
def new (name : Text) : Node :=
  ⟨name, .empty, []⟩

/-- `_AGET` -/
def aget (o : Node) (k : Text) : Option Text :=
  o.attrs.get k

/-- `_ASET` -/
def aset (o : Node) (k : Text) (v : Option Text) : Node :=
  { o with attrs := o.attrs.set k v }

/-- `_ASGN` of a class without an assignment callback. -/
def assign (o : Node) (attrs : AttrList) : Node :=
  { o with attrs := o.attrs.assign attrs }

/-- `x_object_append_child` and `x_object_append_child_no_cb`: a new object is the last. -/
def append (o child : Node) : Node :=
  { o with sons := o.sons ++ [child] }

/-- `_CPY`: no objects are below the copy, and its name has a block of its own. -/
def copy (o : Node) : Except Fault Node :=
  if NameFits o.name then .ok ((new o.name).assign o.attrs.cells) else .error .overflow

/-- `_CHLD` -/
def child (o : Node) (cname : Text) : Option Node :=
  o.sons.find? fun x => eqnText x.name cname

/-- The place of the object that `_CHLD` gives. -/
def childIndex (o : Node) (cname : Text) : Option Nat :=
  o.sons.findIdx? fun x => eqnText x.name cname

/-- `_CHLD`, and the objects that `_NXT` leads to from there.  An object that is appended is chained
to the last behind the one that its own name finds. -/
def children (o : Node) (cname : Text) : List Node :=
  o.sons.filter fun x => o.childIndex x.name = o.childIndex cname

/-- The object that `_CHLD` gives is changed. -/
def modifyChild (o : Node) (cname : Text) (f : Node → Node) : Node :=
  match o.childIndex cname with
  | some k => { o with sons := o.sons.modify k f }
  | none => o

/-- The first object below with just this name. -/
def named (o : Node) (cname : Text) : Option Node :=
  o.sons.find? fun x => x.name = cname

variable {o x : Node} {cname k : Text} {v : Option Text}

theorem copy_eq_ok_iff :
    o.copy = .ok x ↔ NameFits o.name ∧ x = (new o.name).assign o.attrs.cells := by
  unfold copy
  split
  · next fits => exact ⟨fun same => ⟨fits, (Except.ok.inj same).symm⟩, fun both => both.2 ▸ rfl⟩
  · next tight =>
      constructor
      · intro impossible
        cases impossible
      · exact fun both => absurd both.1 tight

/-- If all objects below have the wanted name the chain passes all of them. -/
theorem children_eq (same : ∀ x ∈ o.sons, x.name = cname) : o.children cname = o.sons := by
  rw [children, List.filter_eq_self]
  intro x member
  rw [same x member]
  exact decide_eq_true rfl

/-- The object that is found has none in front of it that would have done. -/
theorem child_of_split (before : List Node) {behind : List Node}
    (sons : o.sons = before ++ x :: behind)
    (passed : ∀ y ∈ before, eqnText y.name cname = false) (here : eqnText x.name cname = true) :
    o.child cname = some x := by
  have none : before.find? (fun y => eqnText y.name cname) = Option.none := by
    rw [List.find?_eq_none]
    exact fun y member => by simp [passed y member]
  rw [child, sons, List.find?_append, none, Option.none_or]
  exact List.find?_cons_of_pos (p := fun y : Node => eqnText y.name cname) here

theorem modifyChild_of_split {before behind : List Node} {f : Node → Node}
    (sons : o.sons = before ++ x :: behind)
    (passed : ∀ y ∈ before, eqnText y.name cname = false) (here : eqnText x.name cname = true) :
    o.modifyChild cname f = { o with sons := before ++ f x :: behind } := by
  have none : before.findIdx? (fun y => eqnText y.name cname) = Option.none := by
    rw [List.findIdx?_eq_none_iff]
    exact passed
  have index : o.childIndex cname = some (before.length + 0) := by
    rw [childIndex, sons, List.findIdx?_append, none, Option.none_or,
      List.findIdx?_cons, if_pos here,
      Option.map_some, Nat.zero_add, Nat.add_zero]
  rw [modifyChild, index]
  simp only [sons, List.modify, List.modifyTailIdx_add]
  rfl

theorem child_isSome_of_named (present : (o.named cname).isSome = true) :
    (o.child cname).isSome = true := by
  rw [named, List.find?_isSome] at present
  rcases present with ⟨x, member, same⟩
  rw [decide_eq_true_eq] at same
  rw [child, List.find?_isSome]
  exact ⟨x, member, same ▸ eqnText_refl x.name⟩

theorem name_modifyChild (o : Node) (cname : Text) (f : Node → Node) :
    (o.modifyChild cname f).name = o.name := by
  unfold modifyChild
  split <;> rfl

theorem children_of_sons_nil (none : o.sons = []) : o.children cname = [] := by
  rw [children, none]
  rfl

end Node

end Xwbot
