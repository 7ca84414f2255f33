import Xwbot.AttrList
import Xwbot.CellList
import Xwbot.Fault
import Xwbot.Runs

/-!
# The cells of attribute lists

The functions of `x_utils.c` on an attribute list, with its cells and their `next` pointers.  They
do to the cells what the functions of the same names do to the list of pairs, and so the list is a
map: `latest` says what it returns for a key from the operations alone.
-/

namespace Xwbot

open Links Runs

/-- An `x_obj_attr_t` head and the cells behind it. -/
abbrev AttrCells := PairList Text Text

namespace AttrCells

/-- `attr_list_init`. -/
def attrListInit : AttrCells :=
  PairList.empty

/-- `getattr`. -/
def getattr (k : Text) (head : AttrCells) : Except Fault (Option Text) :=
  PairList.lookup .freed .hang head k

/-- `delattr`. -/
def delattr (k : Text) (head : AttrCells) : Except Fault AttrCells :=
  PairList.remove .freed .hang head k

/-- `setattr`; a NULL value deletes the attribute. -/
def setattr (k : Text) (v : Option Text) (head : AttrCells) : Except Fault AttrCells :=
  match v with
  | none => delattr k head
  | some v => PairList.put .freed .hang head k v

/-- `attr_list_clear`. -/
def attrListClear (head : AttrCells) : Except Fault AttrCells :=
  PairList.clear .freed .hang head

/-- `x_object_default_assign_cb`, with the cells of the list that is assigned. -/
def defaultAssign (attrs : List (Text × Option Text)) (head : AttrCells) :
    Except Fault AttrCells :=
  run (fun head attr => setattr attr.1 attr.2 head) head attrs

/-! ## The cells and the pairs -/

end AttrCells

theorem getattr_eq_lookup (k : Text) (l : AttrList) : getattr k l = l.lookup k := by
  induction l with
  | nil => rfl
  | cons cell rest ih =>
      obtain ⟨key, val⟩ := cell
      by_cases same : key = k
      · simp [getattr, List.lookup, same]
      · simp [getattr, List.lookup, same, beq_false_of_ne (Ne.symm same), ih]

section Split

variable {k v v' : Text} {before behind : AttrList}

theorem delattr_split (first : k ∉ before.map Prod.fst) :
    delattr k (before ++ (k, v) :: behind) = before ++ behind := by
  induction before with
  | nil => simp [delattr]
  | cons cell rest ih =>
      obtain ⟨key, val⟩ := cell
      rw [List.map_cons, List.mem_cons, not_or] at first
      rw [List.cons_append, delattr, if_neg (Ne.symm first.1), ih first.2, List.cons_append]

theorem changeattr_split (first : k ∉ before.map Prod.fst) :
    changeattr k v' (before ++ (k, v) :: behind) = before ++ (k, v') :: behind := by
  induction before with
  | nil => simp [changeattr]
  | cons cell rest ih =>
      obtain ⟨key, val⟩ := cell
      rw [List.map_cons, List.mem_cons, not_or] at first
      rw [List.cons_append, changeattr, if_neg (Ne.symm first.1), ih first.2, List.cons_append]

end Split

namespace AttrCells

variable {head : AttrCells} {l : AttrList}

theorem getattr_of_represents (represents : head.Represents l) (k : Text) :
    head.getattr k = .ok (Xwbot.getattr k l) := by
  rw [getattr_eq_lookup]
  exact represents.lookup Fault.freed .hang k

theorem delattr_of_represents (represents : head.Represents l) (k : Text) :
    ∃ head', head.delattr k = .ok head' ∧ head'.Represents (Xwbot.delattr k l) := by
  cases found : l.lookup k with
  | none =>
      have absent : Xwbot.getattr k l = none := (getattr_eq_lookup k l).trans found
      refine ⟨head, represents.remove_none Fault.freed .hang found, ?_⟩
      rw [delattr_of_absent absent]
      exact represents
  | some v =>
      rcases List.lookup_eq_some_iff.mp found with ⟨before, behind, rfl, passed⟩
      have first := PairList.first_key passed
      rw [delattr_split first]
      exact represents.remove Fault.freed .hang first

theorem setattr_of_represents (represents : head.Represents l) (k : Text) (v : Option Text) :
    ∃ head', head.setattr k v = .ok head' ∧ head'.Represents (Xwbot.setattr k v l) := by
  cases v with
  | none => exact delattr_of_represents represents k
  | some v =>
      cases found : l.lookup k with
      | none =>
          have absent : Xwbot.getattr k l = none := (getattr_eq_lookup k l).trans found
          rw [Xwbot.setattr, absent]
          exact represents.put_new Fault.freed .hang found
      | some old =>
          have present : Xwbot.getattr k l = some old := (getattr_eq_lookup k l).trans found
          rcases List.lookup_eq_some_iff.mp found with ⟨before, behind, rfl, passed⟩
          have first := PairList.first_key passed
          simp only [Xwbot.setattr, present, Option.isSome_some, if_true, changeattr_split first]
          exact represents.put_old Fault.freed .hang v first

theorem defaultAssign_of_represents (attrs : List (Text × Option Text))
    (represents : head.Represents l) :
    ∃ head', head.defaultAssign attrs = .ok head' ∧
      head'.Represents (attrs.foldl (fun l attr => Xwbot.setattr attr.1 attr.2 l) l) := by
  induction attrs generalizing head l with
  | nil => exact ⟨head, rfl, represents⟩
  | cons attr rest ih =>
      rcases setattr_of_represents represents attr.1 attr.2 with ⟨middle, result, between⟩
      rcases ih between with ⟨head', later, ends⟩
      refine ⟨head', ?_, ends⟩
      rw [defaultAssign, run_cons, result]
      exact later

end AttrCells

/-! ## Runs -/

/-- The operations on one list. -/
inductive AttrOp where
  /-- `setattr` -/
  | set (k : Text) (v : Option Text)
  /-- `delattr` -/
  | del (k : Text)
  /-- `attr_list_clear` -/
  | clear
  /-- `x_object_default_assign_cb` -/
  | assign (attrs : List (Text × Option Text))
  deriving DecidableEq, Repr

namespace AttrOp

/-- One operation on the cells. -/
def step (head : AttrCells) : AttrOp → Except Fault AttrCells
  | set k v => head.setattr k v
  | del k => head.delattr k
  | clear => head.attrListClear
  | assign attrs => head.defaultAssign attrs

/-- What the operation does to the pairs. -/
def onPairs (l : AttrList) : AttrOp → AttrList
  | set k v => setattr k v l
  | del k => delattr k l
  | clear => []
  | assign attrs => attrs.foldl (fun l attr => setattr attr.1 attr.2 l) l

/-- The operation is about the key. -/
def Concerns (k : Text) : AttrOp → Prop
  | set key _ => key = k
  | del key => key = k
  | clear => True
  | assign attrs => k ∈ attrs.map Prod.fst

/-- What a pair that is set says about the key. -/
def setTo (k : Text) (old : Option Text) (attr : Text × Option Text) : Option Text :=
  if attr.1 = k then attr.2 else old

/-- The value of the key after the operation. -/
def value (k : Text) (old : Option Text) : AttrOp → Option Text
  | set key v => setTo k old (key, v)
  | del key => setTo k old (key, none)
  | clear => none
  | assign attrs => attrs.foldl (setTo k) old

/-- The value that was set last for the key, unless it was deleted or the list cleared since. -/
def latest (k : Text) (ops : List AttrOp) : Option Text :=
  ops.foldl (value k) none

theorem value_of_not_concerns {k : Text} {old : Option Text} {op : AttrOp}
    (other : ¬op.Concerns k) : op.value k old = old := by
  cases op with
  | set key v => exact if_neg other
  | del key => exact if_neg other
  | clear => exact absurd trivial other
  | assign attrs =>
      change k ∉ attrs.map Prod.fst at other
      change attrs.foldl (setTo k) old = old
      induction attrs with
      | nil => rfl
      | cons attr rest ih =>
          rw [List.map_cons, List.mem_cons, not_or] at other
          rw [List.foldl_cons, setTo, if_neg (Ne.symm other.1), ih other.2]

/-! ### Keys stay different, and the pairs are a map -/

theorem getattr_setattr_any {k key : Text} {v : Option Text} {l : AttrList}
    (nodup : (attrKeys l).Nodup) :
    getattr k (setattr key v l) = setTo k (getattr k l) (key, v) := by
  cases v with
  | some v =>
      rw [getattr_setattr, setTo]
      by_cases same : k = key
      · rw [if_pos same, if_pos same.symm]
      · rw [if_neg same, if_neg (Ne.symm same)]
  | none =>
      by_cases same : key = k
      · subst same
        rw [setTo, if_pos rfl]
        exact getattr_delattr_self nodup
      · rw [setTo, if_neg same]
        exact getattr_delattr_of_ne (Ne.symm same)

theorem onPairs_spec {l : AttrList} (op : AttrOp) (nodup : (attrKeys l).Nodup) :
    (attrKeys (op.onPairs l)).Nodup ∧ ∀ k, getattr k (op.onPairs l) = op.value k (getattr k l) := by
  cases op with
  | set key v => exact ⟨nodup_setattr nodup, fun _ => getattr_setattr_any nodup⟩
  | del key =>
      exact ⟨nodup_setattr (v := none) nodup, fun _ => getattr_setattr_any (v := none) nodup⟩
  | clear => exact ⟨List.nodup_nil, fun _ => rfl⟩
  | assign attrs =>
      change (attrKeys (attrs.foldl (fun l attr => setattr attr.1 attr.2 l) l)).Nodup ∧
        ∀ k, getattr k (attrs.foldl (fun l attr => setattr attr.1 attr.2 l) l) =
          attrs.foldl (setTo k) (getattr k l)
      induction attrs generalizing l with
      | nil => exact ⟨nodup, fun _ => rfl⟩
      | cons attr rest ih =>
          rcases ih (nodup_setattr (k := attr.1) (v := attr.2) nodup) with ⟨keys, values⟩
          refine ⟨keys, fun k => ?_⟩
          rw [List.foldl_cons, List.foldl_cons, values, getattr_setattr_any nodup]

/-- **One operation** on the cells is the operation on the pairs. -/
theorem step_of_represents {head : AttrCells} {l : AttrList} (represents : head.Represents l)
    (op : AttrOp) : ∃ head', step head op = .ok head' ∧ head'.Represents (op.onPairs l) := by
  cases op with
  | set k v => exact AttrCells.setattr_of_represents represents k v
  | del k => exact AttrCells.delattr_of_represents represents k
  | clear => exact represents.clear Fault.freed .hang
  | assign attrs => exact AttrCells.defaultAssign_of_represents attrs represents

/-- **A run** from an initialised head. -/
theorem run_spec (ops : List AttrOp) :
    ∃ head l, run step AttrCells.attrListInit ops = .ok head ∧ head.Represents l ∧
      (attrKeys l).Nodup ∧ ∀ k, getattr k l = latest k ops := by
  induction ops using List.reverseRecOn with
  | nil => exact ⟨_, [], rfl, PairList.represents_empty, List.nodup_nil, fun _ => rfl⟩
  | append_singleton ops op ih =>
      rcases ih with ⟨head, l, result, represents, nodup, values⟩
      rcases step_of_represents represents op with ⟨head', next, represents'⟩
      rcases op.onPairs_spec nodup with ⟨nodup', values'⟩
      refine ⟨head', op.onPairs l, ?_, represents', nodup', fun k => ?_⟩
      · rw [run_concat, result]
        exact next
      · rw [values', values, latest, latest, List.foldl_concat]

/-- **The attribute list is a map.**  After any operations it returns for each key the value set
last, if that was not deleted or cleared since; no key is there twice; and an operation leaves
what is returned for the keys that it is not about. -/
theorem attrs_refine_map (ops : List AttrOp) :
    ∃ head, run step AttrCells.attrListInit ops = .ok head ∧
      (∀ k, head.getattr k = .ok (latest k ops)) ∧
      head.cells.toList.Nodup ∧
      ∀ op : AttrOp, ∃ head', step head op = .ok head' ∧
        ∀ k, ¬op.Concerns k → head'.getattr k = head.getattr k := by
  rcases run_spec ops with ⟨head, l, result, represents, nodup, values⟩
  refine ⟨head, result, fun k => ?_, ?_, fun op => ?_⟩
  · rw [AttrCells.getattr_of_represents represents, values]
  · rcases represents with ⟨cells, holds⟩
    rw [holds.keys.toList_eq]
    exact nodup
  · rcases step_of_represents represents op with ⟨head', next, represents'⟩
    refine ⟨head', next, fun k other => ?_⟩
    rw [AttrCells.getattr_of_represents represents', AttrCells.getattr_of_represents represents,
      (op.onPairs_spec nodup).2, value_of_not_concerns other]

end AttrOp

end Xwbot
