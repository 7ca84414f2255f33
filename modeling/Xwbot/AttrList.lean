import Xwbot.Text

/-!
# Attribute lists

An `x_obj_attr_t` list is a head cell followed by cells with a key and a value.
The model is the list of the cells behind the head.  `setattr` puts a new key
in front and changes the value of a present one in its place.
-/

namespace Xwbot

/-- The cells behind the head of an attribute list. -/
abbrev AttrList := List (Text × Text)

/-- `getattr`. -/
def getattr (k : Text) : AttrList → Option Text
  | [] => none
  | (key, val) :: rest => if key = k then some val else getattr k rest

/-- `delattr`: only the first cell with the key is removed. -/
def delattr (k : Text) : AttrList → AttrList
  | [] => []
  | (key, val) :: rest => if key = k then rest else (key, val) :: delattr k rest

/-- The branch of `setattr` that finds the key in the list. -/
def changeattr (k v : Text) : AttrList → AttrList
  | [] => []
  | (key, val) :: rest => if key = k then (key, v) :: rest else (key, val) :: changeattr k v rest

/-- `setattr`; a NULL value deletes the attribute. -/
def setattr (k : Text) (v : Option Text) (l : AttrList) : AttrList :=
  match v with
  | none => delattr k l
  | some v => if (getattr k l).isSome then changeattr k v l else (k, v) :: l

/-- The keys of a list. -/
def attrKeys (l : AttrList) : List Text :=
  l.map Prod.fst

theorem getattr_isSome_iff {k : Text} {l : AttrList} :
    (getattr k l).isSome ↔ k ∈ attrKeys l := by
  induction l with
  | nil => simp [getattr, attrKeys]
  | cons cell rest ih =>
      obtain ⟨key, val⟩ := cell
      by_cases same : key = k
      · simp [getattr, attrKeys, same]
      · simp [getattr, attrKeys, same, Ne.symm same] at ih ⊢
        exact ih

/-- Setting an absent key puts the new cell in front. -/
theorem setattr_of_notMem {k v : Text} {l : AttrList} (h : k ∉ attrKeys l) :
    setattr k (some v) l = (k, v) :: l := by
  simp [setattr, Bool.eq_false_iff.mpr (mt getattr_isSome_iff.mp h)]

theorem attrKeys_changeattr (k v : Text) (l : AttrList) :
    attrKeys (changeattr k v l) = attrKeys l := by
  induction l with
  | nil => rfl
  | cons cell rest ih =>
      obtain ⟨key, val⟩ := cell
      by_cases same : key = k
      · simp [changeattr, attrKeys, same]
      · simpa [changeattr, attrKeys, same] using ih

theorem mem_attrKeys_setattr {k k' : Text} {v : Text} {l : AttrList} :
    k' ∈ attrKeys (setattr k (some v) l) ↔ k' = k ∨ k' ∈ attrKeys l := by
  unfold setattr
  simp only
  split
  · next present =>
      rw [attrKeys_changeattr]
      constructor
      · exact Or.inr
      · rintro (rfl | member)
        · exact getattr_isSome_iff.mp present
        · exact member
  · simp [attrKeys]

theorem mem_changeattr {k v : Text} {l : AttrList} {cell : Text × Text}
    (member : cell ∈ changeattr k v l) : cell = (k, v) ∨ cell ∈ l := by
  induction l with
  | nil => cases member
  | cons head rest ih =>
      obtain ⟨key, val⟩ := head
      rw [changeattr] at member
      split at member
      · next same =>
          subst same
          rcases List.mem_cons.mp member with rfl | member
          · exact .inl rfl
          · exact .inr (List.mem_cons_of_mem _ member)
      · rcases List.mem_cons.mp member with rfl | member
        · exact .inr List.mem_cons_self
        · exact (ih member).imp_right (List.mem_cons_of_mem _)

theorem mem_setattr {k v : Text} {l : AttrList} {cell : Text × Text}
    (member : cell ∈ setattr k (some v) l) : cell = (k, v) ∨ cell ∈ l := by
  simp only [setattr] at member
  split at member
  · exact mem_changeattr member
  · exact List.mem_cons.mp member

theorem getattr_changeattr {k k' v : Text} {l : AttrList} (present : (getattr k l).isSome) :
    getattr k' (changeattr k v l) = if k' = k then some v else getattr k' l := by
  induction l with
  | nil => cases present
  | cons cell rest ih =>
      obtain ⟨key, val⟩ := cell
      by_cases found : key = k
      · subst found
        by_cases same : k' = key
        · simp [changeattr, getattr, same]
        · simp [changeattr, getattr, same, Ne.symm same]
      · rw [getattr, if_neg found] at present
        rw [changeattr, if_neg found, getattr, getattr, ih present]
        by_cases same : k' = k
        · rw [if_pos same, if_pos same, if_neg (same ▸ found)]
        · rw [if_neg same, if_neg same]

/-- Reading an attribute after a value has been set. -/
theorem getattr_setattr {k k' v : Text} {l : AttrList} :
    getattr k' (setattr k (some v) l) = if k' = k then some v else getattr k' l := by
  simp only [setattr]
  split
  · next present => exact getattr_changeattr present
  · rw [getattr]
    by_cases same : k' = k
    · rw [if_pos same, if_pos same.symm]
    · rw [if_neg same, if_neg (Ne.symm same)]

theorem getattr_delattr_of_ne {k k' : Text} {l : AttrList} (other : k' ≠ k) :
    getattr k' (delattr k l) = getattr k' l := by
  induction l with
  | nil => rfl
  | cons cell rest ih =>
      obtain ⟨key, val⟩ := cell
      rw [delattr]
      split
      · next found => rw [getattr, if_neg (found ▸ Ne.symm other)]
      · rw [getattr, getattr, ih]

theorem delattr_of_absent {k : Text} {l : AttrList} (absent : getattr k l = none) :
    delattr k l = l := by
  induction l with
  | nil => rfl
  | cons cell rest ih =>
      rcases cell with ⟨key, val⟩
      rw [getattr] at absent
      split at absent
      · cases absent
      · next other => rw [delattr, if_neg other, ih absent]

theorem getattr_append (k : Text) (l₁ l₂ : AttrList) :
    getattr k (l₁ ++ l₂) = (getattr k l₁).or (getattr k l₂) := by
  induction l₁ with
  | nil => rfl
  | cons cell rest ih =>
      rcases cell with ⟨key, val⟩
      by_cases same : key = k
      · simp [getattr, same]
      · simp [getattr, same, ih]

/-- Reading one of the attributes whose keys are kept. -/
theorem getattr_filter (keeps : Text → Bool) (k : Text) (l : AttrList) :
    getattr k (l.filter fun attr => keeps attr.1) = if keeps k then getattr k l else none := by
  induction l with
  | nil => simp [getattr]
  | cons cell rest ih =>
      rcases cell with ⟨key, val⟩
      rw [List.filter_cons, getattr]
      by_cases same : key = k
      · subst same
        by_cases kept : keeps key = true
        · simp [kept, getattr]
        · simp [kept, ih]
      · by_cases kept : keeps key = true
        · simp [kept, same, getattr, ih]
        · simp [kept, same, ih]

/-- The attributes after `x_object_default_assign_cb`. -/
def assigned (attrs : AttrList) (old : AttrList) : AttrList :=
  attrs.foldl (fun l attr => setattr attr.1 (some attr.2) l) old

theorem getattr_assigned (k : Text) (attrs old : AttrList) :
    getattr k (assigned attrs old) = (getattr k attrs.reverse).or (getattr k old) := by
  induction attrs generalizing old with
  | nil => rfl
  | cons attr rest ih =>
      obtain ⟨key, val⟩ := attr
      rw [assigned, List.foldl_cons, List.reverse_cons, getattr_append, Option.or_assoc]
      apply (ih _).trans
      rw [getattr_setattr]
      by_cases same : k = key
      · simp [getattr, same]
      · simp [getattr, same, Ne.symm same]

/-- In a list with different keys it does not matter from which end it is searched. -/
theorem getattr_reverse {k : Text} {l : AttrList} (nodup : (attrKeys l).Nodup) :
    getattr k l.reverse = getattr k l := by
  induction l with
  | nil => rfl
  | cons cell rest ih =>
      rcases cell with ⟨key, val⟩
      rw [attrKeys, List.map_cons, List.nodup_cons] at nodup
      rw [List.reverse_cons, getattr_append, ih nodup.2]
      by_cases same : key = k
      · have absent : getattr k rest = none := by
          rw [← Option.not_isSome_iff_eq_none, getattr_isSome_iff, ← same]
          exact nodup.1
        simp [getattr, same, absent]
      · simp [getattr, same]

/-- Assigning all attributes of a list with different keys copies the attributes. -/
theorem getattr_assigned_nil {l : AttrList} (nodup : (attrKeys l).Nodup) (k : Text) :
    getattr k (assigned l []) = getattr k l := by
  rw [getattr_assigned, getattr_reverse nodup]
  exact Option.or_none

/-- Of a list with different keys the only cell with the key is removed. -/
theorem getattr_delattr_self {k : Text} {l : AttrList} (nodup : (attrKeys l).Nodup) :
    getattr k (delattr k l) = none := by
  induction l with
  | nil => rfl
  | cons cell rest ih =>
      rcases cell with ⟨key, val⟩
      rw [attrKeys, List.map_cons, List.nodup_cons] at nodup
      rw [delattr]
      split
      · next same =>
          rw [← Option.not_isSome_iff_eq_none, getattr_isSome_iff, ← same]
          exact nodup.1
      · next other => rw [getattr, if_neg other, ih nodup.2]

/-- Setting an attribute keeps the keys different. -/
theorem nodup_setattr {k : Text} {v : Option Text} {l : AttrList} (nodup : (attrKeys l).Nodup) :
    (attrKeys (setattr k v l)).Nodup := by
  cases v with
  | none =>
      refine List.Sublist.nodup ?_ nodup
      apply List.Sublist.map _
      change (delattr k l).Sublist l
      induction l with
      | nil => exact List.Sublist.refl _
      | cons cell rest ih =>
          rcases cell with ⟨key, val⟩
          rw [attrKeys, List.map_cons, List.nodup_cons] at nodup
          rw [delattr]
          split
          · exact List.sublist_cons_self ..
          · exact (ih nodup.2).cons_cons _
  | some v =>
      by_cases present : k ∈ attrKeys l
      · have isSome : (getattr k l).isSome := getattr_isSome_iff.mpr present
        simp only [setattr, isSome, if_true, attrKeys_changeattr]
        exact nodup
      · rw [setattr_of_notMem present]
        exact List.nodup_cons.mpr ⟨present, nodup⟩

end Xwbot
