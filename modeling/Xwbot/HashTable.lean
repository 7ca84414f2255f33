import Xwbot.AttrList
import Xwbot.CellList
import Xwbot.Fault

/-!
# The hash table

`x_utils.c` keeps pairs of strings in 64 lists.  A key is looked up in the list
that its hash selects, so what the hash function is does not matter to a reader:
the table behaves as a map.
-/

namespace Xwbot

/-- `HTABLESIZE`. -/
def htablesize : Nat := 64

/-- The sign extension of a `char` to 32 bits. -/
def signExtend (c : Byte) : Nat :=
  if isHigh c then c.toNat + 0xFFFFFF00 else c.toNat

/-- One turn of the loop of `ht_hash`, on 32-bit numbers. -/
def hashStep (i : Nat) (c : Byte) : Nat :=
  ((i * 2 % 2 ^ 32) ||| (i / 2 ^ 15)) ^^^ signExtend c

/-- `ht_hash`. -/
def htHash (key : Text) : Fin htablesize :=
  ⟨key.foldl hashStep 0 % htablesize, Nat.mod_lt _ (by decide)⟩

/-- `struct ht_cell *[HTABLESIZE]`. -/
abbrev HashTable := Fin htablesize → AttrList

namespace HashTable

/-- A table without pairs. -/
def empty : HashTable :=
  fun _ => []

/-- `ht_get`. -/
def htGet (key : Text) (hashtable : HashTable) : Option Text :=
  getattr key (hashtable (htHash key))

/-- `ht_set`. -/
def htSet (key val : Text) (hashtable : HashTable) : HashTable :=
  Function.update hashtable (htHash key) (setattr key (some val) (hashtable (htHash key)))

@[simp]
theorem htGet_empty (key : Text) : empty.htGet key = none :=
  rfl

/-- The table is a map. -/
theorem htGet_htSet {key key' val : Text} {hashtable : HashTable} :
    (hashtable.htSet key val).htGet key' =
      if key' = key then some val else hashtable.htGet key' := by
  unfold htGet htSet
  by_cases same : key' = key
  · rw [same, Function.update_self, getattr_setattr]
  · rw [if_neg same]
    by_cases bucket : htHash key' = htHash key
    · rw [bucket, Function.update_self, getattr_setattr, if_neg same]
    · rw [Function.update_of_ne bucket]

end HashTable

/-! ## Tables of pointers -/

/-- The size of the buffer of `ht_lowcase_get`. -/
def lowcaseBuf : Nat := 512

/-- The copy that `ht_lowcase_get` makes of a key. -/
def lowcase (key : Text) : Text :=
  key.map toLower

/-- A key that is stored where a lookup up to letter case goes to find it. -/
def WellHashed (key : Text) : Prop :=
  htHash key = htHash (lowcase key)

instance (key : Text) : Decidable (WellHashed key) :=
  inferInstanceAs (Decidable (htHash key = htHash (lowcase key)))

universe u

variable {α : Type u}

/-- A table whose values are pointers. -/
abbrev Table (α : Type u) := Fin htablesize → List (Text × α)

namespace Table

/-- A table that was filled with zeros. -/
def empty : Table α :=
  fun _ => []

/-- `ht_get`, with the cell that `ht_get_cell` finds. -/
def htGet (key : Text) (hashtable : Table α) : Option α :=
  (hashtable (htHash key)).lookup key

/-- The loop of `ht_lowcase_get`. -/
def lowcaseFind (buf : Text) (hashtable : Table α) : Option α :=
  ((hashtable (htHash buf)).find? fun p => eqText p.1 buf).map Prod.snd

/-- `ht_lowcase_get`. -/
def htLowcaseGet (key : Text) (hashtable : Table α) : Except Fault (Option α) :=
  if lowcaseBuf ≤ key.length then .error .overflow
  else .ok (hashtable.lowcaseFind (lowcase key))

/-- The branch of `ht_set` that finds the key. -/
def changeVal (key : Text) (val : α) : List (Text × α) → List (Text × α)
  | [] => []
  | p :: rest => if p.1 = key then (key, val) :: rest else p :: changeVal key val rest

/-- `ht_set`; a new cell is the first of its list. -/
def htSet (key : Text) (val : α) (hashtable : Table α) : Table α :=
  Function.update hashtable (htHash key) <|
    if (hashtable.htGet key).isSome then changeVal key val (hashtable (htHash key))
    else (key, val) :: hashtable (htHash key)

/-- `ht_del`: the first cell of the key is taken out. -/
def htDel (key : Text) (hashtable : Table α) : Table α :=
  Function.update hashtable (htHash key) <|
    (hashtable (htHash key)).eraseP fun p => p.1 = key

end Table

/-! ### Lookups up to letter case -/

@[simp]
theorem lowcase_lowcase (key : Text) : lowcase (lowcase key) = lowcase key := by
  have once : ∀ c : Byte, toLower (toLower c) = toLower c := by decide +kernel
  simp [lowcase, once]

theorem eqText_lowcase {key key' : Text} :
    eqText key (lowcase key') = true ↔ lowcase key = lowcase key' := by
  have twice := lowcase_lowcase key'
  unfold lowcase at twice
  simp [eqText, lowcase, twice]

theorem htHash_ne_of_not_wellHashed {key key' : Text} (bad : ¬WellHashed key)
    (same : lowcase key = lowcase key') : htHash key ≠ htHash (lowcase key') := by
  intro hash
  apply bad
  rw [WellHashed, same, hash]

namespace Table

variable {key key' : Text} {val : α} {hashtable : Table α}

@[simp]
theorem htGet_empty : (empty : Table α).htGet key = none :=
  rfl

@[simp]
theorem lowcaseFind_empty : (empty : Table α).lowcaseFind key = none :=
  rfl

@[simp]
theorem htDel_empty : (empty : Table α).htDel key = empty :=
  Function.update_eq_self _ _

theorem lookup_changeVal {cells : List (Text × α)} :
    (changeVal key val cells).lookup key' =
      if key' = key ∧ (cells.lookup key).isSome then some val else cells.lookup key' := by
  induction cells with
  | nil => simp [changeVal]
  | cons p rest ih =>
      obtain ⟨k, v⟩ := p
      by_cases here : k = key
      · subst here
        by_cases same : key' = k
        · simp [changeVal, List.lookup, same]
        · simp [changeVal, List.lookup, same, beq_false_of_ne same]
      · have there : (key == k) = false := beq_false_of_ne (Ne.symm here)
        by_cases same : key' = key
        · subst same
          have behind : ((k, v) :: rest).lookup key' = rest.lookup key' := by
            simp [List.lookup, there]
          rw [behind, ← ih]
          simp [changeVal, List.lookup, here, there]
        · by_cases first : key' = k <;> simp [changeVal, List.lookup, here, first, same, ih]

theorem htGet_htSet :
    (hashtable.htSet key val).htGet key' =
      if key' = key then some val else hashtable.htGet key' := by
  unfold htSet
  by_cases bucket : htHash key' = htHash key
  · rw [htGet, bucket, Function.update_self, htGet, htGet, bucket]
    split
    · next present =>
        rw [lookup_changeVal]
        simp [present]
    · by_cases same : key' = key
      · simp [List.lookup, same]
      · simp [List.lookup, same, beq_false_of_ne same]
  · have other : key' ≠ key := fun same => bucket (by rw [same])
    rw [htGet, Function.update_of_ne bucket, if_neg other, htGet]

theorem changeVal_split {before behind : List (Text × α)} {old : α}
    (first : key ∉ before.map Prod.fst) :
    changeVal key val (before ++ (key, old) :: behind) = before ++ (key, val) :: behind := by
  induction before with
  | nil => simp [changeVal]
  | cons p rest ih =>
      rw [List.map_cons, List.mem_cons, not_or] at first
      rw [List.cons_append, changeVal, if_neg (Ne.symm first.1), ih first.2, List.cons_append]

theorem eraseP_of_absent {cells : List (Text × α)} (absent : cells.lookup key = none) :
    (cells.eraseP fun p => p.1 = key) = cells := by
  apply List.eraseP_of_forall_not
  intro p member same
  apply Links.PairList.notMem_keys absent
  rw [← of_decide_eq_true same]
  exact List.mem_map_of_mem member

theorem eraseP_split {before behind : List (Text × α)} {old : α}
    (first : key ∉ before.map Prod.fst) :
    ((before ++ (key, old) :: behind).eraseP fun p => p.1 = key) = before ++ behind := by
  rw [List.eraseP_append_right]
  · rw [List.eraseP_cons_of_pos (by simp)]
  · intro p member same
    apply first
    rw [← of_decide_eq_true same]
    exact List.mem_map_of_mem member

/-- A cell that is changed in place is seen by the lookups of its key only. -/
theorem find?_changeVal {buf : Text} {cells : List (Text × α)} (other : eqText key buf = false) :
    ((changeVal key val cells).find? fun p => eqText p.1 buf) =
      cells.find? fun p => eqText p.1 buf := by
  induction cells with
  | nil => rfl
  | cons p rest ih =>
      by_cases here : p.1 = key
      · simp [changeVal, here, other]
      · simp [changeVal, here, List.find?_cons, ih]

/-- The key of a stored pair is found up to letter case if it is stored where such a lookup
goes. -/
theorem lowcaseFind_isSome (good : WellHashed key) (present : (hashtable.htGet key).isSome) :
    (hashtable.lowcaseFind (lowcase key)).isSome := by
  unfold htGet at present
  rw [good] at present
  rw [lowcaseFind, Option.isSome_map, List.find?_isSome]
  obtain ⟨v, found⟩ := Option.isSome_iff_exists.mp present
  obtain ⟨before, behind, cells, -⟩ := List.lookup_eq_some_iff.mp found
  exact ⟨(key, v), by simp [cells], eqText_lowcase.mpr rfl⟩

/-- Storing a pair under a new key. -/
theorem lowcaseFind_htSet
    (new : hashtable.htGet key = none ∨ hashtable.lowcaseFind (lowcase key) = none) :
    (hashtable.htSet key val).lowcaseFind (lowcase key') =
      if WellHashed key ∧ lowcase key = lowcase key' then some val
      else hashtable.lowcaseFind (lowcase key') := by
  by_cases good : WellHashed key
  · -- then no pair has the key
    have absent : hashtable.htGet key = none := by
      rcases new with absent | hidden
      · exact absent
      · by_contra present
        have found := lowcaseFind_isSome good (Option.isSome_iff_ne_none.mpr present)
        rw [hidden] at found
        cases found
    unfold htSet lowcaseFind
    rw [absent, if_neg (by simp)]
    by_cases bucket : htHash (lowcase key') = htHash key
    · rw [bucket, Function.update_self, List.find?_cons]
      by_cases same : lowcase key = lowcase key'
      · simp [eqText_lowcase.mpr same, good, same]
      · have other : eqText key (lowcase key') = false :=
          Bool.eq_false_iff.mpr (mt eqText_lowcase.mp same)
        simp [other, same]
    · rw [Function.update_of_ne bucket, if_neg]
      rintro ⟨-, same⟩
      rw [← same] at bucket
      exact bucket good.symm
  · rw [if_neg fun both => good both.1]
    unfold htSet lowcaseFind
    by_cases bucket : htHash (lowcase key') = htHash key
    · have different : lowcase key ≠ lowcase key' :=
        fun same => htHash_ne_of_not_wellHashed good same bucket.symm
      have other : eqText key (lowcase key') = false :=
        Bool.eq_false_iff.mpr (mt eqText_lowcase.mp different)
      rw [bucket, Function.update_self]
      split
      · rw [find?_changeVal other]
      · rw [List.find?_cons, other]
    · rw [Function.update_of_ne bucket]

/-! ### Deleting a key -/

/-- No list holds a key twice. -/
def Distinct (hashtable : Table α) : Prop :=
  ∀ i, ((hashtable i).map Prod.fst).Nodup

theorem Distinct.empty : (empty : Table α).Distinct :=
  fun _ => List.nodup_nil

theorem map_fst_changeVal {cells : List (Text × α)} :
    (changeVal key val cells).map Prod.fst = cells.map Prod.fst := by
  induction cells with
  | nil => rfl
  | cons p rest ih =>
      by_cases here : p.1 = key
      · simp [changeVal, here]
      · simp [changeVal, here, ih]

theorem Distinct.htSet (distinct : hashtable.Distinct) : (hashtable.htSet key val).Distinct := by
  intro i
  unfold Table.htSet
  by_cases bucket : i = htHash key
  · rw [bucket, Function.update_self]
    split
    · rw [map_fst_changeVal]
      exact distinct _
    · next absent =>
        rw [List.map_cons, List.nodup_cons]
        exact ⟨Links.PairList.notMem_keys (Option.not_isSome_iff_eq_none.mp absent), distinct _⟩
  · rw [Function.update_of_ne bucket]
    exact distinct i

theorem Distinct.htDel (distinct : hashtable.Distinct) : (hashtable.htDel key).Distinct := by
  intro i
  unfold Table.htDel
  by_cases bucket : i = htHash key
  · rw [bucket, Function.update_self]
    exact (distinct _).sublist (List.eraseP_sublist.map Prod.fst)
  · rw [Function.update_of_ne bucket]
    exact distinct i

/-- The cell that is taken out is the only one of its key. -/
theorem lookup_eraseP {cells : List (Text × α)} (distinct : (cells.map Prod.fst).Nodup) :
    (cells.eraseP fun p => p.1 = key).lookup key' =
      if key' = key then none else cells.lookup key' := by
  induction cells with
  | nil => simp
  | cons p rest ih =>
      obtain ⟨k, v⟩ := p
      rw [List.map_cons, List.nodup_cons] at distinct
      by_cases here : k = key
      · subst here
        rw [List.eraseP_cons_of_pos (by simp)]
        by_cases same : key' = k
        · rw [if_pos same, same, List.lookup_eq_none_iff]
          intro p member
          have other : k ≠ p.1 := fun equal =>
            distinct.1 (List.mem_map.mpr ⟨p, member, equal.symm⟩)
          simpa using other
        · simp [List.lookup, same, beq_false_of_ne same]
      · rw [List.eraseP_cons_of_neg (by simpa using here)]
        by_cases first : key' = k
        · simp [List.lookup, first, here]
        · simp only [List.lookup, beq_false_of_ne first, ih distinct.2]

theorem htGet_htDel (distinct : hashtable.Distinct) :
    (hashtable.htDel key).htGet key' = if key' = key then none else hashtable.htGet key' := by
  unfold htDel
  by_cases bucket : htHash key' = htHash key
  · rw [htGet, bucket, Function.update_self, lookup_eraseP (distinct _), htGet, bucket]
  · have other : key' ≠ key := fun same => bucket (by rw [same])
    rw [htGet, Function.update_of_ne bucket, if_neg other, htGet]

/-! ### The spellings of a key -/

/-- Every pair is in the list that the hash of its key selects. -/
def Placed (hashtable : Table α) : Prop :=
  ∀ i, ∀ p ∈ hashtable i, htHash p.1 = i

theorem Placed.empty : (empty : Table α).Placed := by
  intro i p member
  cases member

theorem Placed.htSet (placed : hashtable.Placed) : (hashtable.htSet key val).Placed := by
  intro i p member
  unfold Table.htSet at member
  by_cases bucket : i = htHash key
  · rw [bucket, Function.update_self] at member
    have either : p.1 = key ∨ htHash p.1 = htHash key := by
      split at member
      · have inside : p.1 ∈ (changeVal key val (hashtable (htHash key))).map Prod.fst :=
          List.mem_map_of_mem member
        rw [map_fst_changeVal] at inside
        rcases List.mem_map.mp inside with ⟨q, old, same⟩
        exact .inr (same ▸ placed _ q old)
      · rcases List.mem_cons.mp member with rfl | old
        · exact .inl rfl
        · exact .inr (placed _ p old)
    rw [bucket]
    rcases either with same | same
    · rw [same]
    · exact same
  · rw [Function.update_of_ne bucket] at member
    exact placed i p member

/-- The pairs whose keys are the name up to letter case, as far as such a lookup comes to
them. -/
def spellings (hashtable : Table α) (name : Text) : List (Text × α) :=
  (hashtable (htHash (lowcase name))).filter fun p => eqText p.1 (lowcase name)

/-- A lookup returns the first of them. -/
theorem lowcaseFind_eq_spellings (hashtable : Table α) (name : Text) :
    hashtable.lowcaseFind (lowcase name) = (hashtable.spellings name).head?.map Prod.snd := by
  rw [lowcaseFind, spellings, List.head?_filter]

theorem lowcase_of_mem_spellings {p : Text × α} {name : Text}
    (member : p ∈ hashtable.spellings name) : lowcase p.1 = lowcase name :=
  eqText_lowcase.mp (List.mem_filter.mp member).2

theorem Distinct.spellings (distinct : hashtable.Distinct) (name : Text) :
    ((hashtable.spellings name).map Prod.fst).Nodup :=
  (distinct _).sublist (List.filter_sublist.map Prod.fst)

/-- Taking out the cell of a key takes out all that have it. -/
theorem eraseP_eq_filter {cells : List (Text × α)} (distinct : (cells.map Prod.fst).Nodup) :
    (cells.eraseP fun p => p.1 = key) = cells.filter fun p => p.1 ≠ key := by
  induction cells with
  | nil => rfl
  | cons p rest ih =>
      rw [List.map_cons, List.nodup_cons] at distinct
      by_cases here : p.1 = key
      · rw [List.eraseP_cons_of_pos (by simpa using here), List.filter_cons_of_neg
          (by simpa using here)]
        symm
        rw [List.filter_eq_self]
        intro q member
        have other : q.1 ≠ key := by
          intro same
          apply distinct.1
          rw [here, ← same]
          exact List.mem_map_of_mem member
        simpa using other
      · rw [List.eraseP_cons_of_neg (by simpa using here), List.filter_cons_of_pos
          (by simpa using here),
          ih distinct.2]

/-- **Deleting a key** takes its spelling away. -/
theorem spellings_htDel (distinct : hashtable.Distinct) (placed : hashtable.Placed) (name : Text) :
    (hashtable.htDel key).spellings name =
      (hashtable.spellings name).filter fun p => p.1 ≠ key := by
  unfold spellings htDel
  by_cases bucket : htHash (lowcase name) = htHash key
  · rw [bucket, Function.update_self, eraseP_eq_filter (distinct _), List.filter_filter,
      List.filter_filter]
    congr 1
    funext p
    exact Bool.and_comm ..
  · rw [Function.update_of_ne bucket]
    symm
    rw [List.filter_eq_self]
    intro p member
    have other : p.1 ≠ key := by
      intro same
      apply bucket
      rw [← same]
      exact (placed _ p (List.mem_filter.mp member).1).symm
    simpa using other

end Table

end Xwbot
