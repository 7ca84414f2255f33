import Xwbot.CellList
import Xwbot.HashTable
import Xwbot.Runs

/-!
# The cells of the hash table

The functions of `x_utils.c` on a table of pointers, with the cells of its lists and the iterator
over them.  They do to the cells what the functions of the same names do to the lists of pairs.
-/

namespace Xwbot

open Links Runs

universe u

variable {α : Type u}

/-- `struct ht_cell *[HTABLESIZE]`.  A value is a pointer, which may be NULL. -/
abbrev HashCells (α : Type u) := Fin htablesize → PairList Text (Option α)

/-- A cell of one of the lists. -/
abbrev HtCell := Fin htablesize × Nat

/-- `struct ht_celliter`. -/
structure HtCellIter where
  index : Int
  ptr : Option HtCell
  deriving DecidableEq, Repr

namespace HashCells

/-- A table that was filled with zeros. -/
def zeroed : HashCells α :=
  fun _ => .empty

/-- `ht_get`. -/
def htGet (key : Text) (hashtable : HashCells α) : Except Fault (Option α) :=
  ((hashtable (htHash key)).lookup .freed .hang key).map Option.join

/-- `ht_set`. -/
def htSet (key : Text) (val : Option α) (hashtable : HashCells α) : Except Fault (HashCells α) :=
  ((hashtable (htHash key)).put .freed .hang key val).map
    (Function.update hashtable (htHash key))

/-- `ht_del`. -/
def htDel (key : Text) (hashtable : HashCells α) : Except Fault (HashCells α) :=
  ((hashtable (htHash key)).remove .freed .hang key).map
    (Function.update hashtable (htHash key))

/-- `hashtable[index]`. -/
def bucket (hashtable : HashCells α) (index : Int) : Except Fault (Option HtCell) :=
  if inside : 0 ≤ index ∧ index.toNat < htablesize then
    .ok ((hashtable ⟨index.toNat, inside.2⟩).cells.head.map fun p => (⟨index.toNat, inside.2⟩, p))
  else .error .overread

/-- `ht_next`: the next cell, and the iterator behind it. -/
def htNext (ci : HtCellIter) (hashtable : HashCells α) :
    Except Fault (Option HtCell × HtCellIter) :=
  match ci.ptr with
  | some (i, p) =>
      if (hashtable i).cells.allocated p then
        .ok (some (i, p), { ci with ptr := ((hashtable i).cells.next p).map fun p => (i, p) })
      else .error .freed
  | none =>
      if htablesize ≤ ci.index + 1 then .ok (none, { ci with index := ci.index + 1 })
      else hashtable.bucket (ci.index + 1) >>= fun ptr => htNext ⟨ci.index + 1, ptr⟩ hashtable
  termination_by (htablesize - ci.index).toNat
  decreasing_by omega

/-- `ht_nullifyiter`, which returns the first cell. -/
def htNullifyiter (hashtable : HashCells α) : Except Fault (Option HtCell × HtCellIter) :=
  hashtable.htNext ⟨-1, none⟩

/-- What so many calls of `ht_next` return. -/
def visit (hashtable : HashCells α) : Nat → HtCellIter → Except Fault (List (Option HtCell))
  | 0, _ => .ok []
  | n + 1, ci => do
      let (cell, ci) ← hashtable.htNext ci
      let later ← visit hashtable n ci
      .ok (cell :: later)

/-- What `ht_nullifyiter` and then so many calls of `ht_next` return. -/
def iterate (hashtable : HashCells α) (n : Nat) : Except Fault (List (Option HtCell)) := do
  let (cell, ci) ← hashtable.htNullifyiter
  let later ← hashtable.visit n ci
  .ok (cell :: later)

/-- The key and the value in a cell. -/
def pairAt (hashtable : HashCells α) (cell : HtCell) : Option (Text × Option α) :=
  ((hashtable cell.1).cells.key cell.2).bind fun key =>
    ((hashtable cell.1).val cell.2).map fun val => (key, val)

/-! ## The cells and the pairs -/

/-- Each list of cells represents a list of pairs. -/
def Represents (hashtable : HashCells α) (pairs : Table (Option α)) : Prop :=
  ∀ i, (hashtable i).Represents (pairs i)

/-- The pairs in the cells of one list. -/
theorem pairAt_of_holds {hashtable : HashCells α} {i : Fin htablesize} {cells : List Nat}
    {pairs : List (Text × Option α)} (holds : (hashtable i).Holds cells pairs) :
    cells.map (fun p => hashtable.pairAt (i, p)) = pairs.map some := by
  have keys := holds.keys.keys
  have vals := holds.vals
  clear holds
  induction cells generalizing pairs with
  | nil =>
      cases pairs with
      | nil => rfl
      | cons pair later => cases vals
  | cons p behind ih =>
      cases pairs with
      | nil => cases vals
      | cons pair later =>
          simp only [List.map_cons, List.cons.injEq] at keys vals
          rw [List.map_cons, List.map_cons, ih keys.2 vals.2, pairAt, keys.1, vals.1]
          rfl

section Representation

variable {hashtable : HashCells α} {pairs : Table (Option α)} {key : Text}

theorem represents_zeroed : (zeroed : HashCells α).Represents Table.empty :=
  fun _ => PairList.represents_empty

theorem Represents.update (represents : hashtable.Represents pairs) {i : Fin htablesize}
    {l : PairList Text (Option α)} {cells : List (Text × Option α)} (holds : l.Represents cells) :
    HashCells.Represents (Function.update hashtable i l) (Function.update pairs i cells) := by
  intro j
  by_cases same : j = i
  · subst same
    rw [Function.update_self, Function.update_self]
    exact holds
  · rw [Function.update_of_ne same, Function.update_of_ne same]
    exact represents j

theorem htGet_of_represents (represents : hashtable.Represents pairs) (key : Text) :
    hashtable.htGet key = .ok (pairs.htGet key).join := by
  rw [htGet, (represents _).lookup Fault.freed .hang]
  rfl

theorem htSet_of_represents (represents : hashtable.Represents pairs) (key : Text)
    (val : Option α) : ∃ hashtable' : HashCells α,
      hashtable.htSet key val = .ok hashtable' ∧ hashtable'.Represents (pairs.htSet key val) := by
  unfold htSet Table.htSet Table.htGet
  cases found : (pairs (htHash key)).lookup key with
  | none =>
      rcases (represents (htHash key)).put_new Fault.freed .hang (v := val) found
        with ⟨l, result, holds⟩
      refine ⟨Function.update hashtable (htHash key) l, by rw [result]; rfl, ?_⟩
      rw [Option.isSome_none, if_neg Bool.false_ne_true]
      exact represents.update holds
  | some old =>
      rcases List.lookup_eq_some_iff.mp found with ⟨before, behind, split, passed⟩
      have first := PairList.first_key passed
      have there := represents (htHash key)
      rw [split] at there
      rcases there.put_old Fault.freed .hang val first with ⟨l, result, holds⟩
      refine ⟨Function.update hashtable (htHash key) l, by rw [result]; rfl, ?_⟩
      rw [Option.isSome_some, if_pos rfl, split, Table.changeVal_split first]
      exact represents.update holds

theorem htDel_of_represents (represents : hashtable.Represents pairs) (key : Text) :
    ∃ hashtable' : HashCells α,
      hashtable.htDel key = .ok hashtable' ∧ hashtable'.Represents (pairs.htDel key) := by
  unfold htDel Table.htDel
  cases found : (pairs (htHash key)).lookup key with
  | none =>
      have result := (represents (htHash key)).remove_none Fault.freed .hang found
      refine ⟨Function.update hashtable (htHash key) (hashtable (htHash key)),
        by rw [result]; rfl, ?_⟩
      rw [Table.eraseP_of_absent found]
      exact represents.update (represents _)
  | some old =>
      rcases List.lookup_eq_some_iff.mp found with ⟨before, behind, split, passed⟩
      have first := PairList.first_key passed
      have there := represents (htHash key)
      rw [split] at there
      rcases there.remove Fault.freed .hang first with ⟨l, result, holds⟩
      refine ⟨Function.update hashtable (htHash key) l, by rw [result]; rfl, ?_⟩
      rw [split, Table.eraseP_split first]
      exact represents.update holds

end Representation

/-! ## The iterator -/

/-- The iterator has begun `started` lists, and these cells of list `i` are before it. -/
structure Ahead (hashtable : HashCells α) (ci : HtCellIter) (started : Nat) (i : Fin htablesize)
    (behind : List Nat) : Prop where
  index : ci.index + 1 = started
  inTable : started ≤ htablesize
  ptr : ci.ptr = behind.head?.map fun p => (i, p)
  path : Path (hashtable i).cells.next behind.head? behind none
  allocated : ∀ p ∈ behind, (hashtable i).cells.allocated p = true

/-- The cells that are left to visit. -/
def rest (cells : Fin htablesize → List Nat) (started : Nat) (i : Fin htablesize)
    (behind : List Nat) : List HtCell :=
  behind.map (fun p => (i, p)) ++
    ((List.finRange htablesize).drop started).flatMap fun i => (cells i).map fun p => (i, p)

section Iteration

variable {hashtable : HashCells α} {cells : Fin htablesize → List Nat} {ci : HtCellIter}
  {started : Nat} {i : Fin htablesize} {behind : List Nat}

/-- A list that has not been begun is the next one. -/
theorem rest_of_lt (left : started < htablesize) :
    rest cells started i [] = rest cells (started + 1) ⟨started, left⟩ (cells ⟨started, left⟩) := by
  have first : (List.finRange htablesize).drop started =
      ⟨started, left⟩ :: (List.finRange htablesize).drop (started + 1) := by
    rw [List.drop_eq_getElem_cons (by simpa using left), List.getElem_finRange]
    rfl
  rw [rest, rest, first, List.flatMap_cons, List.map_nil, List.nil_append]

/-- The call moves on in the list that has been begun. -/
theorem htNext_of_ahead_cons {p : Nat} {back : List Nat}
    (ahead : Ahead hashtable ci started i (p :: back)) :
    (rest cells started i (p :: back) = [] →
      ∃ ci', hashtable.htNext ci = .ok (none, ci')) ∧
    ∀ cell later, rest cells started i (p :: back) = cell :: later →
      ∃ ci' started' i' behind', hashtable.htNext ci = .ok (some cell, ci') ∧
        Ahead hashtable ci' started' i' behind' ∧ rest cells started' i' behind' = later := by
  refine ⟨fun nothing => ?_, fun cell later all => ?_⟩
  · cases nothing
  · rw [rest, List.map_cons, List.cons_append, List.cons.injEq] at all
    rcases all with ⟨rfl, rfl⟩
    have start : (hashtable i).cells.next p = back.head? := by
      rw [ahead.path.2.start, Option.or_none]
    have alive := List.forall_mem_cons.mp ahead.allocated
    refine ⟨{ ci with ptr := back.head?.map fun p => (i, p) }, started, i, back, ?_, ?_, rfl⟩
    · have ptr : ci.ptr = some (i, p) := ahead.ptr
      rw [htNext, ptr]
      simp only
      rw [if_pos alive.1, start]
    · constructor
      case index => exact ahead.index
      case inTable => exact ahead.inTable
      case ptr => rfl
      case path =>
        rw [← start]
        exact ahead.path.2
      case allocated => exact alive.2

/-- **One call of `ht_next`** returns the first of the cells before the iterator, and NULL if there
is none.  The induction is on the lists that have not been begun. -/
theorem htNext_of_ahead
    (holds : ∀ i, ∃ keys, (hashtable i).cells.Holds (cells i) keys)
    (ahead : Ahead hashtable ci started i behind) :
    (rest cells started i behind = [] →
      ∃ ci', hashtable.htNext ci = .ok (none, ci')) ∧
    ∀ cell later, rest cells started i behind = cell :: later →
      ∃ ci' started' i' behind', hashtable.htNext ci = .ok (some cell, ci') ∧
        Ahead hashtable ci' started' i' behind' ∧ rest cells started' i' behind' = later := by
  induction left : htablesize - started generalizing ci started i behind with
  | zero =>
      cases behind with
      | cons p back => exact htNext_of_ahead_cons ahead
      | nil =>
          have ended : started = htablesize := by
            have inTable := ahead.inTable
            omega
          have nothing : rest cells started i [] = [] := by
            rw [rest, ended, List.drop_of_length_le (by simp)]
            rfl
          refine ⟨fun _ => ⟨{ ci with index := ci.index + 1 }, ?_⟩, ?_⟩
          · have index := ahead.index
            have ptr : ci.ptr = none := ahead.ptr
            rw [htNext, ptr]
            simp only
            rw [if_pos (by rw [index, ended])]
          · intro cell later some_left
            rw [nothing] at some_left
            cases some_left
  | succ n ih =>
      cases behind with
      | cons p back => exact htNext_of_ahead_cons ahead
      | nil =>
          have room : started < htablesize := by omega
          rcases holds ⟨started, room⟩ with ⟨keys, list⟩
          have index := ahead.index
          have ptr : ci.ptr = none := ahead.ptr
          have goesOn : hashtable.htNext ci = hashtable.htNext
              ⟨ci.index + 1, (cells ⟨started, room⟩).head?.map fun p => (⟨started, room⟩, p)⟩ := by
            have inside : 0 ≤ ci.index + 1 ∧ (ci.index + 1).toNat < htablesize := by omega
            have place : (⟨(ci.index + 1).toNat, inside.2⟩ : Fin htablesize) = ⟨started, room⟩ :=
              Fin.ext (by simp [index])
            rw [htNext, ptr]
            simp only
            rw [if_neg (by omega), bucket, dif_pos inside, ok_bind, place, list.head_eq]
          rw [goesOn, rest_of_lt room]
          apply ih
          · constructor
            case index => simp [index]
            case inTable => exact room
            case ptr => rfl
            case path =>
              rw [← list.head_eq]
              exact list.path
            case allocated => exact list.allocated
          · omega

/-- So many calls return the cells before the iterator, and then NULL. -/
theorem visit_of_ahead (holds : ∀ i, ∃ keys, (hashtable i).cells.Holds (cells i) keys)
    {visited : List HtCell} (ahead : Ahead hashtable ci started i behind)
    (all : rest cells started i behind = visited) :
    hashtable.visit (visited.length + 1) ci = .ok (visited.map some ++ [none]) := by
  induction visited generalizing ci started i behind with
  | nil =>
      rcases (htNext_of_ahead holds ahead).1 all with ⟨ci', result⟩
      rw [List.length_nil, visit, result]
      rfl
  | cons cell later ih =>
      rcases (htNext_of_ahead holds ahead).2 cell later all with
        ⟨ci', started', i', behind', result, ahead', all'⟩
      rw [List.length_cons, visit, result, ok_bind]
      simp only
      rw [ih ahead' all']
      rfl

end Iteration

end HashCells

/-! ## The pairs of a table -/

namespace Table

variable {hashtable : Table α} {key : Text} {val : α}

theorem Placed.htDel (placed : hashtable.Placed) : (hashtable.htDel key).Placed := by
  intro i p member
  unfold Table.htDel at member
  by_cases bucket : i = htHash key
  · rw [bucket, Function.update_self] at member
    exact bucket ▸ placed _ p (List.mem_of_mem_eraseP member)
  · rw [Function.update_of_ne bucket] at member
    exact placed i p member

/-- The pairs of all lists. -/
def pairs (hashtable : Table α) : List (Text × α) :=
  (List.finRange htablesize).flatMap hashtable

theorem mem_pairs_iff (distinct : hashtable.Distinct) (placed : hashtable.Placed) :
    (key, val) ∈ hashtable.pairs ↔ hashtable.htGet key = some val := by
  have within : (key, val) ∈ hashtable.pairs ↔ (key, val) ∈ hashtable (htHash key) := by
    simp only [pairs, List.mem_flatMap, List.mem_finRange, true_and]
    constructor
    · rintro ⟨i, member⟩
      have place : htHash key = i := placed i _ member
      rw [place]
      exact member
    · intro member
      exact ⟨htHash key, member⟩
  rw [within, htGet]
  constructor
  · intro member
    rcases List.append_of_mem member with ⟨before, behind, split⟩
    have nodup := distinct (htHash key)
    rw [split, List.map_append, List.map_cons, List.nodup_append] at nodup
    rw [List.lookup_eq_some_iff]
    refine ⟨before, behind, split, fun p earlier => ?_⟩
    have other := nodup.2.2 p.1 (List.mem_map_of_mem earlier) key List.mem_cons_self
    simpa using Ne.symm other
  · intro found
    rcases List.lookup_eq_some_iff.mp found with ⟨before, behind, split, -⟩
    rw [split]
    exact List.mem_append_right _ List.mem_cons_self

theorem nodup_pairs (distinct : hashtable.Distinct) (placed : hashtable.Placed) :
    (hashtable.pairs.map Prod.fst).Nodup := by
  rw [pairs, List.map_flatMap, List.nodup_flatMap]
  refine ⟨fun i _ => distinct i, ?_⟩
  apply (List.nodup_finRange htablesize).imp
  intro i j apart key first second
  rcases List.mem_map.mp first with ⟨p, inFirst, rfl⟩
  rcases List.mem_map.mp second with ⟨q, inSecond, same⟩
  apply apart
  rw [← placed i p inFirst, ← placed j q inSecond, same]

end Table

/-! ## Runs -/

/-- The operations on one table. -/
inductive HtOp (α : Type u) where
  /-- `ht_set` -/
  | set (key : Text) (val : Option α)
  /-- `ht_del` -/
  | del (key : Text)
  deriving DecidableEq, Repr

namespace HtOp

/-- One operation on the cells. -/
def step (hashtable : HashCells α) : HtOp α → Except Fault (HashCells α)
  | set key val => hashtable.htSet key val
  | del key => hashtable.htDel key

/-- What the operation does to the pairs. -/
def onPairs (hashtable : Table (Option α)) : HtOp α → Table (Option α)
  | set key val => hashtable.htSet key val
  | del key => hashtable.htDel key

/-- The value of the key after the operation, if it is in the table. -/
def value (k : Text) (old : Option (Option α)) : HtOp α → Option (Option α)
  | set key val => if k = key then some val else old
  | del key => if k = key then none else old

/-- The value that was set last for the key, unless it was deleted since. -/
def latest (k : Text) (ops : List (HtOp α)) : Option (Option α) :=
  ops.foldl (value k) none

/-- The pairs of a table that operations led to. -/
structure Reached (ops : List (HtOp α)) (pairs : Table (Option α)) : Prop where
  distinct : pairs.Distinct
  placed : pairs.Placed
  values : ∀ k, pairs.htGet k = latest k ops

theorem Reached.concat {ops : List (HtOp α)} {pairs : Table (Option α)}
    (reached : Reached ops pairs)
    (op : HtOp α) : Reached (ops ++ [op]) (op.onPairs pairs) := by
  have later : ∀ k, latest k (ops ++ [op]) = op.value k (pairs.htGet k) := by
    intro k
    rw [latest, List.foldl_concat, reached.values, latest]
  cases op with
  | set key val =>
      exact ⟨reached.distinct.htSet, reached.placed.htSet, fun k =>
        Table.htGet_htSet.trans (later k).symm⟩
  | del key =>
      exact ⟨reached.distinct.htDel, reached.placed.htDel, fun k =>
        (Table.htGet_htDel reached.distinct).trans (later k).symm⟩

/-- **One operation** on the cells is the operation on the pairs. -/
theorem step_of_represents {hashtable : HashCells α} {pairs : Table (Option α)}
    (represents : hashtable.Represents pairs) (op : HtOp α) :
    ∃ hashtable' : HashCells α,
      step hashtable op = .ok hashtable' ∧ hashtable'.Represents (op.onPairs pairs) := by
  cases op with
  | set key val => exact HashCells.htSet_of_represents represents key val
  | del key => exact HashCells.htDel_of_represents represents key

/-- **A run** from a table of zeros. -/
theorem run_spec (ops : List (HtOp α)) :
    ∃ hashtable pairs, run step HashCells.zeroed ops = .ok hashtable ∧
      hashtable.Represents pairs ∧ Reached ops pairs := by
  induction ops using List.reverseRecOn with
  | nil => exact ⟨_, _, rfl, HashCells.represents_zeroed, Table.Distinct.empty, Table.Placed.empty,
      fun _ => rfl⟩
  | append_singleton ops op ih =>
      rcases ih with ⟨hashtable, pairs, result, represents, reached⟩
      rcases step_of_represents represents op with ⟨hashtable', next, represents'⟩
      refine ⟨hashtable', op.onPairs pairs, ?_, represents', reached.concat op⟩
      rw [run_concat, result]
      exact next

end HtOp

namespace HashCells

/-- **The iteration** over cells that represent pairs. -/
theorem iterate_of_represents {hashtable : HashCells α} {pairs : Table (Option α)}
    (represents : hashtable.Represents pairs) :
    ∃ visited : List HtCell,
      hashtable.iterate visited.length = .ok (visited.map some ++ [none]) ∧
        visited.map hashtable.pairAt = pairs.pairs.map some := by
  choose cells holds using represents
  have ahead : Ahead hashtable ⟨-1, none⟩ 0 ⟨0, by decide⟩ [] :=
    ⟨rfl, Nat.zero_le _, rfl, rfl, by simp⟩
  refine ⟨rest cells 0 ⟨0, by decide⟩ [], ?_, ?_⟩
  · exact visit_of_ahead (fun i => ⟨_, (holds i).keys⟩) ahead rfl
  · have inList : ∀ i, (cells i).map (fun p => hashtable.pairAt (i, p)) = (pairs i).map some := by
      intro i
      exact pairAt_of_holds (holds i)
    rw [rest, List.map_nil, List.nil_append, List.drop_zero, Table.pairs, List.map_flatMap,
      List.map_flatMap]
    congr 1
    funext i
    rw [List.map_map]
    exact inList i

end HashCells

/-- **The hash table is a map, and the iteration is exact.**  After any operations the table
returns for each key the value set last, if it was not deleted since, and NULL otherwise.  The
iterator visits cells with the pairs that are there, each key once, and then returns NULL. -/
theorem hashtable_refines_map (ops : List (HtOp α)) :
    ∃ hashtable, run HtOp.step HashCells.zeroed ops = .ok hashtable ∧
      (∀ key, hashtable.htGet key = .ok (HtOp.latest key ops).join) ∧
      ∃ (visited : List HtCell) (pairs : List (Text × Option α)),
        hashtable.iterate visited.length = .ok (visited.map some ++ [none]) ∧
        visited.map hashtable.pairAt = pairs.map some ∧
        (pairs.map Prod.fst).Nodup ∧
        ∀ key val, (key, val) ∈ pairs ↔ HtOp.latest key ops = some val := by
  rcases HtOp.run_spec ops with ⟨hashtable, pairs, result, represents, reached⟩
  rcases HashCells.iterate_of_represents represents with ⟨visited, visits, inCells⟩
  refine ⟨hashtable, result, fun key => ?_, visited, pairs.pairs, visits, inCells,
    Table.nodup_pairs reached.distinct reached.placed, fun key val => ?_⟩
  · rw [HashCells.htGet_of_represents represents, reached.values]
  · rw [Table.mem_pairs_iff reached.distinct reached.placed, reached.values]

end Xwbot
