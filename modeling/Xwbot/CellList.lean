import Xwbot.Links

/-!
# Lists behind an embedded cell

The head of such a list is a cell that is embedded in its owner and has no key of its own; new
cells are put behind it.  Cells are numbered, and those from `cells` on have not been allocated
yet.  Nothing here depends on what the keys are.
-/

namespace Xwbot.Links

universe u v w

/-- The cells of a list. -/
structure CellList (κ : Type u) where
  /-- The field `next` of the embedded cell. -/
  head : Option Nat
  /-- A cell that is given up loses its key. -/
  key : Nat → Option κ
  next : Nat → Option Nat
  allocated : Nat → Bool
  cells : Nat
  allocated_lt : ∀ c, allocated c = true → c < cells

namespace CellList

variable {κ : Type u}

/-- A list without cells. -/
def empty : CellList κ where
  head := none
  key _ := none
  next _ := none
  allocated _ := false
  cells := 0
  allocated_lt _ alive := by cases alive

/-- The keys on the list, from the head on. -/
def toList (l : CellList κ) : List κ :=
  (chain l.next l.cells l.head).filterMap l.key

/-- A new cell behind the head. -/
@[simps -fullyApplied]
def push (l : CellList κ) (k : κ) : CellList κ where
  head := some l.cells
  key := Function.update l.key l.cells (some k)
  next := Function.update l.next l.cells l.head
  allocated := Function.update l.allocated l.cells true
  cells := l.cells + 1
  allocated_lt c alive := by
    by_cases new : c = l.cells
    · exact new ▸ Nat.lt_succ_self l.cells
    · rw [Function.update_of_ne new] at alive
      exact (l.allocated_lt c alive).trans (Nat.lt_succ_self l.cells)

/-- The link to a cell is moved to the one behind it, and the cell loses its key.  `prev` is the
cell before it, if that is not the head. -/
@[simps -fullyApplied]
def unlink (l : CellList κ) (prev : Option Nat) (p : Nat) : CellList κ :=
  { l with
    head := match prev with
      | none => l.next p
      | some _ => l.head
    next := match prev with
      | none => l.next
      | some prev => Function.update l.next prev (l.next p)
    key := Function.update l.key p none }

/-- A cell is given back. -/
@[simps -fullyApplied]
def free (l : CellList κ) (p : Nat) : CellList κ :=
  { l with
    allocated := Function.update l.allocated p false
    allocated_lt := by
      intro c alive
      by_cases same : c = p
      · rw [same, Function.update_self] at alive
        cases alive
      · rw [Function.update_of_ne same] at alive
        exact l.allocated_lt c alive }

/-- The walk to the first cell with a key: that cell and the one before it. -/
def find {ε : Type v} [DecidableEq κ] (freed endless : ε) (l : CellList κ) (k : κ) :
    Except ε (Option Nat × Option Nat) :=
  scan freed endless l.allocated (fun c => l.key c = some k) l.next l.cells none l.head

/-! ## What the cells represent -/

/-- These cells make up the list, and these are their keys. -/
structure Holds (l : CellList κ) (cells : List Nat) (keys : List κ) : Prop where
  path : Path l.next l.head cells none
  allocated : ∀ c ∈ cells, l.allocated c = true
  keys : cells.map l.key = keys.map some

namespace Holds

variable {l : CellList κ} {cells before behind : List Nat} {keys keysBefore keysBehind : List κ}
  {k : κ} {p : Nat}

theorem empty : (CellList.empty : CellList κ).Holds [] [] :=
  ⟨rfl, by simp, rfl⟩

theorem nodup (holds : l.Holds cells keys) : cells.Nodup :=
  holds.path.nodup

theorem length_eq (holds : l.Holds cells keys) : cells.length = keys.length := by
  simpa using congrArg List.length holds.keys

/-- A list is no longer than the number of cells. -/
theorem length_le (holds : l.Holds cells keys) : cells.length ≤ l.cells := by
  have subset : cells ⊆ List.range l.cells := fun c member =>
    List.mem_range.mpr (l.allocated_lt c (holds.allocated c member))
  simpa using (holds.nodup.subperm subset).length_le

theorem toList_eq (holds : l.Holds cells keys) : l.toList = keys := by
  have some_keys : ∀ {cells : List Nat} {keys : List κ}, cells.map l.key = keys.map some →
      cells.filterMap l.key = keys := by
    intro cells
    induction cells with
    | nil =>
        intro keys same
        cases keys with
        | nil => rfl
        | cons k rest => cases same
    | cons c rest ih =>
        intro keys same
        cases keys with
        | nil => cases same
        | cons k keys =>
            rw [List.map_cons, List.map_cons, List.cons.injEq] at same
            rw [List.filterMap_cons_some same.1, ih same.2]
  rw [toList, chain_of_path holds.path holds.length_le, some_keys holds.keys]

theorem head_eq (holds : l.Holds cells keys) : l.head = cells.head? := by
  rw [holds.path.start, Option.or_none]

theorem next_eq (holds : l.Holds (before ++ p :: behind) keys) : l.next p = behind.head? := by
  rcases path_append.mp holds.path with ⟨middle, -, -, tail⟩
  rw [tail.start, Option.or_none]

/-- The key of a cell of the list. -/
theorem key_eq (holds : l.Holds (before ++ p :: behind) (keysBefore ++ k :: keysBehind))
    (place : before.length = keysBefore.length) : l.key p = some k := by
  have keys := holds.keys
  rw [List.map_append, List.map_append, List.map_cons, List.map_cons] at keys
  rcases List.append_inj keys (by simpa using place) with ⟨-, back⟩
  exact (List.cons.inj back).1

theorem push (holds : l.Holds cells keys) (k : κ) :
    (l.push k).Holds (l.cells :: cells) (k :: keys) := by
  have fresh : l.cells ∉ cells := fun member =>
    absurd (l.allocated_lt _ (holds.allocated _ member)) (Nat.lt_irrefl _)
  constructor
  case path =>
    refine ⟨rfl, ?_⟩
    rw [push_next, Function.update_self]
    exact holds.path.update fresh
  case allocated =>
    intro c member
    rw [push_allocated]
    rcases List.mem_cons.mp member with rfl | member
    · exact Function.update_self ..
    · rw [Function.update_of_ne (ne_of_mem_of_not_mem member fresh)]
      exact holds.allocated c member
  case keys =>
    have others : cells.map (Function.update l.key l.cells (some k)) = cells.map l.key :=
      List.map_congr_left fun c member =>
        Function.update_of_ne (ne_of_mem_of_not_mem member fresh) _ _
    rw [List.map_cons, List.map_cons, push_key, Function.update_self, others, holds.keys]

/-- **A cell is taken out** and given back. -/
theorem remove (holds : l.Holds (before ++ p :: behind) (keysBefore ++ k :: keysBehind))
    (place : before.length = keysBefore.length) :
    ((l.unlink before.getLast? p).free p).Holds (before ++ behind) (keysBefore ++ keysBehind) := by
  have nodup := holds.nodup
  have path := holds.path
  have keys := holds.keys
  rw [List.nodup_append, List.nodup_cons] at nodup
  rcases nodup with ⟨nodupBefore, ⟨notBehind, -⟩, apart⟩
  have notBefore : p ∉ before := fun member => apart p member p List.mem_cons_self rfl
  constructor
  case path =>
    rw [free_next, free_head]
    rcases List.eq_nil_or_concat before with rfl | ⟨front, prev, rfl⟩
    · exact path.2
    · rw [List.concat_eq_append] at *
      have notFront : prev ∉ front := by
        rw [List.nodup_append] at nodupBefore
        exact fun member => nodupBefore.2.2 prev member prev (List.mem_singleton_self prev) rfl
      have notTail : prev ∉ behind := fun member =>
        apart prev (by simp) prev (List.mem_cons_of_mem p member) rfl
      rcases path_append.mp path with ⟨middle, first, rfl, tail⟩
      rw [List.getLast?_concat]
      exact path_append.mpr ⟨l.next p, first.concat notFront, tail.update notTail⟩
  case allocated =>
    intro c member
    have other : c ≠ p := by
      rintro rfl
      exact (List.mem_append.mp member).elim notBefore notBehind
    rw [free_allocated, Function.update_of_ne other]
    apply holds.allocated
    rcases List.mem_append.mp member with member | member
    · exact List.mem_append_left _ member
    · exact List.mem_append_right _ (List.mem_cons_of_mem p member)
  case keys =>
    have others : ∀ {cs : List Nat}, p ∉ cs →
      cs.map (Function.update l.key p none) = cs.map l.key :=
      fun outside => List.map_congr_left fun c member =>
        Function.update_of_ne (ne_of_mem_of_not_mem member outside) _ _
    rw [List.map_append, List.map_append, List.map_cons, List.map_cons] at keys
    rcases List.append_inj keys (by simpa using place) with ⟨front, back⟩
    rw [free_key, unlink_key, List.map_append, List.map_append, others notBefore, others notBehind,
      front, (List.cons.inj back).2]

variable {ε : Type v} [DecidableEq κ] (freed endless : ε)

/-- The walk to a key that is not on the list. -/
theorem find_eq_none (holds : l.Holds cells keys) (absent : k ∉ keys) :
    ∃ prev, l.find freed endless k = .ok (prev, none) := by
  have passes : Passes l.allocated (fun c => l.key c = some k) l.next l.head cells none := by
    refine ⟨holds.path, holds.allocated, ?_, by simp, by simp⟩
    intro c member
    refine decide_eq_false fun same => absent ?_
    have inside : some k ∈ keys.map some := by
      rw [← holds.keys, ← same]
      exact List.mem_map_of_mem member
    simpa using inside
  exact ⟨_, scan_of_passes none passes (.inr ⟨rfl, holds.length_le⟩)⟩

/-- The walk to a key that is on the list: it ends at the first cell that has it. -/
theorem find_eq_some (holds : l.Holds cells keys) (present : k ∈ keys) :
    ∃ before p behind keysBefore keysBehind, cells = before ++ p :: behind ∧
      keys = keysBefore ++ k :: keysBehind ∧ k ∉ keysBefore ∧ before.length = keysBefore.length ∧
      l.find freed endless k = .ok (before.getLast?, some p) := by
  rcases List.eq_append_cons_of_mem present with ⟨keysBefore, keysBehind, rfl, first⟩
  have same := holds.keys
  rw [List.map_append, List.map_cons] at same
  rcases List.map_eq_append_iff.mp same with ⟨before, rest, rfl, front, back⟩
  rcases List.map_eq_cons_iff.mp back with ⟨p, behind, rfl, here, -⟩
  have place : before.length = keysBefore.length := by simpa using congrArg List.length front
  refine ⟨before, p, behind, keysBefore, keysBehind, rfl, rfl, first, place, ?_⟩
  rcases path_append.mp holds.path with ⟨middle, start, rfl, -⟩
  have passes : Passes l.allocated (fun c => l.key c = some k) l.next l.head before (some p) := by
    refine ⟨start, fun c member => holds.allocated c (List.mem_append_left _ member), ?_, ?_, ?_⟩
    · intro c member
      refine decide_eq_false fun equal => first ?_
      have inside : some k ∈ keysBefore.map some := by
        rw [← front, ← equal]
        exact List.mem_map_of_mem member
      simpa using inside
    · rintro c ⟨⟩
      exact holds.allocated p (by simp)
    · rintro c ⟨⟩
      exact decide_eq_true here
  have enough := holds.length_le
  rw [List.length_append, List.length_cons] at enough
  rw [find, scan_of_passes none passes (.inl (by omega)), Option.or_none]

end Holds

end CellList

/-! ## Cells with values -/

/-- A list whose cells have a value beside the key. -/
structure PairList (κ : Type u) (ν : Type w) where
  cells : CellList κ
  /-- A cell that is given up loses its value. -/
  val : Nat → Option ν

namespace PairList

variable {κ : Type u} {ν : Type w}

/-- A list without cells. -/
def empty : PairList κ ν :=
  ⟨.empty, fun _ => none⟩

/-- A cell is given back, with what it holds. -/
def discard (l : PairList κ ν) (p : Nat) : PairList κ ν :=
  ⟨{ l.cells.free p with key := Function.update l.cells.key p none },
    Function.update l.val p none⟩

/-- A new cell behind the head. -/
@[simps -fullyApplied]
def add (l : PairList κ ν) (k : κ) (v : ν) : PairList κ ν :=
  ⟨l.cells.push k, Function.update l.val l.cells.cells (some v)⟩

/-- The value of a cell is replaced. -/
@[simps -fullyApplied]
def change (l : PairList κ ν) (p : Nat) (v : ν) : PairList κ ν :=
  { l with val := Function.update l.val p (some v) }

/-- A cell is unlinked from the one before it, or from the head, and given back. -/
@[simps -fullyApplied]
def takeOut (l : PairList κ ν) (prev : Option Nat) (p : Nat) : PairList κ ν :=
  ⟨(l.cells.unlink prev p).free p, Function.update l.val p none⟩

section Operations

variable {ε : Type v} (freed endless : ε)

/-- The cells from `start` on are given back, one after the other. -/
def discardChain : Nat → Option Nat → PairList κ ν → Except ε (PairList κ ν)
  | _, none, l => .ok l
  | 0, some _, _ => .error endless
  | fuel + 1, some p, l =>
      if l.cells.allocated p then discardChain fuel (l.cells.next p) (l.discard p)
      else .error freed

/-- The head is cleared before the cells are given back. -/
def clear (l : PairList κ ν) : Except ε (PairList κ ν) :=
  discardChain freed endless l.cells.cells l.cells.head
    { l with cells := { l.cells with head := none } }

variable [DecidableEq κ]

/-- The value in the first cell with a key. -/
def lookup (l : PairList κ ν) (k : κ) : Except ε (Option ν) :=
  (l.cells.find freed endless k).map fun found => found.2.bind l.val

/-- The value in the first cell with a key is replaced; without such a cell a new one is put
behind the head. -/
def put (l : PairList κ ν) (k : κ) (v : ν) : Except ε (PairList κ ν) :=
  (l.cells.find freed endless k).map fun found =>
    match found.2 with
    | none => l.add k v
    | some p => l.change p v

/-- The first cell with a key is taken out. -/
def remove (l : PairList κ ν) (k : κ) : Except ε (PairList κ ν) :=
  (l.cells.find freed endless k).map fun found =>
    match found.2 with
    | none => l
    | some p => l.takeOut found.1 p

end Operations

/-! ### What the cells represent -/

/-- These cells make up the list, and these are their pairs. -/
structure Holds (l : PairList κ ν) (cells : List Nat) (pairs : List (κ × ν)) : Prop where
  keys : l.cells.Holds cells (pairs.map Prod.fst)
  vals : cells.map l.val = pairs.map fun pair => some pair.2

/-- These are the pairs on the list. -/
def Represents (l : PairList κ ν) (pairs : List (κ × ν)) : Prop :=
  ∃ cells, l.Holds cells pairs

theorem represents_empty : (empty : PairList κ ν).Represents [] :=
  ⟨[], .empty, rfl⟩

/-- A change outside of a list of cells. -/
theorem map_update {f : Nat → Option ν} {p : Nat} {v : Option ν} {cells : List Nat}
    (outside : p ∉ cells) : cells.map (Function.update f p v) = cells.map f :=
  List.map_congr_left fun _ member => Function.update_of_ne
    (ne_of_mem_of_not_mem member outside) _ _

namespace Holds

variable {l : PairList κ ν} {front back : List Nat} {p : Nat} {before behind : List (κ × ν)}
  {k : κ} {v : ν}

theorem apart {pairs : List (κ × ν)} (holds : l.Holds (front ++ p :: back) pairs) :
    p ∉ front ∧ p ∉ back := by
  have nodup := holds.keys.nodup
  rw [List.nodup_append, List.nodup_cons] at nodup
  exact ⟨fun member => nodup.2.2 p member p List.mem_cons_self rfl, nodup.2.1.1⟩

theorem vals_append (holds : l.Holds (front ++ p :: back) (before ++ (k, v) :: behind))
    (place : front.length = before.length) :
    front.map l.val = before.map (fun pair => some pair.2) ∧
      back.map l.val = behind.map fun pair => some pair.2 := by
  have vals := holds.vals
  rw [List.map_append, List.map_append, List.map_cons, List.map_cons] at vals
  rcases List.append_inj vals (by simpa using place) with ⟨frontVals, rest⟩
  exact ⟨frontVals, (List.cons.inj rest).2⟩

theorem val_eq (holds : l.Holds (front ++ p :: back) (before ++ (k, v) :: behind))
    (place : front.length = before.length) : l.val p = some v := by
  have vals := holds.vals
  rw [List.map_append, List.map_append, List.map_cons, List.map_cons] at vals
  rcases List.append_inj vals (by simpa using place) with ⟨-, rest⟩
  exact (List.cons.inj rest).1

end Holds

section Rules

variable {ε : Type v} (freed endless : ε) {l : PairList κ ν} {pairs before behind : List (κ × ν)}
  {k : κ} {v : ν}

/-- The loop that gives the cells back. -/
theorem discardChain_ok {cells : List Nat} {fuel : Nat} {start : Option Nat}
    (path : Path l.cells.next start cells none) (alive : ∀ c ∈ cells, l.cells.allocated c = true)
    (enough : cells.length ≤ fuel) :
    ∃ l', discardChain freed endless fuel start l = .ok l' ∧ l'.cells.head = l.cells.head := by
  induction cells generalizing l fuel start with
  | nil =>
      obtain rfl : start = none := path
      exact ⟨l, by cases fuel <;> rfl, rfl⟩
  | cons p rest ih =>
      have nodup := path.nodup
      rw [List.nodup_cons] at nodup
      rw [List.forall_mem_cons] at alive
      obtain ⟨rfl, tail⟩ := path
      cases fuel with
      | zero => simp at enough
      | succ fuel =>
          have others : ∀ c ∈ rest, (l.discard p).cells.allocated c = true := by
            intro c member
            have other : c ≠ p := ne_of_mem_of_not_mem member nodup.1
            exact (Function.update_of_ne other false l.cells.allocated).trans (alive.2 c member)
          rcases ih (l := l.discard p) tail others (by simpa using enough) with ⟨l', result, head⟩
          refine ⟨l', ?_, head⟩
          rw [discardChain, if_pos alive.1]
          exact result

theorem Represents.clear (represents : l.Represents pairs) :
    ∃ l', l.clear freed endless = .ok l' ∧ l'.Represents [] := by
  rcases represents with ⟨cells, holds⟩
  rcases discardChain_ok freed endless
    (l := { l with cells := { l.cells with head := none } })
    holds.keys.path holds.keys.allocated holds.keys.length_le with ⟨l', result, head⟩
  exact ⟨l', result, [], ⟨head, by simp, rfl⟩, rfl⟩

section Walks

variable [DecidableEq κ]

/-- A walk that leads nowhere. -/
theorem Holds.find_eq_none {cells : List Nat} (holds : l.Holds cells pairs)
    (absent : k ∉ pairs.map Prod.fst) :
    ∃ prev, l.cells.find freed endless k = .ok (prev, none) :=
  holds.keys.find_eq_none freed endless absent

/-- A walk to a cell. -/
theorem Holds.find_eq_some {cells : List Nat}
    (holds : l.Holds cells (before ++ (k, v) :: behind)) (first : k ∉ before.map Prod.fst) :
    ∃ front p back, cells = front ++ p :: back ∧ front.length = before.length ∧
      l.cells.find freed endless k = .ok (front.getLast?, some p) := by
  have present : k ∈ (before ++ (k, v) :: behind).map Prod.fst := by simp
  rcases holds.keys.find_eq_some freed endless present with
    ⟨front, p, back, keysBefore, keysBehind, cells_eq, keys_eq, notBefore, place, result⟩
  refine ⟨front, p, back, cells_eq, ?_, result⟩
  rw [List.map_append, List.map_cons] at keys_eq
  rcases List.append_eq_append_iff.mp keys_eq with ⟨middle, whole, rest⟩ | ⟨middle, whole, rest⟩
  · cases middle with
    | nil => simpa [place] using (congrArg List.length whole)
    | cons k' middle =>
        rw [List.cons_append, List.cons.injEq] at rest
        exact absurd (by rw [whole, ← rest.1]; simp) notBefore
  · cases middle with
    | nil => simpa [place] using (congrArg List.length whole).symm
    | cons k' middle =>
        rw [List.cons_append, List.cons.injEq] at rest
        exact absurd (by rw [whole, ← rest.1]; simp) first

/-- The value of a pair is replaced in its place. -/
theorem Represents.put_old (v' : ν) (represents : l.Represents (before ++ (k, v) :: behind))
    (first : k ∉ before.map Prod.fst) :
    ∃ l', l.put freed endless k v' = .ok l' ∧
      l'.Represents (before ++ (k, v') :: behind) := by
  rcases represents with ⟨cells, holds⟩
  rcases holds.find_eq_some freed endless first with
    ⟨front, p, back, rfl, place, result⟩
  refine ⟨l.change p v', by rw [PairList.put, result]; rfl, front ++ p :: back, ?_, ?_⟩
  · have keys := holds.keys
    rw [List.map_append, List.map_cons] at keys ⊢
    exact keys
  · rcases holds.apart with ⟨notFront, notBack⟩
    rcases holds.vals_append place with ⟨frontVals, backVals⟩
    rw [change_val, List.map_append, List.map_append, List.map_cons, List.map_cons,
      Function.update_self, map_update notFront, map_update notBack, frontVals, backVals]

/-- A pair is taken out. -/
theorem Represents.remove (represents : l.Represents (before ++ (k, v) :: behind))
    (first : k ∉ before.map Prod.fst) :
    ∃ l', l.remove freed endless k = .ok l' ∧ l'.Represents (before ++ behind) := by
  rcases represents with ⟨cells, holds⟩
  rcases holds.find_eq_some freed endless first with
    ⟨front, p, back, rfl, place, result⟩
  refine ⟨l.takeOut front.getLast? p, by rw [PairList.remove, result]; rfl, front ++ back, ?_, ?_⟩
  · have keys := holds.keys
    rw [List.map_append, List.map_cons] at keys
    rw [List.map_append]
    exact keys.remove (by rw [place, List.length_map])
  · rcases holds.apart with ⟨notFront, notBack⟩
    rcases holds.vals_append place with ⟨frontVals, backVals⟩
    rw [takeOut_val, List.map_append, List.map_append, map_update notFront, map_update notBack,
      frontVals, backVals]

end Walks

variable [BEq κ] [LawfulBEq κ]

/-- A key that is not looked up successfully. -/
theorem notMem_keys (absent : pairs.lookup k = none) : k ∉ pairs.map Prod.fst := by
  rw [List.lookup_eq_none_iff] at absent
  intro member
  rcases List.mem_map.mp member with ⟨pair, inside, rfl⟩
  simpa using absent pair inside

theorem first_key (first : ∀ pair ∈ before, (k != pair.1) = true) : k ∉ before.map Prod.fst := by
  intro member
  rcases List.mem_map.mp member with ⟨pair, inside, rfl⟩
  simpa using first pair inside

variable [DecidableEq κ]

/-- The value of the first pair with the key. -/
theorem Represents.lookup (represents : l.Represents pairs) (k : κ) :
    l.lookup freed endless k = .ok (pairs.lookup k) := by
  rcases represents with ⟨cells, holds⟩
  rw [PairList.lookup]
  cases found : pairs.lookup k with
  | none =>
      rcases holds.find_eq_none freed endless (notMem_keys found) with ⟨prev, result⟩
      rw [result]
      rfl
  | some v =>
      rcases List.lookup_eq_some_iff.mp found with ⟨before, behind, rfl, first⟩
      rcases holds.find_eq_some freed endless (first_key first) with
        ⟨front, p, back, rfl, place, result⟩
      rw [result]
      exact congrArg Except.ok (holds.val_eq place)

/-- A new pair is the first one. -/
theorem Represents.put_new (represents : l.Represents pairs) (absent : pairs.lookup k = none) :
    ∃ l', l.put freed endless k v = .ok l' ∧ l'.Represents ((k, v) :: pairs) := by
  rcases represents with ⟨cells, holds⟩
  rcases holds.find_eq_none freed endless (notMem_keys absent) with ⟨prev, result⟩
  refine ⟨l.add k v, by rw [PairList.put, result]; rfl, l.cells.cells :: cells,
    holds.keys.push k, ?_⟩
  have fresh : l.cells.cells ∉ cells := fun member =>
    absurd (l.cells.allocated_lt _ (holds.keys.allocated _ member)) (Nat.lt_irrefl _)
  rw [add_val, List.map_cons, List.map_cons, Function.update_self, map_update fresh, holds.vals]

/-- Without the key nothing is taken out. -/
theorem Represents.remove_none (represents : l.Represents pairs)
    (absent : pairs.lookup k = none) : l.remove freed endless k = .ok l := by
  rcases represents with ⟨cells, holds⟩
  rcases holds.find_eq_none freed endless (notMem_keys absent) with ⟨prev, result⟩
  rw [PairList.remove, result]
  rfl

end Rules
end PairList

end Xwbot.Links
