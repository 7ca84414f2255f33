import Xwbot.Object.Linked
import Xwbot.Object.TreeRun

/-!
# Following a path

`x_object_from_path` and `x_object_mkpath` copy the path, write a NUL over each delimiter, and
look for each component among the sons of the object that they have come to.  Both loops go on
behind the NUL of the path, since `end` is the address behind it, and so look at the byte after
their copy; `x_object_mkpath` has stored a NUL there.  The two know different delimiters.
-/

namespace Xwbot

/-- A delimiter of `x_object_mkpath`. -/
def isSep (c : Byte) : Bool :=
  c = ch '/' || c = ch ':'

/-- A delimiter of `x_object_from_path`: those of `x_object_mkpath`, `\n`, `\t`, `\v`, `\f` and
`\r`. -/
def isPathEnd (c : Byte) : Bool :=
  isSep c || 9 ≤ c && c ≤ 13

/-- `strcspn`: the place of the first delimiter or NUL from `i` on. -/
def cspn (delim : Byte → Bool) (cells : List Byte) (i : Nat) : Nat :=
  i + ((cells.drop i).takeWhile fun c => c ≠ 0 && !delim c).length

/-- The copy of a path and what is found in the memory behind it. -/
def pathCells (mem : Memory) (path : Text) : List Byte :=
  path ++ [0] ++ (mem.beyond (path ++ [0]) ++ [0])

namespace Heap

/-- The loop of `x_object_from_path`, with the places of the cells it has looked at or written. -/
def fromPathLoop (h : Heap) (len : Nat) :
    Nat → List Byte → Nat → Option Addr → Except Fault (Option Addr × List Nat)
  | 0, _, _, _ => .error .hang
  | fuel + 1, cells, p1, obj => do
      let p2 := cspn isPathEnd cells p1
      let touched := List.range' p1 (p2 + 1 - p1)
      if p2 = p1 then .ok (obj, touched)
      else
        let name := (cells.drop p1).take (p2 - p1)
        let cells := cells.set p2 0
        let obj ← h.getChild obj (some name)
        if obj.isSome && p2 < len then
          let (obj, more) ← h.fromPathLoop len fuel cells (p2 + 1) obj
          .ok (obj, touched ++ more)
        else .ok (obj, touched)

/-- `x_object_from_path`. -/
def fromPath (mem : Memory) (h : Heap) (ctx : Addr) (path : Text) :
    Except Fault (Addr × List Nat) := do
  let len := path.length + 1
  let (obj, touched) ← h.fromPathLoop len (len + 1) (pathCells mem path) 0 (some ctx)
  .ok (obj.getD ctx, touched)

/-- The lookup of `x_object_mkpath`, which adds a child if there is none. -/
def childOrNew (h : Heap) (obj : Addr) (name : Text) : Except Fault (Heap × Addr) := do
  match ← h.getChild (some obj) (some name) with
  | some child => .ok (h, child)
  | none => do
      let (h, child) ← h.newObject name none
      let h ← h.appendChild obj child
      .ok (h, child)

/-- The loop of `x_object_mkpath`, with the places of the cells it has looked at or written. -/
def mkpathLoop (len : Nat) :
    Nat → Heap → List Byte → Nat → Addr → Except Fault (Heap × Addr × List Nat)
  | 0, _, _, _, _ => .error .hang
  | fuel + 1, h, cells, p1, obj => do
      let p2 := cspn isSep cells p1
      let touched := List.range' p1 (p2 + 1 - p1)
      if p2 = p1 then .ok (h, obj, touched)
      else
        let name := (cells.drop p1).take (p2 - p1)
        let cells := cells.set p2 0
        let (h, child) ← h.childOrNew obj name
        if p2 < len then
          let (h, obj, more) ← mkpathLoop len fuel h cells (p2 + 1) child
          .ok (h, obj, touched ++ more)
        else .ok (h, child, touched)

/-- `x_object_mkpath`. -/
def mkpath (mem : Memory) (h : Heap) (ctx : Addr) (path : Text) :
    Except Fault (Heap × Addr × List Nat) := do
  let len := path.length + 1
  let cells := (pathCells mem path).set len 0
  let (h, obj, touched) ← mkpathLoop len (len + 1) h cells 0 ctx
  .ok (h, obj, len :: touched)

end Heap

/-! ## The components -/

/-- The components that a loop with these delimiters goes through: it stops at an empty one. -/
def steps (delim : Byte → Bool) (path : Text) : List Text :=
  (path.splitOnP delim).takeWhile (· ≠ [])

/-- No component is empty, so a loop gets to the end of the path. -/
def Whole (delim : Byte → Bool) (path : Text) : Prop :=
  [] ∉ path.splitOnP delim

instance (delim : Byte → Bool) (path : Text) : Decidable (Whole delim path) :=
  inferInstanceAs (Decidable ([] ∉ path.splitOnP delim))

section Components

variable {delim : Byte → Bool} {word rest : Text} {d : Byte}

/-- A text is one component, or goes on behind a delimiter. -/
theorem exists_word (delim : Byte → Bool) (rest : Text) :
    ∃ word : Text, (∀ c ∈ word, delim c = false) ∧
      (rest = word ∨ ∃ d rest', delim d = true ∧ rest = word ++ d :: rest') := by
  induction rest with
  | nil => exact ⟨[], by simp, .inl rfl⟩
  | cons c rest ih =>
      cases ends : delim c with
      | true => exact ⟨[], by simp, .inr ⟨c, rest, ends, rfl⟩⟩
      | false =>
          rcases ih with ⟨word, inside, whole | ⟨d, rest', stops, split⟩⟩
          · exact ⟨c :: word, List.forall_mem_cons.mpr ⟨ends, inside⟩, .inl (by rw [whole])⟩
          · exact ⟨c :: word, List.forall_mem_cons.mpr ⟨ends, inside⟩,
              .inr ⟨d, rest', stops, by rw [split, List.cons_append]⟩⟩

theorem steps_word (inside : ∀ c ∈ word, delim c = false) :
    steps delim word = if word = [] then [] else [word] := by
  rw [steps, List.splitOnP_eq_singleton inside]
  by_cases empty : word = [] <;> simp [empty]

theorem steps_append_cons (inside : ∀ c ∈ word, delim c = false) (stops : delim d = true) :
    steps delim (word ++ d :: rest) = if word = [] then [] else word :: steps delim rest := by
  rw [steps, List.splitOnP_append_cons_of_forall_mem inside d stops]
  by_cases empty : word = [] <;> simp [empty, steps]

theorem whole_word (inside : ∀ c ∈ word, delim c = false) : Whole delim word ↔ word ≠ [] := by
  rw [Whole, List.splitOnP_eq_singleton inside, List.mem_singleton]
  exact not_congr eq_comm

theorem whole_append_cons (inside : ∀ c ∈ word, delim c = false) (stops : delim d = true) :
    Whole delim (word ++ d :: rest) ↔ word ≠ [] ∧ Whole delim rest := by
  rw [Whole, List.splitOnP_append_cons_of_forall_mem inside d stops, List.mem_cons, not_or]
  exact and_congr_left fun _ => not_congr eq_comm

/-- What the loops find in the copy. -/
theorem cspn_eq {cells : List Byte} {i : Nat} {s : Byte} {tail : List Byte}
    (cells_eq : cells.drop i = word ++ s :: tail) (inside : ∀ c ∈ word, delim c = false)
    (noNul : 0 ∉ word) (stops : s = 0 ∨ delim s = true) :
    cspn delim cells i = i + word.length := by
  rw [cspn, cells_eq, List.takeWhile_append_of_pos, List.takeWhile_cons_of_neg, List.append_nil]
  · rcases stops with rfl | stops
    · simp
    · simp [stops]
  · intro c member
    have other : c ≠ 0 := ne_of_mem_of_not_mem member noNul
    simp [other, inside c member]

/-- Behind the NUL that is written over the delimiter nothing has changed. -/
theorem drop_set {cells : List Byte} {i : Nat} {s : Byte} {tail : List Byte}
    (cells_eq : cells.drop i = word ++ s :: tail) :
    (cells.set (i + word.length) 0).drop (i + word.length + 1) = tail := by
  have behind : cells.drop (i + (word.length + 1)) = tail := by
    rw [← List.drop_drop, cells_eq, ← List.singleton_append, ← List.append_assoc]
    exact List.drop_left' (by simp)
  rw [List.drop_set_of_lt (Nat.lt_succ_self _)]
  exact behind

theorem take_word {cells : List Byte} {i : Nat} {s : Byte} {tail : List Byte}
    (cells_eq : cells.drop i = word ++ s :: tail) :
    (cells.drop i).take (i + word.length - i) = word := by
  rw [cells_eq, Nat.add_sub_cancel_left]
  exact List.take_left

end Components

theorem map_fst_bind {α β γ : Type} (x : Except Fault (α × β)) (f : α × β → γ) :
    Prod.fst <$> (x >>= fun r => Except.ok (r.1, f r)) = Prod.fst <$> x := by
  cases x <;> rfl

namespace Heap

variable {h h' : Heap} {o ctx : Addr} {len : Nat}

/-- The objects that the components lead through. -/
def descend (h : Heap) : Option Addr → List Text → Except Fault (Option Addr)
  | obj, [] => .ok obj
  | none, _ :: _ => .ok none
  | some o, c :: rest => do
      let obj ← h.getChild (some o) (some c)
      h.descend obj rest

/-- The bytes behind the copy that `x_object_from_path` takes for one more component. -/
def behindWord (tail : List Byte) : Text :=
  tail.takeWhile fun c => c ≠ 0 && !isPathEnd c

/-- One more lookup, with what stands behind the copy. -/
def overstep (h : Heap) (word : Text) : Option Addr → Except Fault (Option Addr)
  | none => .ok none
  | some o => if word = [] then .ok (some o) else h.getChild (some o) (some word)

theorem cspn_behind {cells tail : List Byte} (cells_eq : cells.drop len = tail ++ [0]) :
    cspn isPathEnd cells len = len + (behindWord tail).length := by
  have same : (tail ++ [0]).takeWhile (fun c => c ≠ 0 && !isPathEnd c) = behindWord tail := by
    rw [List.takeWhile_append]
    split
    · next all =>
        have whole : behindWord tail = tail := (List.takeWhile_prefix _).eq_of_length all
        rw [whole]
        simp
    · rfl
  rw [cspn, cells_eq, same]

/-- The turn of the loop behind the copy. -/
theorem fromPathLoop_behind {fuel : Nat} {cells tail : List Byte}
    (cells_eq : cells.drop len = tail ++ [0]) :
    Prod.fst <$> h.fromPathLoop len (fuel + 1) cells len (some o) =
      h.overstep (behindWord tail) (some o) := by
  have begins : behindWord tail <+: tail ++ [0] :=
    (List.takeWhile_prefix _).trans (List.prefix_append _ _)
  rw [fromPathLoop, cspn_behind cells_eq, overstep]
  by_cases empty : behindWord tail = []
  · simp only [empty, List.length_nil, Nat.add_zero, if_true]
    rfl
  · have longer : len + (behindWord tail).length ≠ len := by
      have positive := List.length_pos_iff.mpr empty
      omega
    have behind : ¬ len + (behindWord tail).length < len := by omega
    simp only [longer, behind, empty, if_false, cells_eq, Nat.add_sub_cancel_left, decide_false,
      Bool.and_false, Bool.false_eq_true, ← List.prefix_iff_eq_take.mp begins]
    cases h.getChild (some o) (some (behindWord tail)) <;> rfl

/-- **The loop of `x_object_from_path`** looks for the components one after the other, and then
for what stands behind the copy. -/
theorem fromPathLoop_eq {fuel p1 : Nat} {cells tail : List Byte} {rest : Text}
    (cells_eq : cells.drop p1 = rest ++ 0 :: (tail ++ [0])) (noNul : 0 ∉ rest)
    (inside : p1 + rest.length + 1 = len) (enough : rest.length + 2 ≤ fuel) :
    Prod.fst <$> h.fromPathLoop len fuel cells p1 (some o) =
      h.descend (some o) (steps isPathEnd rest) >>= fun obj =>
        if Whole isPathEnd rest then h.overstep (behindWord tail) obj else .ok obj := by
  induction fuel generalizing p1 cells rest o with
  | zero => omega
  | succ fuel ih =>
      rcases exists_word isPathEnd rest with ⟨word, insideWord, rfl | ⟨d, rest', stops, rfl⟩⟩
      · -- the last component
        have place := cspn_eq cells_eq insideWord noNul (.inl rfl)
        rw [steps_word insideWord]
        simp only [whole_word insideWord]
        by_cases empty : rest = []
        · subst empty
          rw [fromPathLoop, place]
          simp [descend]
        · have positive := List.length_pos_iff.mpr empty
          have other : p1 + rest.length ≠ p1 := by omega
          have before : p1 + rest.length < len := by omega
          obtain ⟨fuel, rfl⟩ := Nat.exists_eq_add_of_le' (show 1 ≤ fuel by omega)
          rw [fromPathLoop, place]
          simp only [other, before, empty, if_false, if_true, ne_eq, not_false_eq_true,
            take_word cells_eq, decide_true, Bool.and_true, descend]
          cases found : h.getChild (some o) (some rest) with
          | error fault => rfl
          | ok obj =>
              cases obj with
              | none => rfl
              | some o' =>
                  have behind := drop_set cells_eq
                  rw [inside] at behind
                  have last : Prod.fst <$> h.fromPathLoop len (fuel + 1)
                      (cells.set (p1 + rest.length) 0) len (some o') = _ :=
                    fromPathLoop_behind behind
                  simp only [ok_bind, Option.isSome_some, if_true, inside]
                  exact (map_fst_bind _ _).trans last
      · -- a component with another one behind it
        rw [List.append_assoc, List.cons_append] at cells_eq
        rw [List.mem_append, List.mem_cons, not_or, not_or] at noNul
        rw [List.length_append, List.length_cons] at inside enough
        have place := cspn_eq cells_eq insideWord noNul.1 (.inr stops)
        rw [steps_append_cons insideWord stops]
        simp only [whole_append_cons insideWord stops]
        by_cases empty : word = []
        · subst empty
          rw [fromPathLoop, place]
          simp [descend]
        · have positive := List.length_pos_iff.mpr empty
          have other : p1 + word.length ≠ p1 := by omega
          have before : p1 + word.length < len := by omega
          rw [fromPathLoop, place]
          simp only [other, before, empty, if_false, ne_eq, not_false_eq_true, true_and,
            take_word cells_eq, decide_true, Bool.and_true, descend]
          cases found : h.getChild (some o) (some word) with
          | error fault => rfl
          | ok obj =>
              cases obj with
              | none =>
                  have stays : h.descend none (steps isPathEnd rest') = .ok none := by
                    cases steps isPathEnd rest' <;> rfl
                  simp only [ok_bind, stays]
                  by_cases whole : Whole isPathEnd rest' <;> simp [whole, overstep]
              | some o' =>
                  have further := ih (o := o') (drop_set cells_eq) noNul.2.2 (by omega) (by omega)
                  simp only [ok_bind, Option.isSome_some, if_true]
                  exact (map_fst_bind _ _).trans further

/-- **Spec of `x_object_from_path`.** -/
theorem fromPath_eq (mem : Memory) (h : Heap) (ctx : Addr) {path : Text} (noNul : 0 ∉ path) :
    Prod.fst <$> h.fromPath mem ctx path =
      (h.descend (some ctx) (steps isPathEnd path) >>= fun obj =>
        if Whole isPathEnd path then h.overstep (behindWord (mem.beyond (path ++ [0]))) obj
        else .ok obj) >>= fun obj => .ok (obj.getD ctx) := by
  have cells_eq : (pathCells mem path).drop 0 =
      path ++ 0 :: (mem.beyond (path ++ [0]) ++ [0]) := by
    simp [pathCells]
  have looped : Prod.fst <$> h.fromPathLoop (path.length + 1) (path.length + 1 + 1)
      (pathCells mem path) 0 (some ctx) = _ :=
    fromPathLoop_eq cells_eq noNul (by omega) le_rfl
  rw [← looped, fromPath]
  cases h.fromPathLoop (path.length + 1) (path.length + 1 + 1) (pathCells mem path) 0 (some ctx) <;>
    rfl

/-- The objects that the components lead through, with those that there are not yet. -/
def create : Heap → Addr → List Text → Except Fault (Heap × Addr)
  | h, obj, [] => .ok (h, obj)
  | h, obj, c :: rest => do
      let (h, child) ← h.childOrNew obj c
      create h child rest

/-- **The loop of `x_object_mkpath`** goes through the components. -/
theorem mkpathLoop_eq {fuel p1 : Nat} {cells tail : List Byte} {rest : Text}
    (cells_eq : cells.drop p1 = rest ++ 0 :: 0 :: tail) (noNul : 0 ∉ rest)
    (inside : p1 + rest.length + 1 = len) (enough : rest.length + 2 ≤ fuel) :
    (fun r => (r.1, r.2.1)) <$> mkpathLoop len fuel h cells p1 o =
      create h o (steps isSep rest) := by
  induction fuel generalizing p1 cells rest o h with
  | zero => omega
  | succ fuel ih =>
      rcases exists_word isSep rest with ⟨word, insideWord, rfl | ⟨d, rest', stops, rfl⟩⟩
      · have place := cspn_eq cells_eq insideWord noNul (.inl rfl)
        rw [steps_word insideWord, mkpathLoop, place]
        by_cases empty : rest = []
        · simp [empty, create]
        · have positive := List.length_pos_iff.mpr empty
          have other : p1 + rest.length ≠ p1 := by omega
          have before : p1 + rest.length < len := by omega
          simp only [other, before, empty, if_false, if_true, take_word cells_eq, create]
          cases h.childOrNew o rest with
          | error fault => rfl
          | ok found =>
              -- the loop ends at the NUL that was stored behind the copy
              obtain ⟨fuel, rfl⟩ := Nat.exists_eq_add_of_le' (show 1 ≤ fuel by omega)
              have behind : (cells.set (p1 + rest.length) 0).drop (p1 + rest.length + 1) =
                  ([] : Text) ++ 0 :: tail := drop_set cells_eq
              have last : cspn isSep (cells.set (p1 + rest.length) 0) (p1 + rest.length + 1) = _ :=
                cspn_eq behind (by simp) (by simp) (.inl rfl)
              rw [List.length_nil, Nat.add_zero] at last
              simp only [ok_bind, mkpathLoop, last, if_true]
              rfl
      · rw [List.append_assoc, List.cons_append] at cells_eq
        rw [List.mem_append, List.mem_cons, not_or, not_or] at noNul
        rw [List.length_append, List.length_cons] at inside enough
        have place := cspn_eq cells_eq insideWord noNul.1 (.inr stops)
        rw [steps_append_cons insideWord stops, mkpathLoop, place]
        by_cases empty : word = []
        · simp [empty, create]
        · have positive := List.length_pos_iff.mpr empty
          have other : p1 + word.length ≠ p1 := by omega
          have before : p1 + word.length < len := by omega
          simp only [other, before, empty, if_false, if_true, take_word cells_eq, create]
          cases h.childOrNew o word with
          | error fault => rfl
          | ok found =>
              have further := ih (h := found.1) (o := found.2) (drop_set cells_eq) noNul.2.2
                (by omega) (by omega)
              simp only [ok_bind, ← further]
              cases mkpathLoop len fuel found.1 (cells.set (p1 + word.length) 0)
                (p1 + word.length + 1) found.2 <;> rfl

/-- **Spec of `x_object_mkpath`.** -/
theorem mkpath_eq (mem : Memory) (h : Heap) (ctx : Addr) {path : Text} (noNul : 0 ∉ path) :
    (fun r => (r.1, r.2.1)) <$> h.mkpath mem ctx path = create h ctx (steps isSep path) := by
  obtain ⟨tail, cells_eq⟩ : ∃ tail, ((pathCells mem path).set (path.length + 1) 0).drop 0 =
      path ++ 0 :: 0 :: tail := by
    rw [List.drop_zero, pathCells, List.set_append_right _ _ (by simp), List.append_assoc]
    have first : path.length + 1 - (path ++ [(0 : Byte)]).length = 0 := by simp
    rw [first]
    cases mem.beyond (path ++ [0]) with
    | nil => exact ⟨[], rfl⟩
    | cons c rest => exact ⟨rest ++ [0], rfl⟩
  have looped : (fun r => (r.1, r.2.1)) <$> mkpathLoop (path.length + 1) (path.length + 1 + 1) h
      ((pathCells mem path).set (path.length + 1) 0) 0 ctx = _ :=
    mkpathLoop_eq cells_eq noNul (by omega) le_rfl
  rw [← looped, mkpath]
  cases mkpathLoop (path.length + 1) (path.length + 1 + 1) h
    ((pathCells mem path).set (path.length + 1) 0) 0 ctx <;> rfl

/-- `x_object_mkpath` stores a NUL behind its copy, whatever the path is. -/
theorem mem_of_mkpath {mem : Memory} {path : Text} {touched : List Nat}
    (result : h.mkpath mem ctx path = .ok (h', o, touched)) : path.length + 1 ∈ touched := by
  rcases bind_eq_ok_iff.mp result with ⟨_, -, ⟨⟩⟩
  exact List.mem_cons_self

/-- Two paths have the same components, but for the case of their letters. -/
def SameComponents (path path' : Text) : Prop :=
  List.Forall₂ (fun c c' => eqText c c' = true) (path.splitOnP isSep) (path'.splitOnP isSep)

/-- What is made for a path is found again by both walkers, and for other components they find
something else; nothing but the `path.length + 1` cells of the copies is looked at or written. -/
structure PathsAgree (mem : Memory) (h : Heap) (ctx : Addr) (path : Text) (h' : Heap) (n : Addr)
    (touched : List Nat) : Prop where
  inside : ∀ i ∈ touched, i ≤ path.length
  found : ∃ touched', h'.fromPath mem ctx path = .ok (n, touched') ∧
    ∀ i ∈ touched', i ≤ path.length
  again : ∃ touched', h'.mkpath mem ctx path = .ok (h', n, touched')
  apart : ∀ path', ¬SameComponents path path' → ∀ h'' n' touched',
    h'.mkpath mem ctx path' = .ok (h'', n', touched') → n' ≠ n

/-- **Paths.**  The walkers never agree as they should: `x_object_mkpath` writes a NUL behind its
copy. -/
theorem not_pathsAgree (mem : Memory) (h : Heap) (ctx : Addr) (path : Text) :
    ¬∃ h' n touched, h.mkpath mem ctx path = .ok (h', n, touched) ∧
      PathsAgree mem h ctx path h' n touched := by
  rintro ⟨h', n, touched, made, agree⟩
  have behind := agree.inside _ (mem_of_mkpath made)
  omega

/-- An object without sons. -/
def lonely : Heap :=
  (Heap.empty.alloc (lit "ctx") none).1

/-- The path `alice` leads to the node that was made for `al`, a lookup of `al` with a byte behind
the copy ends at the context, and the copy is left. -/
theorem not_pathsAgree_al :
    ((lonely.mkpath (Memory.filled 0) 0 (lit "al")).map fun r => r.2) = .ok (1, [3, 0, 1, 2, 3]) ∧
      (lonely.mkpath (Memory.filled 0) 0 (lit "al") >>= fun r =>
        (r.1.mkpath (Memory.filled 0) 0 (lit "alice")).map fun r => r.2.1) = .ok 1 ∧
      (lonely.mkpath (Memory.filled 0) 0 (lit "al") >>= fun r =>
        (r.1.fromPath ⟨fun _ _ => 0, fun _ => lit "x"⟩ 0 (lit "al")).map fun r => r.1) = .ok 0 ∧
      ¬∃ h' n touched, lonely.mkpath (Memory.filled 0) 0 (lit "al") = .ok (h', n, touched) ∧
        PathsAgree (Memory.filled 0) lonely 0 (lit "al") h' n touched := by
  have leaves : ((lonely.mkpath (Memory.filled 0) 0 (lit "al")).map fun r => r.2) =
      .ok (1, [3, 0, 1, 2, 3]) := by
    decide +kernel
  refine ⟨leaves, by decide +kernel, by decide +kernel, ?_⟩
  rintro ⟨h', n, touched, made, agree⟩
  rw [made] at leaves
  cases leaves
  have behind := agree.inside 3 (by decide)
  exact absurd behind (by decide)

end Heap

end Xwbot
