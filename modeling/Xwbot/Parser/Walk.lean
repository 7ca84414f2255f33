import Xwbot.Object.Grove
import Xwbot.Object.TreeRun

/-!
# The walk through an object tree

`__x_parser_object_serialize` walks a tree along `sons`, `sibling` and `parent` in a single
loop and passes each piece of text to a callback.  `ser` is what is to be written for the
grove that the pointers represent.  The state of the loop at an object below
the root is left for the next sibling, or for the end of the parent; so the walk through a
list of siblings ends at their parent, and the root is not among them.
-/

namespace Xwbot.Parser

/-! ## The loop of the source -/

/-- `STATE_OPEN`, `STATE_CLOSE` and `STATE_STOP`. -/
inductive SerialState where
  | stateOpen
  | stateClose
  | stateStop
  deriving DecidableEq, Repr

/-- The calls for one attribute. -/
def serializeAttr (cell : Text × Text) : List Text :=
  [[ch ' '], cell.1, [ch '=', apos], cell.2, [apos]]

/-- One iteration, for the tree with the root `p`: the next state and object, and
the texts passed to the callback. -/
def serializeStep (h : Heap) (p : Addr) (state : SerialState) (o : Option Addr) :
    Except Fault (SerialState × Option Addr × List Text) := do
  match state with
  | .stateOpen =>
      let o ← h.deref o
      let head := [[ch '<'], h.name o] ++ (h.attrs o).flatMap serializeAttr
      if (h.sons o).isSome || 0 < (h.content o).pos then
        match h.sons o with
        | some son => .ok (.stateOpen, some son, head ++ [[ch '>']])
        | none => .ok (.stateClose, some o, head ++ [[ch '>']])
      else if o = p then
        .ok (.stateStop, some o, head ++ [[ch '/', ch '>']])
      else
        match h.sibling o with
        | some sibling => .ok (.stateOpen, some sibling, head ++ [[ch '/', ch '>']])
        | none => .ok (.stateClose, h.parent o, head ++ [[ch '/', ch '>']])
  | .stateClose =>
      let o ← h.deref o
      let body := if 0 < (h.content o).pos then [(h.content o).bytes] else []
      let tail := body ++ [[ch '<', ch '/'], h.name o, [ch '>']]
      if o = p then
        .ok (.stateStop, some o, tail)
      else
        match h.sibling o with
        | some sibling => .ok (.stateOpen, some sibling, tail)
        | none => .ok (.stateClose, h.parent o, tail)
  | .stateStop => .ok (.stateStop, o, [])

/-- The iterations from a state on.  The source has no bound on them. -/
def serializeLoop (h : Heap) (p : Addr) :
    Nat → SerialState → Option Addr → Except Fault (List Text)
  | 0, _, _ => .error .hang
  | fuel + 1, state, o => do
      let (state', o', out) ← serializeStep h p state o
      if state' = .stateStop then .ok out
      else
        let rest ← serializeLoop h p fuel state' o'
        .ok (out ++ rest)

/-- `__x_parser_object_serialize`: the texts passed to the callback. -/
def serialize (h : Heap) (xobj : Addr) (fuel : Nat) : Except Fault (List Text) :=
  serializeLoop h xobj fuel .stateOpen (some xobj)

/-! ## What is to be written -/

/-- An opening tag without its end, with the attributes in the order of their list. -/
def openTag (h : Heap) (x : Addr) : Text :=
  ch '<' :: h.name x ++
    (h.attrs x).flatMap fun cell => ch ' ' :: cell.1 ++ [ch '=', apos] ++ cell.2 ++ [apos]

/-- An end tag. -/
def closeTag (h : Heap) (x : Addr) : Text :=
  [ch '<', ch '/'] ++ h.name x ++ [ch '>']

/-- An object around the text of its children; the closing form of the opening tag stands for
an object with neither children nor content. -/
def enclose (h : Heap) (x : Addr) (childless : Bool) (children : Text) : Text :=
  if childless && (h.content x).bytes.isEmpty then openTag h x ++ [ch '/', ch '>']
  else openTag h x ++ [ch '>'] ++ children ++ ((h.content x).bytes ++ closeTag h x)

end Xwbot.Parser

namespace Xwbot

open Xwbot.Parser

/-- The texts of siblings, one after the other. -/
def Grove.ser (h : Heap) : Grove → Text
  | nil => []
  | node x sons siblings => enclose h x sons.isNil (sons.ser h) ++ siblings.ser h

end Xwbot

namespace Xwbot.Parser

/-- The text of the tree with the root `r`. -/
def ser (h : Heap) (r : Addr) (sons : Grove) : Text :=
  enclose h r sons.isNil (sons.ser h)

/-! ## The walk -/

section Walk

variable {h : Heap} {p : Addr}

/-- Where the walk goes from an object below the root. -/
def leave (h : Heap) (x : Addr) : SerialState × Option Addr :=
  match h.sibling x with
  | some sibling => (.stateOpen, some sibling)
  | none => (.stateClose, h.parent x)

/-- Iterations that do not end the loop, and what they write. -/
inductive Steps (h : Heap) (p : Addr) :
    SerialState → Option Addr → Text → SerialState → Option Addr → Prop where
  | refl (state : SerialState) (o : Option Addr) : Steps h p state o [] state o
  | step {state state' state'' : SerialState} {o o' o'' : Option Addr} {out : List Text}
      {rest : Text} (first : serializeStep h p state o = .ok (state', o', out))
      (goesOn : state' ≠ .stateStop) (tail : Steps h p state' o' rest state'' o'') :
      Steps h p state o (out.flatten ++ rest) state'' o''

theorem Steps.single {state state' : SerialState} {o o' : Option Addr} {out : List Text}
    (first : serializeStep h p state o = .ok (state', o', out)) (goesOn : state' ≠ .stateStop) :
    Steps h p state o out.flatten state' o' := by
  have steps := Steps.step first goesOn (.refl state' o')
  rwa [List.append_nil] at steps

theorem Steps.trans {state state' state'' : SerialState} {o o' o'' : Option Addr}
    {out out' : Text} (first : Steps h p state o out state' o')
    (second : Steps h p state' o' out' state'' o'') :
    Steps h p state o (out ++ out') state'' o'' := by
  induction first with
  | refl => exact second
  | step head goesOn _ ih =>
      rw [List.append_assoc]
      exact .step head goesOn (ih second)

/-- Enough fuel lets the loop go through the iterations. -/
theorem Steps.loop {state state' : SerialState} {o o' : Option Addr} {out : Text}
    (steps : Steps h p state o out state' o') {last : Option Addr} {final : List Text}
    (stops : serializeStep h p state' o' = .ok (.stateStop, last, final)) :
    ∃ n, ∀ fuel, n ≤ fuel → ∃ texts, serializeLoop h p fuel state o = .ok texts ∧
      texts.flatten = out ++ final.flatten := by
  induction steps with
  | refl state o =>
      refine ⟨1, fun fuel enough => ⟨final, ?_, rfl⟩⟩
      obtain ⟨fuel, rfl⟩ := Nat.exists_eq_add_of_le' enough
      rw [serializeLoop, stops]
      rfl
  | @step state state' _ o o' _ texts rest first goesOn _ ih =>
      obtain ⟨n, loop⟩ := ih stops
      refine ⟨n + 1, fun fuel enough => ?_⟩
      obtain ⟨fuel, rfl⟩ := Nat.exists_eq_add_of_le' (Nat.le_of_add_left_le enough)
      obtain ⟨more, tail, flatten_eq⟩ := loop fuel (by omega)
      refine ⟨texts ++ more, ?_, ?_⟩
      · rw [serializeLoop, first, ok_bind]
        simp only [goesOn, if_false, tail, ok_bind]
      · rw [List.flatten_append, flatten_eq, List.append_assoc]

variable {x : Addr} {sons : Grove}

/-- The texts for an opening tag. -/
theorem flatten_openTag :
    ([[ch '<'], h.name x] ++ (h.attrs x).flatMap serializeAttr).flatten = openTag h x := by
  have attrs_eq : ((h.attrs x).flatMap serializeAttr).flatten =
      (h.attrs x).flatMap fun cell => ch ' ' :: cell.1 ++ [ch '=', apos] ++ cell.2 ++ [apos] := by
    rw [← List.flatMap_id, List.flatMap_assoc]
    refine List.flatMap_congr fun cell _ => ?_
    simp [serializeAttr]
  rw [List.flatten_append, attrs_eq]
  simp [openTag]

/-- The texts for an end tag with the content in front of it. -/
theorem flatten_closeTag :
    ((if 0 < (h.content x).pos then [(h.content x).bytes] else []) ++
      [[ch '<', ch '/'], h.name x, [ch '>']]).flatten = (h.content x).bytes ++ closeTag h x := by
  have content_eq : (if 0 < (h.content x).pos then [(h.content x).bytes] else []).flatten =
      (h.content x).bytes := by
    rw [← XString.length_bytes]
    split
    · simp
    · next empty => simpa using (List.length_eq_zero_iff.mp (by omega)).symm
  rw [List.flatten_append, content_eq]
  simp [closeTag]

theorem sons_isSome (below : sons.Stands h (some x) (h.sons x)) :
    (h.sons x).isSome = !sons.isNil := by
  cases sons with
  | nil => simp [Grove.isNil, show h.sons x = none from below]
  | node y sons siblings => simp [Grove.isNil, below.1]

/-- The test for children or content. -/
theorem hasInside_eq (below : sons.Stands h (some x) (h.sons x)) :
    ((h.sons x).isSome || decide (0 < (h.content x).pos)) =
      !(sons.isNil && (h.content x).bytes.isEmpty) := by
  rw [sons_isSome below, ← XString.length_bytes]
  cases sons.isNil <;> cases (h.content x).bytes <;> simp

/-- An object with children or content: its opening tag, and where the walk goes. -/
theorem step_open (alive : h.live x = true) (below : sons.Stands h (some x) (h.sons x))
    (inside : (sons.isNil && (h.content x).bytes.isEmpty) = false) :
    serializeStep h p .stateOpen (some x) = .ok (
      if (h.sons x).isSome then .stateOpen else .stateClose,
      (h.sons x).or (some x),
      [[ch '<'], h.name x] ++ (h.attrs x).flatMap serializeAttr ++ [[ch '>']]) := by
  have hasInside := hasInside_eq below
  rw [inside, Bool.not_false] at hasInside
  simp only [serializeStep, Heap.deref, alive, if_true, ok_bind, hasInside]
  cases h.sons x <;> rfl

/-- An object with neither. -/
theorem step_empty (alive : h.live x = true) (below : sons.Stands h (some x) (h.sons x))
    (empty : (sons.isNil && (h.content x).bytes.isEmpty) = true) :
    serializeStep h p .stateOpen (some x) = .ok (
      if x = p then .stateStop else (leave h x).1, if x = p then some x else (leave h x).2,
      [[ch '<'], h.name x] ++ (h.attrs x).flatMap serializeAttr ++ [[ch '/', ch '>']]) := by
  have nothing := hasInside_eq below
  rw [empty, Bool.not_true] at nothing
  simp only [serializeStep, Heap.deref, alive, if_true, ok_bind, nothing, leave,
    Bool.false_eq_true, if_false]
  split
  · rfl
  · cases h.sibling x <;> rfl

/-- The end of an object. -/
theorem step_close (alive : h.live x = true) :
    serializeStep h p .stateClose (some x) = .ok (
      if x = p then .stateStop else (leave h x).1, if x = p then some x else (leave h x).2,
      (if 0 < (h.content x).pos then [(h.content x).bytes] else []) ++
        [[ch '<', ch '/'], h.name x, [ch '>']]) := by
  simp only [serializeStep, Heap.deref, alive, if_true, ok_bind, leave]
  split
  · rfl
  · cases h.sibling x <;> rfl

theorem leave_ne_stop (x : Addr) : (leave h x).1 ≠ .stateStop := by
  unfold leave
  cases h.sibling x <;> simp

/-- From an opening tag through everything below it. -/
theorem steps_open (alive : h.live x = true) (below : sons.Stands h (some x) (h.sons x))
    (inside : (sons.isNil && (h.content x).bytes.isEmpty) = false)
    (walk : sons.isNil = false →
      Steps h p .stateOpen (h.sons x) (sons.ser h) .stateClose (some x)) :
    Steps h p .stateOpen (some x) (openTag h x ++ [ch '>'] ++ sons.ser h) .stateClose (some x) := by
  have first := step_open (p := p) alive below inside
  have isSome := sons_isSome below
  cases sons with
  | nil =>
      have start_eq : h.sons x = none := below
      rw [start_eq] at first
      have steps := Steps.single first (by simp)
      rw [List.flatten_append, flatten_openTag] at steps
      simpa [Grove.ser] using steps
  | node y sons siblings =>
      have start_eq : h.sons x = some y := below.1
      rw [start_eq] at first
      have steps := (Steps.single first (by simp)).trans (start_eq ▸ walk rfl)
      rw [List.flatten_append, flatten_openTag] at steps
      simpa using steps

/-- The walk through an object below the root. -/
theorem steps_node (alive : h.live x = true) (below : sons.Stands h (some x) (h.sons x))
    (inner : x ≠ p)
    (walk : sons.isNil = false →
      Steps h p .stateOpen (h.sons x) (sons.ser h) .stateClose (some x)) :
    Steps h p .stateOpen (some x) (enclose h x sons.isNil (sons.ser h))
      (leave h x).1 (leave h x).2 := by
  unfold enclose
  cases empty : sons.isNil && (h.content x).bytes.isEmpty with
  | true =>
      have step := step_empty (p := p) alive below empty
      rw [if_neg inner, if_neg inner] at step
      have steps := Steps.single step (leave_ne_stop x)
      rw [List.flatten_append, flatten_openTag] at steps
      simpa using steps
  | false =>
      have step := step_close (p := p) alive
      rw [if_neg inner, if_neg inner] at step
      have steps := (steps_open alive below empty walk).trans (Steps.single step (leave_ne_stop x))
      rw [flatten_closeTag] at steps
      exact steps

/-- The walk through siblings ends at their parent.  The root is not among them, since it has
the larger tree. -/
theorem steps_siblings {f top : Grove} {start : Option Addr} {y : Addr} {parent : Option Addr}
    (root : top.Stands h parent (h.sons p)) (smaller : f.size ≤ top.size)
    (stands : f.Stands h (some y) start) (nonempty : f.isNil = false) :
    Steps h p .stateOpen start (f.ser h) .stateClose (some y) := by
  induction f generalizing start y with
  | nil => cases nonempty
  | node x sons siblings ihSons ihSiblings =>
      rcases stands with ⟨rfl, alive, parent_eq, below, beside⟩
      rw [Grove.size] at smaller
      have inner : x ≠ p := by
        rintro rfl
        have same := root.size_eq below
        omega
      have node := steps_node alive below inner fun some => ihSons (by omega) below some
      rw [Grove.ser]
      cases siblings with
      | nil =>
          have last : h.sibling x = none := beside
          simpa [leave, last, parent_eq, Grove.ser] using node
      | node z sons' siblings' =>
          have next : h.sibling x = some z := beside.1
          have rest := ihSiblings (by omega) beside rfl
          rw [leave, next] at node
          rw [next] at rest
          exact node.trans rest

/-- **Spec of the serializer.**  From the root of a tree on, the loop ends, and it has written
the text of the tree. -/
theorem serialize_eq_ser (root : IsRoot h p sons) :
    ∃ n, ∀ fuel, n ≤ fuel → ∃ out, serialize h p fuel = .ok out ∧ out.flatten = ser h p sons := by
  unfold ser enclose
  cases empty : sons.isNil && (h.content p).bytes.isEmpty with
  | true =>
      have step := step_empty (p := p) root.live root.below empty
      rw [if_pos rfl, if_pos rfl] at step
      rcases (Steps.refl .stateOpen (some p)).loop step with ⟨n, loop⟩
      refine ⟨n, fun fuel enough => ?_⟩
      rcases loop fuel enough with ⟨out, result, flatten_eq⟩
      rw [List.flatten_append, flatten_openTag] at flatten_eq
      exact ⟨out, result, by simpa using flatten_eq⟩
  | false =>
      have step := step_close (p := p) root.live
      rw [if_pos rfl, if_pos rfl] at step
      have walk := steps_open (p := p) root.live root.below empty
        (steps_siblings root.below le_rfl root.below)
      rcases walk.loop step with ⟨n, loop⟩
      refine ⟨n, fun fuel enough => ?_⟩
      rcases loop fuel enough with ⟨out, result, flatten_eq⟩
      rw [flatten_closeTag] at flatten_eq
      exact ⟨out, result, flatten_eq⟩

/-- **Serializing any object of a tree.**  The loop that is started there ends, and it writes
what the recursion says for the tree below the object. -/
theorem serialize_of_mem {f : Grove} {parent start : Option Addr} {r : Addr}
    (stands : f.Stands h parent start) (member : f.Mem r) :
    ∃ sons, IsRoot h r sons ∧ ∃ n, ∀ fuel, n ≤ fuel →
      ∃ out, serialize h r fuel = .ok out ∧ out.flatten = ser h r sons := by
  rcases stands.isRoot member with ⟨sons, root⟩
  exact ⟨sons, root, serialize_eq_ser root⟩

theorem serialize_of_mem_son :
    ∃ h, (Heap.newObjects [lit "c", lit "b", lit "a"]).execAll
        [.appendChild 0 1, .appendChild 0 2] = .ok h ∧
      ∃ sons, IsRoot h 1 sons ∧ ∃ n, ∀ fuel, n ≤ fuel →
        ∃ out, serialize h 1 fuel = .ok out ∧ out.flatten = ser h 1 sons := by
  let family : Grove := .node 0 (.node 1 .nil (.node 2 .nil .nil)) .nil
  have stands : ∃ h, (Heap.newObjects [lit "c", lit "b", lit "a"]).execAll
      [.appendChild 0 1, .appendChild 0 2] = .ok h ∧ family.Stands h none (some 0) :=
    ⟨_, rfl, rfl, rfl, rfl, ⟨rfl, rfl, rfl, rfl, rfl, rfl, rfl, rfl, rfl⟩, rfl⟩
  rcases stands with ⟨h, result, stands⟩
  exact ⟨h, result, serialize_of_mem stands (.inr (.inl (.inl rfl)))⟩

end Walk

end Xwbot.Parser
