import Xwbot.Ice.Stun

/-!
# The array of attributes

A packet keeps its attributes in an array that ends with a cell of type zero.
`stun_set_attr_d` sets one attribute: it appends a type that the packet does
not have, and its body for the other types is the same code.  Here that code
runs on the cells.  What the heap holds in a fresh cell is not known.
-/

namespace Xwbot.Ice

/-- `char *data` of an attribute. -/
inductive AttrData where
  | null
  /-- A block that `x_malloc` returned. -/
  | block (bytes : List Byte)
  /-- What is left in a cell that nobody has written. -/
  | wild
  deriving DecidableEq, Repr

/-- `stun_attr_t` as it lies in the array. -/
structure AttrCell where
  type : Nat
  len : Nat
  data : AttrData
  deriving DecidableEq, Repr

/-- The fields of `stun_packet_t` that are the array. -/
structure AttrArray where
  attrs : List AttrCell
  attrnum : Nat
  deriving DecidableEq, Repr

/-- Fresh memory, in cells and in bytes. -/
structure Fresh where
  cells : Nat → AttrCell
  bytes : Nat → Byte

/-- `(uint16_t) type` -/
def uint16 (type : Int) : Nat :=
  (type % 65536).toNat

/-- `x_realloc(attrs, sizeof(stun_attr_t) * n)` -/
def reallocAttrs (fresh : Fresh) (attrs : List AttrCell) (n : Nat) : List AttrCell :=
  attrs.take n ++ (List.range (n - attrs.length)).map fresh.cells

/-- `attrs[i]` -/
def readCell (attrs : List AttrCell) (i : Nat) : Except Fault AttrCell :=
  match attrs[i]? with
  | some cell => .ok cell
  | none => .error .overread

/-- `attrs[i].field = value` -/
def editCell (attrs : List AttrCell) (i : Nat) (edit : AttrCell → AttrCell) :
    Except Fault (List AttrCell) :=
  if i < attrs.length then .ok (attrs.modify i edit) else .error .overflow

/-- `x_memcpy(data, val, len)` -/
def copyVal (data : AttrData) (val : List Byte) : Except Fault AttrData :=
  if val.length = 0 then .ok data
  else
    match data with
    | .block bytes =>
        if val.length ≤ bytes.length then .ok (.block (val ++ bytes.drop val.length))
        else .error .overflow
    | .null | .wild => .error .segv

namespace AttrArray

/-- The loop of `stun_attr_id` over the cells that are left. -/
def attrIdLoop (attrs : List AttrCell) (type : Nat) : Nat → Nat → Except Fault (Option Nat)
  | 0, _ => .ok none
  | left + 1, i => do
      let cell ← readCell attrs i
      if cell.type = type then .ok (some i) else attrIdLoop attrs type left (i + 1)

/-- `stun_attr_id`; `none` is -1. -/
def stunAttrId (pkt : AttrArray) (type : Int) : Except Fault (Option Nat) :=
  attrIdLoop pkt.attrs (uint16 type) pkt.attrnum 0

/-- The cells that `stun_set_attr_d` goes on with, and the index `i`. -/
def cellFor (fresh : Fresh) (pkt : AttrArray) : Option Nat → List AttrCell × Nat
  | some i => (pkt.attrs, i)
  | none => (reallocAttrs fresh pkt.attrs (pkt.attrnum + 2), pkt.attrnum)

/-- What follows the two assignments to the cell `i`.  Which cell has a length is asked of
`attrs[attrnum]`, and the value is copied to that one. -/
def setData (fresh : Fresh) (attrs : List AttrCell) (attrnum i : Nat) (val : List Byte) :
    Except Fault (List AttrCell) := do
  let last ← readCell attrs attrnum
  if last.len ≠ 0 then
    let cell ← readCell attrs i
    let block := AttrData.block ((List.range cell.len).map fresh.bytes)
    let attrs ← editCell attrs i fun cell => { cell with data := block }
    let last ← readCell attrs attrnum
    let data ← copyVal last.data val
    editCell attrs attrnum fun cell => { cell with data }
  else editCell attrs i fun cell => { cell with data := .null }

/-- `stun_set_attr_d(pkt, atype, len, val)` for a value of `len` bytes. -/
def stunSetAttrD (fresh : Fresh) (pkt : AttrArray) (atype : Int) (val : List Byte) :
    Except Fault AttrArray := do
  let found ← pkt.stunAttrId atype
  let (attrs, i) := pkt.cellFor fresh found
  let attrs ← editCell attrs i fun cell => { cell with type := uint16 atype }
  let attrs ← editCell attrs i fun cell => { cell with len := val.length % 65536 }
  let attrs ← setData fresh attrs pkt.attrnum i val
  let attrs ← editCell attrs (pkt.attrnum + 1) fun cell => { cell with type := 0 }
  .ok { attrs, attrnum := pkt.attrnum + 1 }

end AttrArray

/-- The cell holds the attribute. -/
structure AttrCell.Is (cell : AttrCell) (attr : StunAttr) : Prop where
  type : cell.type = attr.type
  len : cell.len = attr.data.length
  data : attr.data = [] ∨ cell.data = .block attr.data

/-- The array holds the attributes, and perhaps more cells behind them. -/
structure AttrArray.Holds (pkt : AttrArray) (l : List StunAttr) : Prop where
  count : pkt.attrnum = l.length
  cells : ∃ held spare, pkt.attrs = held ++ spare ∧ List.Forall₂ AttrCell.Is held l

variable {fresh : Fresh} {pkt pkt' : AttrArray} {atype : Int} {val : List Byte}
  {l : List StunAttr} {held spare attrs : List AttrCell} {cell : AttrCell} {type : Nat}
  {edit : AttrCell → AttrCell}

theorem readCell_append : readCell (held ++ cell :: spare) held.length = .ok cell := by
  simp [readCell]

theorem editCell_append : editCell (held ++ cell :: spare) held.length edit =
    .ok (held ++ edit cell :: spare) := by
  rw [editCell, if_pos (by simp), List.modify_eq_take_cons_drop (by simp)]
  simp

/-- Two more cells are allocated behind those that hold an attribute. -/
theorem reallocAttrs_append (fresh : Fresh) (held spare : List AttrCell) : ∃ last sentinel,
    reallocAttrs fresh (held ++ spare) (held.length + 2) = held ++ [last, sentinel] := by
  have length : (reallocAttrs fresh (held ++ spare) (held.length + 2)).length =
      held.length + 2 := by
    simp only [reallocAttrs, List.length_append, List.length_take, List.length_map,
      List.length_range]
    omega
  have kept : (reallocAttrs fresh (held ++ spare) (held.length + 2)).take held.length = held := by
    simp [reallocAttrs, List.take_append]
  have two : ((reallocAttrs fresh (held ++ spare) (held.length + 2)).drop held.length).length =
      2 := by
    rw [List.length_drop, length]
    omega
  rcases List.length_eq_two.mp two with ⟨last, sentinel, rest⟩
  refine ⟨last, sentinel, ?_⟩
  rw [← rest]
  conv_lhs => rw [← List.take_append_drop held.length (reallocAttrs fresh _ _), kept]

theorem copyVal_block {bytes : List Byte} (same : bytes.length = val.length) :
    copyVal (.block bytes) val = .ok (.block val) ∨ val = [] := by
  by_cases empty : val = []
  · exact .inr empty
  · rw [copyVal, if_neg (by simpa using empty), if_pos (Nat.le_of_eq same.symm), ← same,
      List.drop_length, List.append_nil]
    exact .inl rfl

namespace AttrArray

/-- A type that no attribute has is not found. -/
theorem attrIdLoop_absent (before : List AttrCell) (holds : List.Forall₂ AttrCell.Is held l)
    (absent : ∀ attr ∈ l, attr.type ≠ type) :
    attrIdLoop (before ++ (held ++ spare)) type l.length before.length = .ok none := by
  induction holds generalizing before with
  | nil => rfl
  | cons first rest ih =>
      rename_i cell attr held l
      have other : cell.type ≠ type := by
        rw [first.type]
        exact absent attr List.mem_cons_self
      have later := ih (before ++ [cell])
        fun attr member => absent attr (List.mem_cons_of_mem _ member)
      rw [List.length_append, List.append_assoc] at later
      rw [List.length_cons, attrIdLoop, List.cons_append, readCell_append, ok_bind, if_neg other]
      exact later

/-- The value is stored in a cell at the end. -/
theorem setData_last (fresh : Fresh) (held spare : List AttrCell) (short : val.length < 65536)
    (len : cell.len = val.length % 65536) :
    ∃ data, setData fresh (held ++ cell :: spare) held.length held.length val =
      .ok (held ++ { cell with data } :: spare) ∧ (val = [] ∨ data = .block val) := by
  rw [Nat.mod_eq_of_lt short] at len
  rw [setData, readCell_append, ok_bind]
  by_cases empty : val = []
  · subst empty
    rw [if_neg (by simp [len]), editCell_append]
    exact ⟨.null, rfl, .inl rfl⟩
  · rw [if_pos (by simpa [len] using empty), ok_bind]
    dsimp only
    rw [editCell_append, ok_bind, readCell_append, ok_bind]
    have size : ((List.range cell.len).map fresh.bytes).length = val.length := by
      simp [len]
    rcases copyVal_block size with copied | impossible
    · rw [copied, ok_bind, editCell_append]
      exact ⟨.block val, rfl, .inr rfl⟩
    · exact absurd impossible empty

/-- **Refinement.**  A type that the packet does not have is appended. -/
theorem Holds.stunSetAttrD (fresh : Fresh) (holds : pkt.Holds l) (short : val.length < 65536)
    (absent : ∀ attr ∈ l, attr.type ≠ uint16 atype) :
    ∃ pkt', pkt.stunSetAttrD fresh atype val = .ok pkt' ∧
      pkt'.Holds (Ice.stunSetAttrD l (uint16 atype) val) := by
  rcases pkt with ⟨attrs, attrnum⟩
  rcases holds with ⟨rfl, held, spare, rfl, cells⟩
  have notFound : stunAttrId ⟨held ++ spare, l.length⟩ atype = .ok none :=
    attrIdLoop_absent [] cells absent
  have count : l.length = held.length := cells.length_eq.symm
  rcases reallocAttrs_append fresh held spare with ⟨last, sentinel, grown⟩
  have sized : ({ last with type := uint16 atype, len := val.length % 65536 } : AttrCell).len =
      val.length % 65536 :=
    rfl
  rcases setData_last fresh held [sentinel] short sized with ⟨data, stored, value⟩
  have ended : editCell (held ++ [⟨uint16 atype, val.length % 65536, data⟩, sentinel])
      (held.length + 1) (fun cell => { cell with type := 0 }) =
      .ok (held ++ [⟨uint16 atype, val.length % 65536, data⟩, { sentinel with type := 0 }]) := by
    have edited := @editCell_append (held ++ [⟨uint16 atype, val.length % 65536, data⟩]) []
      sentinel fun cell => { cell with type := 0 }
    rw [List.append_assoc, List.append_assoc, List.length_append] at edited
    exact edited
  refine ⟨⟨held ++ [⟨uint16 atype, val.length % 65536, data⟩, { sentinel with type := 0 }],
    held.length + 1⟩, ?_, ?_⟩
  · unfold AttrArray.stunSetAttrD
    rw [notFound, ok_bind, cellFor, count, grown]
    dsimp only
    rw [editCell_append, ok_bind, editCell_append, ok_bind, stored, ok_bind, ended, ok_bind]
  · constructor
    · simp [Ice.stunSetAttrD, count]
    · refine ⟨held ++ [⟨uint16 atype, val.length % 65536, data⟩], [{ sentinel with type := 0 }],
        by simp, ?_⟩
      apply List.rel_append cells
      refine .cons ?_ .nil
      exact ⟨rfl, Nat.mod_eq_of_lt short, value⟩

/-- Whatever the type is, the packet is taken to have one attribute more. -/
theorem attrnum_stunSetAttrD (result : pkt.stunSetAttrD fresh atype val = .ok pkt') :
    pkt'.attrnum = pkt.attrnum + 1 := by
  unfold AttrArray.stunSetAttrD at result
  rcases bind_eq_ok_iff.mp result with ⟨found, -, result⟩
  dsimp only at result
  rcases bind_eq_ok_iff.mp result with ⟨attrs, -, result⟩
  rcases bind_eq_ok_iff.mp result with ⟨attrs, -, result⟩
  rcases bind_eq_ok_iff.mp result with ⟨attrs, -, result⟩
  rcases bind_eq_ok_iff.mp result with ⟨attrs, -, result⟩
  cases result
  rfl

/-- Setting an attribute stays in the array, and it leaves one attribute of the type, which
has the value, and all others in their order. -/
def SetsAttr (fresh : Fresh) (pkt : AttrArray) (l : List StunAttr) (atype : Int)
    (val : List Byte) : Prop :=
  ∃ pkt' l', pkt.stunSetAttrD fresh atype val = .ok pkt' ∧ pkt'.Holds l' ∧
    (l'.filter fun attr => attr.type = uint16 atype) = [⟨uint16 atype, val⟩] ∧
    (l'.filter fun attr => attr.type ≠ uint16 atype) =
      (l.filter fun attr => attr.type ≠ uint16 atype) ∧
    pkt'.attrnum =
      if ∀ attr ∈ l, attr.type ≠ uint16 atype then pkt.attrnum + 1 else pkt.attrnum

/-- **Attribute update.**  An attribute is set as it should be exactly if the packet has none
of its type. -/
theorem setsAttr_iff (holds : pkt.Holds l) (short : val.length < 65536) :
    pkt.SetsAttr fresh l atype val ↔ ∀ attr ∈ l, attr.type ≠ uint16 atype := by
  constructor
  · rintro ⟨pkt', l', result, -, -, -, count⟩
    by_contra present
    rw [if_neg present, attrnum_stunSetAttrD result] at count
    omega
  · intro absent
    rcases holds.stunSetAttrD fresh short absent with ⟨pkt', result, holds'⟩
    refine ⟨pkt', _, result, holds', ?_, ?_, ?_⟩
    · have none : (l.filter fun attr => attr.type = uint16 atype) = [] := by
        apply List.filter_eq_nil_iff.mpr
        intro attr member
        simpa using absent attr member
      rw [Ice.stunSetAttrD, List.filter_append, none]
      simp
    · rw [Ice.stunSetAttrD, List.filter_append]
      simp
    · rw [if_pos absent]
      exact attrnum_stunSetAttrD result

/-- A packet with one attribute and the cell that ends the array. -/
def oneAttr : AttrArray where
  attrs := [⟨stunUsername, 2, .block [0x61, 0x62]⟩, ⟨0, 0, .null⟩]
  attrnum := 1

theorem holds_oneAttr : oneAttr.Holds [⟨stunUsername, [0x61, 0x62]⟩] := by
  constructor
  · rfl
  · exact ⟨[_], [_], rfl, .cons ⟨rfl, rfl, .inr rfl⟩ .nil⟩

/-- Another type is appended to it. -/
theorem setsAttr_oneAttr :
    oneAttr.SetsAttr ⟨fun _ => ⟨0, 0, .wild⟩, fun _ => 0⟩ [⟨stunUsername, [0x61, 0x62]⟩]
      0x0024 [1, 2, 3, 4] :=
  (setsAttr_iff holds_oneAttr (by decide)).mpr (by decide)

/-- Setting the user name a second time writes behind the array. -/
theorem not_setsAttr_username :
    oneAttr.Holds [⟨stunUsername, [0x61, 0x62]⟩] ∧
      oneAttr.stunSetAttrD ⟨fun _ => ⟨0, 0, .wild⟩, fun _ => 0⟩ 0x0006 [0x63, 0x64] =
        .error .overflow ∧
      ¬oneAttr.SetsAttr ⟨fun _ => ⟨0, 0, .wild⟩, fun _ => 0⟩ [⟨stunUsername, [0x61, 0x62]⟩]
        0x0006 [0x63, 0x64] := by
  have overflow : oneAttr.stunSetAttrD ⟨fun _ => ⟨0, 0, .wild⟩, fun _ => 0⟩ 0x0006
      [0x63, 0x64] = .error .overflow :=
    rfl
  refine ⟨holds_oneAttr, overflow, ?_⟩
  rintro ⟨pkt', l', result, -⟩
  rw [overflow] at result
  cases result

end AttrArray

end Xwbot.Ice
