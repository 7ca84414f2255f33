import Xwbot.Parser.Serializer
import Xwbot.Runs

/-!
# What is sent

`x_bus_tx` writes an object as text and passes the text to the transport once.
The socket does not block, so `send` may take a part of the text or nothing; its
result is dropped on the way back, and the rest of the text with it.
-/

namespace Xwbot

open Runs Xwbot.Parser

/-! ## The calls -/

/-- A byte of a stanza: which stanza, and where in its text. -/
structure Placed where
  stanza : Nat
  place : Nat
  byte : Byte
  deriving DecidableEq, Repr

/-- The bytes of a stanza's text. -/
def placed (stanza : Nat) (text : Text) : List Placed :=
  text.mapIdx fun place byte => ⟨stanza, place, byte⟩

/-- The texts that were given to the transport so far, and what the socket took of them. -/
structure Wire where
  stanzas : List Text
  accepted : List Placed
  deriving DecidableEq, Repr

namespace Wire

/-- Nothing was sent yet. -/
def empty : Wire where
  stanzas := []
  accepted := []

/-- All bytes of all texts, in their order. -/
def whole (w : Wire) : List Placed :=
  (w.stanzas.mapIdx placed).flatten

/-- What the socket took is a beginning of the texts: as bytes, and byte for byte from the
stanza and the place that is next. -/
structure InOrder (w : Wire) : Prop where
  bytes : w.accepted.map Placed.byte <+: w.stanzas.flatten
  places : w.accepted <+: w.whole

end Wire

/-- `sock_write`: what the socket has taken after `send` returns `err`. -/
def sockWrite (accepted buf : List Placed) (err : Int) : List Placed :=
  accepted ++ buf.take err.toNat

/-- `x_bus_write` over the plain transport. -/
def busWrite (w : Wire) (buf : Text) (err : Int) : Wire where
  stanzas := w.stanzas ++ [buf]
  accepted := sockWrite w.accepted (placed w.stanzas.length buf) err

/-- A call of `x_bus_tx`: the root of a tree of objects, and the result of `send`. -/
structure Tx where
  heap : Heap
  msg : Addr
  sons : Grove
  root : IsRoot heap msg sons
  err : Int

/-- `x_bus_tx`. -/
def busTx (m : Memory) (fuel : Nat) (w : Wire) (tx : Tx) : Except Fault Wire := do
  let xstr ← objectToString m tx.heap tx.msg fuel .zero
  .ok (busWrite w xstr.bytes tx.err)

namespace Tx

/-- The text of the object. -/
def text (tx : Tx) : Text :=
  ser tx.heap tx.msg tx.sons

/-- The socket took less than the text. -/
def Short (tx : Tx) : Prop :=
  tx.err.toNat < tx.text.length

/-- The socket took nothing. -/
def Refused (tx : Tx) : Prop :=
  tx.err ≤ 0

end Tx

/-- Behind a short send, no send takes anything. -/
def Unbroken (txs : List Tx) : Prop :=
  txs.Pairwise fun tx later => tx.Short → later.Refused

/-! ## The places of bytes -/

@[simp]
theorem map_byte_placed (i : Nat) (t : Text) : (placed i t).map Placed.byte = t := by
  apply List.ext_getElem
  · simp [placed]
  · intro n _ _
    simp [placed]

@[simp]
theorem length_placed (i : Nat) (t : Text) : (placed i t).length = t.length :=
  List.length_mapIdx

theorem stanza_of_mem_placed {i : Nat} {t : Text} {p : Placed} (member : p ∈ placed i t) :
    p.stanza = i := by
  rcases List.mem_mapIdx.mp member with ⟨n, _, rfl⟩
  rfl

namespace Tx

/-- A text begins with a bracket. -/
theorem text_ne_nil (tx : Tx) : tx.text ≠ [] := by
  rw [text, ser, enclose]
  split
  · simp
  · simp

/-- What the socket takes of a text. -/
theorem take_eq_nil_iff (tx : Tx) (i : Nat) :
    (placed i tx.text).take tx.err.toNat = [] ↔ tx.Refused := by
  rw [List.take_eq_nil_iff, ← List.length_eq_zero_iff, length_placed, List.length_eq_zero_iff,
    Int.toNat_eq_zero]
  constructor
  · rintro (refused | empty)
    · exact refused
    · exact absurd empty tx.text_ne_nil
  · exact Or.inl

end Tx

/-- What the socket takes of the texts from a number on. -/
def taken : Nat → List Tx → List Placed
  | _, [] => []
  | i, tx :: rest => (placed i tx.text).take tx.err.toNat ++ taken (i + 1) rest

/-- The texts from a number on. -/
def offered : Nat → List Tx → List Placed
  | _, [] => []
  | i, tx :: rest => placed i tx.text ++ offered (i + 1) rest

theorem le_stanza_of_mem_taken {i : Nat} {txs : List Tx} {p : Placed} (member : p ∈ taken i txs) :
    i ≤ p.stanza := by
  induction txs generalizing i with
  | nil => cases member
  | cons tx rest ih =>
      rcases List.mem_append.mp member with here | later
      · exact (stanza_of_mem_placed (List.mem_of_mem_take here)).ge
      · exact (Nat.le_succ i).trans (ih later)

theorem taken_eq_nil_iff {i : Nat} {txs : List Tx} :
    taken i txs = [] ↔ ∀ tx ∈ txs, tx.Refused := by
  induction txs generalizing i with
  | nil => simp [taken]
  | cons tx rest ih =>
      rw [taken, List.append_eq_nil_iff, tx.take_eq_nil_iff, ih, List.forall_mem_cons]

/-- The bytes of a text behind a place are bytes of this stanza, and what the socket takes
later are not. -/
theorem taken_prefix_rest_iff {i : Nat} {t : Text} {k : Nat} (short : k < t.length)
    (txs : List Tx) (behind : List Placed) :
    taken (i + 1) txs <+: (placed i t).drop k ++ behind ↔ taken (i + 1) txs = [] := by
  constructor
  · intro inOrder
    cases first : taken (i + 1) txs with
    | nil => rfl
    | cons p rest =>
        have later : i + 1 ≤ p.stanza := @le_stanza_of_mem_taken (i + 1) txs p (by
          rw [first]
          exact List.mem_cons_self)
        rw [first, List.drop_eq_getElem_cons (by rwa [length_placed]), List.cons_append,
          List.cons_prefix_cons] at inOrder
        have same : p.stanza = i := by
          rw [inOrder.1]
          exact stanza_of_mem_placed (List.getElem_mem _)
        omega
  · intro nothing
    rw [nothing]
    exact List.nil_prefix

/-- **The order of the bytes.**  They are in order exactly if nothing is taken behind a
short send. -/
theorem taken_prefix_offered_iff {i : Nat} {txs : List Tx} :
    taken i txs <+: offered i txs ↔ Unbroken txs := by
  induction txs generalizing i with
  | nil => simp [taken, offered, Unbroken]
  | cons tx rest ih =>
      rw [taken, offered, Unbroken, List.pairwise_cons]
      by_cases short : tx.Short
      · have split : placed i tx.text =
            (placed i tx.text).take tx.err.toNat ++ (placed i tx.text).drop tx.err.toNat :=
          (List.take_append_drop ..).symm
        have rest_iff : taken (i + 1) rest = [] ↔
            (∀ later ∈ rest, tx.Short → later.Refused) ∧ Unbroken rest := by
          rw [taken_eq_nil_iff]
          constructor
          · intro refused
            constructor
            · exact fun later member _ => refused later member
            · rw [Unbroken, List.pairwise_iff_forall_sublist]
              intro first later sub _
              exact refused later (sub.subset (by simp))
          · rintro ⟨refused, -⟩ later member
            exact refused later member short
        rw [← Unbroken, ← rest_iff, ← taken_prefix_rest_iff short rest (offered (i + 1) rest)]
        nth_rewrite 2 [split]
        rw [List.append_assoc, List.prefix_append_right_inj]
      · have all : (placed i tx.text).take tx.err.toNat = placed i tx.text :=
          List.take_of_length_le (by
            rw [length_placed]
            exact Nat.not_lt.mp short)
        rw [all, List.prefix_append_right_inj, ih, Unbroken]
        constructor
        · intro unbroken
          exact ⟨fun later _ isShort => absurd isShort short, unbroken⟩
        · exact And.right

/-! ## Runs -/

/-- The wire after the calls. -/
def sentAll (w : Wire) (txs : List Tx) : Wire where
  stanzas := w.stanzas ++ txs.map Tx.text
  accepted := w.accepted ++ taken w.stanzas.length txs

/-- One call, with fuel enough for the text of its object. -/
theorem busTx_spec (m : Memory) (tx : Tx) :
    ∃ n, ∀ fuel, n ≤ fuel → ∀ w, busTx m fuel w tx = .ok (busWrite w tx.text tx.err) := by
  rcases serialize_eq_ser tx.root with ⟨n, written⟩
  refine ⟨n, fun fuel enough w => ?_⟩
  rcases written fuel enough with ⟨out, result, flatten_eq⟩
  rw [busTx, objectToString, result, ok_bind, ok_bind, bytes_foldl_write, XString.bytes_zero,
    List.nil_append, flatten_eq, Tx.text]

/-- All calls, by recursion on them. -/
theorem run_busTx (m : Memory) (txs : List Tx) :
    ∃ n, ∀ fuel, n ≤ fuel → ∀ w, run (busTx m fuel) w txs = .ok (sentAll w txs) := by
  induction txs with
  | nil =>
      refine ⟨0, fun fuel _ w => ?_⟩
      simp [sentAll, taken]
  | cons tx rest ih =>
      rcases busTx_spec m tx with ⟨n, first⟩
      rcases ih with ⟨n', later⟩
      refine ⟨max n n', fun fuel enough w => ?_⟩
      rw [run_cons, first fuel (le_of_max_le_left enough), ok_bind,
        later fuel (le_of_max_le_right enough)]
      simp [sentAll, busWrite, sockWrite, taken]

/-- The texts that were given to the socket, byte by byte. -/
theorem whole_sentAll (txs : List Tx) : (sentAll .empty txs).whole = offered 0 txs := by
  suffices every : ∀ i, ((txs.map Tx.text).mapIdx fun k => placed (k + i)).flatten =
      offered i txs from every 0
  induction txs with
  | nil => exact fun i => rfl
  | cons tx rest ih =>
      intro i
      rw [List.map_cons, List.mapIdx_cons, List.flatten_cons, offered, ← ih (i + 1), Nat.zero_add]
      simp only [Nat.add_right_comm, Nat.add_assoc]

theorem map_byte_offered (i : Nat) (txs : List Tx) :
    (offered i txs).map Placed.byte = (txs.map Tx.text).flatten := by
  induction txs generalizing i with
  | nil => rfl
  | cons tx rest ih =>
      rw [offered, List.map_append, map_byte_placed, ih, List.map_cons, List.flatten_cons]

/-- **Integrity of what is sent.**  Every sequence of calls comes to an end, and what the
socket took of the texts is a beginning of them exactly if it took nothing behind a short
send. -/
theorem inOrder_iff_unbroken (m : Memory) (txs : List Tx) :
    ∃ n, ∀ fuel, n ≤ fuel → ∃ w, run (busTx m fuel) .empty txs = .ok w ∧
      w.stanzas = txs.map Tx.text ∧ (w.InOrder ↔ Unbroken txs) := by
  rcases run_busTx m txs with ⟨n, result⟩
  refine ⟨n, fun fuel enough => ⟨sentAll .empty txs, result fuel enough .empty, rfl, ?_⟩⟩
  have places : (sentAll .empty txs).accepted <+: (sentAll .empty txs).whole ↔ Unbroken txs := by
    rw [whole_sentAll]
    exact taken_prefix_offered_iff
  constructor
  · intro inOrder
    exact places.mp inOrder.places
  · intro unbroken
    have ordered := places.mpr unbroken
    have bytes := ordered.map Placed.byte
    rw [whole_sentAll, map_byte_offered] at bytes
    exact ⟨bytes, ordered⟩

/-- An object that is written as `<a/>`, and the result of its `send`. -/
def sentA (err : Int) : Tx where
  heap := single []
  msg := 0
  sons := .nil
  root := ⟨rfl, rfl⟩
  err := err

/-- The first of two sends takes one byte and the second takes all: the connection carries
a bracket and then a whole stanza. -/
theorem not_inOrder_short :
    ∃ w, run (busTx (.filled 0) 2) .empty [sentA 1, sentA 4] = .ok w ∧
      w.stanzas = [lit "<a/>", lit "<a/>"] ∧ w.accepted.map Placed.byte = lit "<<a/>" ∧
        ¬w.InOrder := by
  refine ⟨_, rfl, by decide +kernel, by decide +kernel, ?_⟩
  intro inOrder
  have bytes := inOrder.bytes
  revert bytes
  decide +kernel

end Xwbot
