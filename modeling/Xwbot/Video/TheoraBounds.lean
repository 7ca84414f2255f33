import Xwbot.Runs
import Xwbot.Video.Loss
import Xwbot.Video.TheoraHeader

/-!
# Theora payloads of any length

`__on_theora_packet_received` and what it calls, on a payload that may be shorter than its
header, with length fields that may say anything.  The length that was received is handed on and
never looked at; the buffer is grown before it is written.  The headers of the codec are read in
place.
-/

namespace Xwbot.Video.Theora

namespace Receivers

variable {heap : Nat → Byte} {s s' : Receivers} {cdc : Nat} {data pconf : List Byte} {mark : Byte}

/-- The growth of the buffer and the `memcpy` behind it. -/
def grow (heap : Nat → Byte) (s : Receivers) (cdc : Nat) (pconf : List Byte) (plen : Nat) :
    Except Fault Receivers :=
  if intMax < s.curpos + plen then .error .intOverflow
  else do
    let block := s.buffer cdc
    let block :=
      if block.length < s.curpos + plen then realloc heap block (s.curpos + plen) else block
    let data ← readBytes pconf 6 plen
    let block ← copyTo block s.curpos data
    .ok ⟨s.curpos + plen, Function.update s.buffer cdc block⟩

/-- The position and the buffers before the growth. -/
def begin (s : Receivers) (cdc : Nat) (mark : Byte) : Receivers :=
  match mark with
  | 0 => { s with curpos := 0 }
  | 1 => ⟨0, Function.update s.buffer cdc (List.replicate (s.buffer cdc).length 0)⟩
  | _ => s

/-- `x_theora_dispatch_frame_packet` with all of its accesses: the fragments with the marks 0 and
3 go to the decoder. -/
def framePacket (heap : Nat → Byte) (s : Receivers) (cdc : Nat) (pconf : List Byte) (mark : Byte) :
    Except Fault (Receivers × Option (List Byte)) := do
  let _ ← readU8 pconf 3
  let plen ← readU16 pconf 4
  let s ← (s.begin cdc mark).grow heap cdc pconf plen
  .ok (s, if mark = 1 ∨ mark = 2 then none else some (s.packetin cdc))

/-- `x_theora_dispatch_header_packet` with all of its accesses: the decoder, which answers the
`k`-th call with `err k`, reads what it is handed, and nothing if `op.bytes` is negative. -/
def headerPacket (err : Nat → Int) (pconf : List Byte) : Except Fault Unit := do
  let calls ← dispatchHeaderPacket err pconf
  Runs.run (fun _ call => (readBytes pconf call.offset call.bytes.toNat).map fun _ => ()) () calls

/-- `__on_theora_packet_received` with all of its accesses. -/
def packetReceived (heap : Nat → Byte) (err : Nat → Int) (s : Receivers) (cdc : Nat)
    (data : List Byte) : Except Fault (Receivers × Option (List Byte)) := do
  let byte ← readU8 data 3
  if tdtOf byte = 1 then do
    headerPacket err data
    .ok (s, none)
  else if tdtOf byte = 0 then s.framePacket heap cdc data (markOf byte)
  else .ok (s, none)

/-- The headers that the decoder takes are in the payload: behind the lengths, the first one, and
each later one if those before it are taken. -/
def HeadersInside (err : Nat → Int) (data : List Byte) : Prop :=
  let l1 := (data.getD 7 0).toNat
  let l2 := (data.getD 8 0).toNat
  9 + l1 ≤ data.length ∧
    (0 < err 0 → 9 + l1 + l2 ≤ data.length ∧
      (0 < err 1 → 9 + swap16 (be16 data 4) ≤ data.length))

/-- The payload holds what its header announces, and the position stays in the range of `int`. -/
def Announced (err : Nat → Int) (s : Receivers) (cdc : Nat) (data : List Byte) : Prop :=
  ∃ byte, data[3]? = some byte ∧ (tdtOf byte = 1 → HeadersInside err data) ∧
    (tdtOf byte = 0 → 6 + be16 data 4 ≤ data.length ∧
      (s.begin cdc (markOf byte)).curpos + be16 data 4 ≤ intMax)

/-- The number of headers but one, and the two lengths. -/
theorem readBytes_lengths (inside : 9 ≤ pconf.length) :
    readBytes pconf 6 3 = .ok [pconf.getD 6 0, pconf.getD 7 0, pconf.getD 8 0] := by
  refine readBytes_eq_ok_iff.mpr ⟨inside, ?_⟩
  rw [slice, List.drop_eq_getElem_cons (by omega), List.drop_eq_getElem_cons (by omega),
    List.drop_eq_getElem_cons (by omega)]
  simp only [List.take_succ_cons, List.take_zero, List.getD_eq_getElem?_getD,
    List.getElem?_eq_getElem (show 6 < pconf.length by omega),
    List.getElem?_eq_getElem (show 7 < pconf.length by omega),
    List.getElem?_eq_getElem (show 8 < pconf.length by omega), Option.getD_some]

/-- The decoder reads what it is handed. -/
theorem succeeds_read_iff (calls : List Header) : Runs.Succeeds (Runs.run (fun _ call =>
      (readBytes pconf call.offset call.bytes.toNat).map fun _ => ()) () calls) ↔
    ∀ call ∈ calls, call.offset + call.bytes.toNat ≤ pconf.length := by
  induction calls with
  | nil => simp
  | cons call rest ih =>
      rw [Runs.run_cons, List.forall_mem_cons, ← ih, readBytes]
      split
      · next inside => exact (and_iff_right inside).symm
      · next outside =>
          exact iff_of_false (Runs.not_succeeds_error _) fun both => outside both.1

/-- **Spec of `x_theora_dispatch_header_packet`.** -/
theorem succeeds_headerPacket (err : Nat → Int) (pconf : List Byte) :
    Runs.Succeeds (headerPacket err pconf) ↔ HeadersInside err pconf := by
  unfold headerPacket HeadersInside
  simp only [Runs.succeeds_bind_iff, succeeds_read_iff]
  by_cases lengths : 9 ≤ pconf.length
  · have field : readU16 pconf 4 = .ok (be16 pconf 4) :=
      readU16_eq_ok_iff.mpr ⟨by omega, rfl⟩
    simp only [dispatchHeaderPacket, field, readBytes_lengths lengths, ok_bind]
    generalize (pconf.getD 7 0).toNat = l1
    generalize (pconf.getD 8 0).toNat = l2
    by_cases first : err 0 ≤ 0
    · simp [first, Int.not_lt.mpr first]
    · by_cases second : err 1 ≤ 0
      · simp [first, second, Int.not_le.mp first, Int.not_lt.mpr second]
      · simp only [first, second, Int.not_le.mp first, Int.not_le.mp second, if_false,
          Except.ok.injEq, exists_eq_left', List.forall_mem_cons, List.not_mem_nil,
          Int.toNat_natCast, true_implies]
        generalize swap16 (be16 pconf 4) = plen
        constructor
        · rintro ⟨one, two, three, -⟩
          exact ⟨one, two, by omega⟩
        · rintro ⟨one, two, three⟩
          exact ⟨one, two, by omega, fun _ none => none.elim⟩
  · constructor
    · rintro ⟨calls, dispatched, -⟩
      rcases bind_eq_ok_iff.mp dispatched with ⟨plen, -, dispatched⟩
      rcases bind_eq_ok_iff.mp dispatched with ⟨bytes, three, -⟩
      exact absurd (readBytes_eq_ok_iff.mp three).1 lengths
    · rintro ⟨inside, -⟩
      exact absurd (Nat.le_of_add_right_le inside) lengths

/-- The buffer always has room for what was read. -/
theorem grow_eq (plen : Nat) : s.grow heap cdc pconf plen =
    if intMax < s.curpos + plen then .error .intOverflow
    else if 6 + plen ≤ pconf.length then .ok (s.append heap cdc (slice pconf 6 plen))
    else .error .overread := by
  unfold grow
  split
  · rfl
  · dsimp only
    by_cases inside : 6 + plen ≤ pconf.length
    · have length := length_slice inside
      have room : s.curpos + (slice pconf 6 plen).length ≤
          (if (s.buffer cdc).length < s.curpos + plen then
            realloc heap (s.buffer cdc) (s.curpos + plen) else s.buffer cdc).length := by
        rw [length]
        split
        · rw [length_realloc]
        · next enough => exact Nat.not_lt.mp enough
      rw [readBytes, if_pos inside, if_pos inside, ok_bind, copyTo, if_pos room, ok_bind, append,
        length, splice, length, List.append_assoc]
    · rw [readBytes, if_neg inside, if_neg inside, error_bind]

/-- Within its payload a fragment does what the unbounded copy does. -/
theorem begin_append (s : Receivers) (cdc : Nat) (mark : Byte) (data : List Byte) :
    ((s.begin cdc mark).append heap cdc data, if mark = 1 ∨ mark = 2 then none
      else some (((s.begin cdc mark).append heap cdc data).packetin cdc)) =
      s.place heap cdc mark data := by
  unfold begin place
  split
  · rfl
  · rfl
  · next not0 not1 =>
      by_cases two : mark = 2
      · subst two
        rfl
      · rw [if_neg (not_or.mpr ⟨not1, two⟩)]
        split
        · exact absurd rfl not0
        · exact absurd rfl not1
        · exact absurd rfl two
        · rfl

/-- **Spec of `x_theora_dispatch_frame_packet`.** -/
theorem framePacket_eq_ok_iff {result : Receivers × Option (List Byte)} :
    s.framePacket heap cdc pconf mark = .ok result ↔
      6 + be16 pconf 4 ≤ pconf.length ∧ (s.begin cdc mark).curpos + be16 pconf 4 ≤ intMax ∧
        s.place heap cdc mark (slice pconf 6 (be16 pconf 4)) = result := by
  unfold framePacket
  rw [← begin_append]
  constructor
  · intro run
    rcases bind_eq_ok_iff.mp run with ⟨byte, -, run⟩
    rcases bind_eq_ok_iff.mp run with ⟨plen, read, run⟩
    rcases readU16_eq_ok_iff.mp read with ⟨-, rfl⟩
    rcases bind_eq_ok_iff.mp run with ⟨grown, grow, same⟩
    rw [grow_eq] at grow
    split at grow
    · cases grow
    · next int =>
        split at grow
        · next inside =>
            cases grow
            exact ⟨inside, Nat.not_lt.mp int, Except.ok.inj same⟩
        · cases grow
  · rintro ⟨inside, int, same⟩
    have third : readU8 pconf 3 = .ok pconf[3] :=
      readU8_eq_ok_iff.mpr (List.getElem?_eq_getElem (by omega))
    have field : readU16 pconf 4 = .ok (be16 pconf 4) :=
      readU16_eq_ok_iff.mpr ⟨by omega, rfl⟩
    rw [third, ok_bind, field, ok_bind, grow_eq, if_neg (Nat.not_lt.mpr int), if_pos inside,
      ok_bind, same]

/-- **Theora payloads.**  From any position and any buffers, a payload is read within its length
and the buffer is written within its size exactly if the payload has its header and holds what
this announces, at a position in the range of `int`. -/
theorem staysInside_iff (heap : Nat → Byte) (err : Nat → Int) (s : Receivers) (cdc : Nat)
    (data : List Byte) :
    Runs.Succeeds (s.packetReceived heap err cdc data) ↔ s.Announced err cdc data := by
  unfold packetReceived Announced
  rw [Runs.succeeds_bind_iff]
  refine exists_congr fun byte => ?_
  rw [readU8_eq_ok_iff]
  refine and_congr_right fun _ => ?_
  split
  · next header =>
      rw [← succeeds_headerPacket, Runs.succeeds_bind_iff]
      simp only [header, true_implies]
      constructor
      · rintro ⟨u, reads, -⟩
        exact ⟨⟨u, reads⟩, fun frame => absurd frame (by decide)⟩
      · rintro ⟨⟨u, reads⟩, -⟩
        exact ⟨u, reads, Runs.succeeds_ok _⟩
  · next noHeader =>
      rw [and_iff_right fun header => absurd header noHeader]
      split
      · next frame =>
          simp only [frame, true_implies]
          constructor
          · rintro ⟨result, run⟩
            rcases framePacket_eq_ok_iff.mp run with ⟨inside, int, -⟩
            exact ⟨inside, int⟩
          · rintro ⟨inside, int⟩
            exact ⟨_, framePacket_eq_ok_iff.mpr ⟨inside, int, rfl⟩⟩
      · next other => exact iff_of_true ⟨_, rfl⟩ fun frame => absurd frame other

/-- A frame packet of six bytes that announces one byte more, and a header packet that ends
before its lengths. -/
theorem not_staysInside_short :
    ¬Runs.Succeeds (start.packetReceived (fun _ => 0) (fun _ => 1) 0 [0, 0, 0, 0, 0, 1]) ∧
      ¬Runs.Succeeds (start.packetReceived (fun _ => 0) (fun _ => 1) 0 [0, 0, 0, 0x10]) := by
  constructor
  · have announced : readU16 [0, 0, 0, 0, 0, 1] 4 = .ok 1 := by decide
    have fourth : readU8 [0, 0, 0, 0, 0, 1] 3 = .ok 0 := by decide
    rw [packetReceived, fourth, ok_bind, if_neg (by decide), if_pos (by decide), framePacket,
      fourth, ok_bind, announced, ok_bind, grow_eq, if_neg (by decide), if_neg (by decide),
      error_bind]
    exact Runs.not_succeeds_error _
  · have fourth : readU8 [0, 0, 0, 0x10] 3 = .ok 0x10 := by decide
    have short : headerPacket (fun _ => 1) [0, 0, 0, 0x10] = .error .overread := by decide
    rw [packetReceived, fourth, ok_bind, if_pos (by decide), short, error_bind]
    exact Runs.not_succeeds_error _

end Receivers

end Xwbot.Video.Theora
