import Xwbot.Runs
import Xwbot.Video.Theora

/-!
# Theora fragments for several contexts

Each context gets its own fragments in order, but all contexts share the
position at which the next fragment is put.  A `Stage` is how far a context has
come with its packets.  As long as every fragment that continues a packet finds
the position where its own context left it, each decoder gets its packets.
-/

namespace Xwbot.Video.Theora

/-! ## What a payload bears -/

/-- The fragment type in a payload. -/
def kind (data : List Byte) : Byte :=
  markOf (data.getD 3 0)

/-- A payload with a fragment. -/
structure Bears (mark : Byte) (part data : List Byte) : Prop where
  byte : ∃ byte, data[3]? = some byte ∧ tdtOf byte = 0 ∧ markOf byte = mark
  length : readU16 data 4 = .ok part.length
  bytes : readBytes data 6 part.length = .ok part

variable {ident numpackets mark : Nat} {part data : List Byte}

theorem fragmentHeader_eq (ident mark numpackets len : Nat) :
    fragmentHeader ident mark numpackets len =
      [(ident * 256 / 16777216).toUInt8, (ident * 256 / 65536).toUInt8,
        (ident * 256 / 256).toUInt8, (mark % 4 * 64 + numpackets % 16).toUInt8] ++ htons len := by
  have zero : (ident * 256).toUInt8 = 0 := by
    change _ = (0 : Nat).toUInt8
    rw [toUInt8_eq_iff]
    omega
  rw [fragmentHeader, writeLow32_swap32, writeLow16_swap16, htonl, zero]
  simp [List.modify]

theorem bears_fragment (ident : Nat) {len : Nat} (marked : mark < 4) (packets : numpackets < 2)
    (length : part.length = len) (small : len ≤ pathMtuTheora) :
    Bears mark.toUInt8 part (fragmentHeader ident mark numpackets len ++ part) := by
  have path : pathMtuTheora = 1282 := rfl
  subst length
  have bits : ∀ mark < 4, ∀ numpackets < 2,
      tdtOf (mark % 4 * 64 + numpackets % 16).toUInt8 = 0 ∧
        markOf (mark % 4 * 64 + numpackets % 16).toUInt8 = mark.toUInt8 := by
    decide
  rw [fragmentHeader_eq, List.append_assoc]
  refine ⟨⟨_, rfl, bits mark marked numpackets packets⟩, ?_, ?_⟩
  · refine readU16_eq_ok_iff.mpr ⟨by simp, ?_⟩
    exact (be16_append [_, _, _, _] (by omega) part).symm
  · refine readBytes_eq_ok_iff.mpr ⟨by simp; omega, ?_⟩
    exact (List.append_nil part ▸ slice_append ([_, _, _, _] ++ htons part.length) part []).symm

theorem Bears.kind_eq {mark : Byte} (bears : Bears mark part data) : kind data = mark := by
  rcases bears.byte with ⟨byte, third, -, marked⟩
  rw [kind, List.getD_eq_getElem?_getD, third]
  exact marked

theorem Bears.be16_eq {mark : Byte} (bears : Bears mark part data) :
    be16 data 4 = part.length :=
  (readU16_eq_ok_iff.mp bears.length).2.symm

/-- What the receiver does with a fragment. -/
theorem Bears.received {mark : Byte} (bears : Bears mark part data) (heap : Nat → Byte)
    (s : Receivers) (cdc : Nat) :
    s.onTheoraPacketReceived heap cdc data = .ok (s.place heap cdc mark part) := by
  rcases bears.byte with ⟨byte, third, type, marked⟩
  rw [Receivers.onTheoraPacketReceived, third]
  simp only [type, marked, if_true, Receivers.dispatchFramePacket, bears.length, bears.bytes,
    ok_bind]

/-! ## Buffers -/

namespace Receivers

variable {heap : Nat → Byte} {s : Receivers} {cdc other : Nat} {done : List Byte}

/-- What is put behind the bytes that are there. -/
theorem append_continues (here : s.curpos = done.length) (holds : done <+: s.buffer cdc) :
    done ++ data <+: (s.append heap cdc data).buffer cdc := by
  have inside := holds.length_le
  have taken (block : List Byte) (kept : done <+: block) :
      block.take s.curpos = done := by
    rw [here]
    exact (List.prefix_iff_eq_take.mp kept).symm
  rw [append]
  simp only [Function.update_self]
  refine List.IsPrefix.trans ?_ (List.prefix_append _ _)
  split
  · rcases @realloc_eq_append (s.curpos + data.length) heap (s.buffer cdc) (by omega) with
      ⟨fresh, grown⟩
    rw [grown, taken _ (holds.trans (List.prefix_append _ _))]
  · rw [taken _ holds]

theorem curpos_append : (s.append heap cdc data).curpos = s.curpos + data.length :=
  rfl

theorem buffer_append_of_ne (apart : other ≠ cdc) :
    (s.append heap cdc data).buffer other = s.buffer other := by
  rw [append]
  exact Function.update_of_ne apart _ _

theorem packetin_append (here : s.curpos = done.length) (holds : done <+: s.buffer cdc) :
    (s.append heap cdc data).packetin cdc = done ++ data := by
  have length : (s.append heap cdc data).curpos = (done ++ data).length := by
    rw [curpos_append, here, List.length_append]
  rw [packetin, length]
  exact (List.prefix_iff_eq_take.mp (append_continues here holds)).symm

end Receivers

/-! ## Stages of a context -/

theorem sendFragments_nil (ident numpackets fuel sent : Nat) :
    sendFragments ident numpackets fuel sent [] = [] := by
  cases fuel with
  | zero => rfl
  | succ fuel => rfl

/-- The number of turns is never too small. -/
theorem sendFragments_fuel {fuel sent : Nat} {rest : List Byte} (enough : rest.length ≤ fuel) :
    sendFragments ident numpackets fuel sent rest =
      sendFragments ident numpackets rest.length sent rest := by
  induction fuel using Nat.strong_induction_on generalizing sent rest with
  | _ fuel ih =>
      cases rest with
      | nil => rw [sendFragments_nil, sendFragments_nil]
      | cons byte rest =>
          cases fuel with
          | zero => exact absurd enough (Nat.not_succ_le_zero _)
          | succ fuel =>
              rw [List.length_cons, sendFragments, sendFragments]
              have shorter (len : Nat) (least : 0 < len) :
                  ((byte :: rest).drop len).length ≤ rest.length := by
                simp only [List.length_drop, List.length_cons]
                omega
              have positive : 0 < if pathMtuTheora < (byte :: rest).length then pathMtuTheora
                  else (byte :: rest).length := by
                split
                · decide
                · exact Nat.succ_pos _
              have below := Nat.le_of_succ_le_succ enough
              simp only [List.cons_ne_nil, if_false]
              rw [ih fuel (Nat.lt_succ_self _) ((shorter _ positive).trans below)]
              rw [ih rest.length (Nat.lt_succ_of_le below) (shorter _ positive)]

/-- The next fragment and the others. -/
theorem sendFragments_cons {sent : Nat} {rest : List Byte} (more : rest ≠ []) :
    sendFragments ident numpackets rest.length sent rest =
      if pathMtuTheora < rest.length then
        (fragmentHeader ident (if sent ≠ 0 then 2 else 1) numpackets pathMtuTheora ++
            rest.take pathMtuTheora) ::
          sendFragments ident numpackets (rest.drop pathMtuTheora).length (sent + pathMtuTheora)
            (rest.drop pathMtuTheora)
      else
        [fragmentHeader ident (if sent ≠ 0 then 3 else 0) numpackets rest.length ++ rest] := by
  rcases Nat.exists_eq_succ_of_ne_zero (List.length_pos_iff.mpr more).ne' with ⟨fuel, length⟩
  rw [length, sendFragments, ← length]
  simp only [more, if_false]
  split
  · rw [sendFragments_fuel]
    rw [List.length_drop]
    have positive : 0 < pathMtuTheora := by decide
    omega
  · rw [List.take_length, List.drop_length, sendFragments_nil]

/-- How far a context has come: the parts of the packet that it is in, and the packets behind. -/
structure Stage where
  done : List Byte
  rest : List Byte
  todo : List (List Byte)

namespace Stage

/-- The payloads that are still to come. -/
def payloads (ident : Nat) (st : Stage) : List (List Byte) :=
  sendFragments ident 0 st.rest.length st.done.length st.rest ++
    st.todo.flatMap (Theora.payloads ident)

/-- The packets that are still to come. -/
def packets (st : Stage) : List (List Byte) :=
  (if st.rest = [] then [] else [st.done ++ st.rest]) ++ st.todo

/-- A packet that is open has begun, and no packet is empty. -/
structure Proper (st : Stage) : Prop where
  begun : st.rest ≠ [] → st.done ≠ []
  nonempty : ∀ packet ∈ st.todo, packet ≠ []

/-- What a fragment makes of a stage, and the packet that it completes. -/
inductive Next : Stage → Byte → List Byte → Stage → Option (List Byte) → Prop where
  | whole {done packet : List Byte} {todo : List (List Byte)} :
      Next ⟨done, [], packet :: todo⟩ 0 packet ⟨[], [], todo⟩ (some packet)
  | first {done part rest : List Byte} {todo : List (List Byte)} (more : rest ≠ []) :
      Next ⟨done, [], (part ++ rest) :: todo⟩ 1 part ⟨part, rest, todo⟩ none
  | middle {done part rest : List Byte} {todo : List (List Byte)} (more : rest ≠ []) :
      Next ⟨done, part ++ rest, todo⟩ 2 part ⟨done ++ part, rest, todo⟩ none
  | last {done part : List Byte} {todo : List (List Byte)} (filled : part ≠ []) :
      Next ⟨done, part, todo⟩ 3 part ⟨[], [], todo⟩ (some (done ++ part))

variable {st st' : Stage} {more : List (List Byte)}

theorem exists_next (proper : st.Proper) (payloads : st.payloads ident = data :: more) :
    ∃ mark part st' packet, Next st mark part st' packet ∧ Bears mark part data ∧
      st'.payloads ident = more ∧ st'.Proper := by
  rcases st with ⟨done, rest, todo⟩
  rcases proper with ⟨begun, nonempty⟩
  have positive : 0 < pathMtuTheora := by decide
  by_cases unsent : rest = []
  · subst unsent
    cases todo with
    | nil => cases payloads
    | cons packet todo =>
        have filled := nonempty packet List.mem_cons_self
        have later : ∀ packet ∈ todo, packet ≠ [] :=
          fun packet member => nonempty packet (List.mem_cons_of_mem _ member)
        rw [Stage.payloads, sendFragments_nil, List.nil_append, List.flatMap_cons,
          Theora.payloads, sendFragments_cons filled] at payloads
        split at payloads
        · next large =>
            cases payloads
            have part : (packet.take pathMtuTheora).length = pathMtuTheora := by
              rw [List.length_take]
              omega
            have next : Next ⟨done, [], packet :: todo⟩ 1 (packet.take pathMtuTheora)
                ⟨packet.take pathMtuTheora, packet.drop pathMtuTheora, todo⟩ none := by
              have first := @Next.first done (packet.take pathMtuTheora) _ todo
                (List.drop_eq_nil_iff.not.mpr (Nat.not_le.mpr large))
              rwa [List.take_append_drop] at first
            refine ⟨1, _, _, none, next, bears_fragment ident (by decide) (by decide) part le_rfl,
              ?_, fun _ => ?_, later⟩
            · rw [Stage.payloads, part, Nat.zero_add]
              rfl
            · have filled : 0 < (packet.take pathMtuTheora).length := by
                rw [part]
                exact positive
              exact List.length_pos_iff.mp filled
        · next small =>
            cases payloads
            exact ⟨0, packet, _, _, .whole,
              bears_fragment ident (by decide) (by decide) rfl (Nat.le_of_not_lt small),
              rfl, fun impossible => absurd rfl impossible, later⟩
  · have sent : done.length ≠ 0 := (List.length_pos_iff.mpr (begun unsent)).ne'
    rw [Stage.payloads, sendFragments_cons unsent] at payloads
    simp only [sent, ne_eq, not_false_eq_true, if_true] at payloads
    split at payloads
    · next large =>
        cases payloads
        have part : (rest.take pathMtuTheora).length = pathMtuTheora := by
          rw [List.length_take]
          omega
        have next : Next ⟨done, rest, todo⟩ 2 (rest.take pathMtuTheora)
            ⟨done ++ rest.take pathMtuTheora, rest.drop pathMtuTheora, todo⟩ none := by
          have middle := @Next.middle done (rest.take pathMtuTheora) _ todo
            (List.drop_eq_nil_iff.not.mpr (Nat.not_le.mpr large))
          rwa [List.take_append_drop] at middle
        refine ⟨2, _, _, none, next, bears_fragment ident (by decide) (by decide) part le_rfl,
          ?_, fun _ => ?_, nonempty⟩
        · rw [Stage.payloads, List.length_append, part]
          rfl
        · exact List.append_ne_nil_of_left_ne_nil (begun unsent) _
    · next small =>
        cases payloads
        exact ⟨3, rest, _, _, .last unsent,
          bears_fragment ident (by decide) (by decide) rfl (Nat.le_of_not_lt small),
          rfl, fun impossible => absurd rfl impossible, nonempty⟩

/-- The packet that a fragment completes is the next one. -/
theorem Next.packets_eq {mark : Byte} {packet : Option (List Byte)}
    (next : Next st mark part st' packet) :
    st.packets = packet.toList ++ st'.packets := by
  cases next with
  | whole => rfl
  | first more => simp [packets, more]
  | middle more => simp [packets, more]
  | last filled => simp [packets, filled]

/-- Outside of a packet a fragment begins one. -/
theorem Next.mark_eq {mark : Byte} {packet : Option (List Byte)}
    (next : Next st mark part st' packet) (outside : st.rest = []) : mark = 0 ∨ mark = 1 := by
  cases next with
  | whole => exact .inl rfl
  | first more => exact .inr rfl
  | middle more => exact absurd (List.append_eq_nil_iff.mp outside).2 more
  | last filled => exact absurd outside filled

/-- Without payloads there is no packet. -/
theorem packets_eq_nil (proper : st.Proper) (payloads : st.payloads ident = []) :
    st.packets = [] := by
  rcases st with ⟨done, rest, todo⟩
  rcases List.append_eq_nil_iff.mp payloads with ⟨none, others⟩
  have sent : rest = [] := by
    by_contra unsent
    rw [sendFragments_cons unsent] at none
    split at none
    · cases none
    · cases none
  cases todo with
  | nil => simp [packets, sent]
  | cons packet todo =>
      have filled := proper.nonempty packet List.mem_cons_self
      rw [List.flatMap_cons, Theora.payloads, sendFragments_cons filled] at others
      split at others
      · cases others
      · cases others

end Stage

/-! ## Interleavings -/

/-- The position behind some payloads, if no other context moves it. -/
def position (l : List (List Byte)) : Nat :=
  l.foldl (fun n data => if kind data = 0 ∨ kind data = 1 then be16 data 4 else n + be16 data 4) 0

/-- The payloads of one context. -/
def ofContext (cdc : Nat) (arrivals : List (Nat × List Byte)) : List (List Byte) :=
  (arrivals.filter (·.1 = cdc)).map Prod.snd

/-- Every fragment that continues a packet finds the position that all the payloads before it lead
to where the payloads of its own context lead to. -/
def Aligned (arrivals : List (Nat × List Byte)) : Prop :=
  ∀ before cdc data after, arrivals = before ++ (cdc, data) :: after →
    kind data ≠ 0 → kind data ≠ 1 →
      position (before.map Prod.snd) = position (ofContext cdc before)

variable {history : List (Nat × List Byte)} {stage : Nat → Stage} {heap : Nat → Byte}
  {s : Receivers}

theorem position_snoc (l : List (List Byte)) (data : List Byte) : position (l ++ [data]) =
    if kind data = 0 ∨ kind data = 1 then be16 data 4 else position l + be16 data 4 := by
  rw [position, List.foldl_append]
  rfl

theorem ofContext_append (cdc : Nat) (l l' : List (Nat × List Byte)) :
    ofContext cdc (l ++ l') = ofContext cdc l ++ ofContext cdc l' := by
  rw [ofContext, List.filter_append, List.map_append]
  rfl

theorem ofContext_cons_self (cdc : Nat) (data : List Byte) (l : List (Nat × List Byte)) :
    ofContext cdc ((cdc, data) :: l) = data :: ofContext cdc l := by
  simp [ofContext]

theorem ofContext_cons_of_ne {cdc other : Nat} (apart : other ≠ cdc) (data : List Byte)
    (l : List (Nat × List Byte)) : ofContext other ((cdc, data) :: l) = ofContext other l := by
  simp [ofContext, Ne.symm apart]

/-- Where the receivers are behind some payloads: a context that is inside a packet holds the
parts of it. -/
structure Reached (history : List (Nat × List Byte)) (stage : Nat → Stage) (s : Receivers) :
    Prop where
  curpos : s.curpos = position (history.map Prod.snd)
  proper : ∀ cdc, (stage cdc).Proper
  holds : ∀ cdc, (stage cdc).rest ≠ [] → (stage cdc).done <+: s.buffer cdc ∧
    position (ofContext cdc history) = (stage cdc).done.length

/-- What is to be shown of one context when a payload for it arrives. -/
theorem Reached.extend {cdc : Nat} {st' : Stage} {s' : Receivers}
    (reached : Reached history stage s)
    (curpos : s'.curpos = position (history.map Prod.snd ++ [data])) (proper : st'.Proper)
    (others : ∀ other, other ≠ cdc → s'.buffer other = s.buffer other)
    (holds : st'.rest ≠ [] → st'.done <+: s'.buffer cdc ∧
      position (ofContext cdc history ++ [data]) = st'.done.length) :
    Reached (history ++ [(cdc, data)]) (Function.update stage cdc st') s' where
  curpos := by
    rw [List.map_append]
    exact curpos
  proper other := by
    by_cases same : other = cdc
    · subst same
      rw [Function.update_self]
      exact proper
    · rw [Function.update_of_ne same]
      exact reached.proper other
  holds other := by
    rw [ofContext_append]
    by_cases same : other = cdc
    · subst same
      rw [Function.update_self, ofContext_cons_self]
      exact holds
    · rw [Function.update_of_ne same, ofContext_cons_of_ne same, others other same]
      have none : ofContext other [] = [] := rfl
      rw [none, List.append_nil]
      exact reached.holds other

/-- One fragment, which finds its position. -/
theorem Reached.step {cdc : Nat} {mark : Byte} {st' : Stage} {packet : Option (List Byte)}
    (reached : Reached history stage s) (next : (stage cdc).Next mark part st' packet)
    (bears : Bears mark part data) (proper : st'.Proper)
    (aligned : mark ≠ 0 → mark ≠ 1 →
      position (history.map Prod.snd) = position (ofContext cdc history)) :
    (s.place heap cdc mark part).2 = packet ∧
      Reached (history ++ [(cdc, data)]) (Function.update stage cdc st')
        (s.place heap cdc mark part).1 := by
  have marked := bears.kind_eq
  have long := bears.be16_eq
  have moved (l : List (List Byte)) : position (l ++ [data]) =
      if mark = 0 ∨ mark = 1 then part.length else position l + part.length := by
    rw [position_snoc, marked, long]
  have holds := reached.holds cdc
  have here := reached.curpos
  generalize stage_eq : stage cdc = st at next holds
  cases next with
  | whole =>
      refine ⟨?_, reached.extend ?_ proper (fun other apart => ?_) fun more => absurd rfl more⟩
      · exact congrArg some (Receivers.packetin_append rfl List.nil_prefix)
      · rw [moved]
        exact Nat.zero_add _
      · exact Receivers.buffer_append_of_ne apart
  | first more =>
      refine ⟨rfl, reached.extend ?_ proper (fun other apart => ?_) fun _ => ⟨?_, ?_⟩⟩
      · rw [moved]
        exact Nat.zero_add _
      · exact (Receivers.buffer_append_of_ne apart).trans (Function.update_of_ne apart _ _)
      · exact @Receivers.append_continues _ _ _ _ [] rfl List.nil_prefix
      · rw [moved]
        rfl
  | @middle done part rest todo more =>
      rcases holds (List.append_ne_nil_of_right_ne_nil _ more) with ⟨kept, own⟩
      have place : s.curpos = done.length := by
        rw [here, aligned (by decide) (by decide), own]
      refine ⟨rfl, reached.extend ?_ proper (fun other apart => ?_) fun _ => ⟨?_, ?_⟩⟩
      · rw [moved, ← here]
        rfl
      · exact Receivers.buffer_append_of_ne apart
      · exact Receivers.append_continues place kept
      · rw [moved, own, List.length_append]
        rfl
  | @last done part todo filled =>
      rcases holds filled with ⟨kept, own⟩
      have place : s.curpos = done.length := by
        rw [here, aligned (by decide) (by decide), own]
      refine ⟨?_, reached.extend ?_ proper (fun other apart => ?_) fun more => absurd rfl more⟩
      · exact congrArg some (Receivers.packetin_append place kept)
      · rw [moved, ← here]
        rfl
      · exact Receivers.buffer_append_of_ne apart

/-- The payloads that are left, with those that came before them. -/
theorem Reached.receive {ident : Nat → Nat} {arrivals : List (Nat × List Byte)}
    (reached : Reached history stage s)
    (own : ∀ cdc, ofContext cdc arrivals = (stage cdc).payloads (ident cdc))
    (aligned : Aligned (history ++ arrivals)) :
    ∃ s' packets, Receivers.receive heap s arrivals = .ok (s', packets) ∧
      ∀ cdc, ofContext cdc packets = (stage cdc).packets := by
  induction arrivals generalizing history stage s with
  | nil =>
      refine ⟨s, [], rfl, fun cdc => ?_⟩
      exact (Stage.packets_eq_nil (reached.proper cdc) (own cdc).symm).symm
  | cons arrival rest ih =>
      rcases arrival with ⟨cdc, data⟩
      have here := own cdc
      rw [ofContext_cons_self] at here
      rcases Stage.exists_next (reached.proper cdc) here.symm with
        ⟨mark, part, st', packet, next, bears, later, proper⟩
      have placed : mark ≠ 0 → mark ≠ 1 →
          position (history.map Prod.snd) = position (ofContext cdc history) := by
        intro notWhole notFirst
        rw [← bears.kind_eq] at notWhole notFirst
        exact aligned history cdc data rest rfl notWhole notFirst
      rcases @Reached.step _ _ _ _ heap _ _ _ _ _ reached next bears proper placed with
        ⟨handed, reached'⟩
      rcases place_eq : s.place heap cdc mark part with ⟨s₁, packet'⟩
      rw [place_eq] at handed reached'
      subst handed
      have own' : ∀ other, ofContext other rest =
          (Function.update stage cdc st' other).payloads (ident other) := by
        intro other
        by_cases same : other = cdc
        · subst same
          rw [Function.update_self, later]
        · rw [Function.update_of_ne same, ← own other, ofContext_cons_of_ne same]
      rcases ih reached' own' (by simpa using aligned) with ⟨s', packets, received, each⟩
      refine ⟨s', (packet'.map fun packet => (cdc, packet)).toList ++ packets, ?_, fun other => ?_⟩
      · rw [Receivers.receive, bears.received, ok_bind, place_eq]
        simp only [received, ok_bind]
      · rw [ofContext_append, each]
        by_cases same : other = cdc
        · subst same
          rw [Function.update_self, next.packets_eq]
          cases packet' with
          | none => rfl
          | some packet => simp [ofContext]
        · rw [Function.update_of_ne same]
          cases packet' with
          | none => rfl
          | some packet => simp [ofContext, Ne.symm same]

/-- **Several decoders.**  When every fragment that continues a packet finds the position where its
own context left it, each decoder gets the packets that were sent to it. -/
theorem decoders_receive {ident : Nat → Nat} {packets : Nat → List (List Byte)}
    {arrivals : List (Nat × List Byte)} (nonempty : ∀ cdc, ∀ packet ∈ packets cdc, packet ≠ [])
    (own : ∀ cdc, ofContext cdc arrivals = (packets cdc).flatMap (payloads (ident cdc)))
    (aligned : Aligned arrivals) (heap : Nat → Byte) :
    ∃ s decoded, Receivers.receive heap .start arrivals = .ok (s, decoded) ∧
      ∀ cdc, ofContext cdc decoded = packets cdc := by
  have reached : Reached [] (fun cdc => ⟨[], [], packets cdc⟩) .start :=
    ⟨rfl, fun cdc => ⟨fun more => absurd rfl more, nonempty cdc⟩, fun _ more => absurd rfl more⟩
  exact reached.receive own aligned

theorem ofContext_eq_nil {cdc : Nat} {arrivals : List (Nat × List Byte)}
    (none : cdc ∉ arrivals.map Prod.fst) : ofContext cdc arrivals = [] := by
  rw [ofContext, List.filter_eq_nil_iff.mpr, List.map_nil]
  intro arrival member same
  exact none (List.mem_map.mpr ⟨arrival, member, by simpa using same⟩)

theorem ofContext_map (cdc : Nat) (l : List (List Byte)) :
    ofContext cdc (l.map fun data => (cdc, data)) = l := by
  induction l with
  | nil => rfl
  | cons data rest ih => rw [List.map_cons, ofContext_cons_self, ih]

theorem ofContext_map_of_ne {cdc other : Nat} (apart : other ≠ cdc) (l : List (List Byte)) :
    ofContext other (l.map fun data => (cdc, data)) = [] := by
  apply ofContext_eq_nil
  rw [List.map_map]
  intro member
  rcases List.mem_map.mp member with ⟨_, -, same⟩
  exact apart same.symm

/-! ### Packets one after the other -/

/-- A fragment that does not continue a packet. -/
def Begins (data : List Byte) : Prop :=
  kind data = 0 ∨ kind data = 1

/-- What was there before a packet begins does not matter. -/
theorem position_append {first : List Byte} (begins : Begins first) (l rest : List (List Byte)) :
    position (l ++ first :: rest) = position (first :: rest) := by
  rw [position, position, List.foldl_append, List.foldl_cons, List.foldl_cons]
  have same : ∀ n m, (if kind first = 0 ∨ kind first = 1 then be16 first 4
      else n + be16 first 4) = if kind first = 0 ∨ kind first = 1 then be16 first 4
      else m + be16 first 4 := by
    intro n m
    exact (if_pos begins).trans (if_pos begins).symm
  exact congrArg (List.foldl _ · rest) (same _ _)

/-- Payloads that begin with a packet may come behind others. -/
theorem Aligned.append_map {l : List (Nat × List Byte)} {block : List (List Byte)} {cdc : Nat}
    (aligned : Aligned l) (begins : ∀ first rest, block = first :: rest → Begins first) :
    Aligned (l ++ block.map fun data => (cdc, data)) := by
  intro before other data after split notWhole notFirst
  rcases List.append_eq_append_iff.mp split with ⟨more, cut, tail⟩ | ⟨more, cut, tail⟩
  · rcases List.map_eq_append_iff.mp tail with ⟨front, back, rfl, rfl, rest⟩
    rcases List.map_eq_cons_iff.mp rest with ⟨data', back', rfl, same, -⟩
    cases same
    cases front with
    | nil => exact absurd (begins data back' rfl) (not_or.mpr ⟨notWhole, notFirst⟩)
    | cons first front =>
        have begins' := begins first (front ++ data :: back') rfl
        have later : ((first :: front).map fun data => (cdc, data)).map Prod.snd =
            first :: front := by
          rw [List.map_map]
          exact List.map_id _
        rw [cut, List.map_append, later, ofContext_append, ofContext_map,
          position_append begins', position_append begins']
  · cases more with
    | nil =>
        rw [List.nil_append] at tail
        rcases List.map_eq_cons_iff.mp tail.symm with ⟨data', back, rfl, same, -⟩
        cases same
        exact absurd (begins data back rfl) (not_or.mpr ⟨notWhole, notFirst⟩)
    | cons arrival more =>
        cases tail
        exact aligned before other data more cut notWhole notFirst

theorem begins_payloads {ident : Nat} {packet first : List Byte} {rest : List (List Byte)}
    (sent : payloads ident packet = first :: rest) : Begins first := by
  have some : packet ≠ [] := by
    rintro rfl
    cases sent
  have proper : Stage.Proper ⟨[], [], [packet]⟩ :=
    ⟨fun more => absurd rfl more, fun _ member => List.mem_singleton.mp member ▸ some⟩
  have stage : Stage.payloads ident ⟨[], [], [packet]⟩ = first :: rest := by
    rw [Stage.payloads, sendFragments_nil, List.nil_append, List.flatMap_singleton, sent]
  rcases Stage.exists_next proper stage with ⟨mark, part, st', done, next, bears, -⟩
  rw [Begins, bears.kind_eq]
  exact next.mark_eq rfl

/-- Contexts that take turns, each with a whole packet. -/
def turns (ident : Nat → Nat) (l : List (Nat × List Byte)) : List (Nat × List Byte) :=
  l.flatMap fun turn => (payloads (ident turn.1) turn.2).map fun data => (turn.1, data)

theorem ofContext_turns (ident : Nat → Nat) (cdc : Nat) (l : List (Nat × List Byte)) :
    ofContext cdc (turns ident l) = (ofContext cdc l).flatMap (payloads (ident cdc)) := by
  induction l with
  | nil => rfl
  | cons turn rest ih =>
      rcases turn with ⟨other, packet⟩
      rw [turns, List.flatMap_cons, ofContext_append]
      by_cases same : cdc = other
      · subst same
        rw [ofContext_cons_self, List.flatMap_cons, ofContext_map]
        exact congrArg _ ih
      · rw [ofContext_cons_of_ne same, ofContext_map_of_ne same, List.nil_append]
        exact ih

/-- Contexts that take turns with whole packets find their positions. -/
theorem aligned_turns (ident : Nat → Nat) (l : List (Nat × List Byte)) :
    Aligned (turns ident l) := by
  induction l using List.reverseRecOn with
  | nil =>
      intro before cdc data after split
      exact absurd split.symm (List.append_ne_nil_of_right_ne_nil _ (List.cons_ne_nil _ _))
  | append_singleton rest turn ih =>
      rw [turns, List.flatMap_append, List.flatMap_singleton]
      exact Aligned.append_map ih fun _ _ => begins_payloads

/-- A packet that takes two fragments. -/
def long : List Byte :=
  List.replicate 1283 0x2A

theorem length_long : long.length = 1283 :=
  List.length_replicate

theorem long_ne_nil : long ≠ [] := by
  rw [← List.length_pos_iff, length_long]
  decide

theorem decoders_receive_turns : ∃ s decoded,
    Receivers.receive (fun _ => 0) .start
        (turns (fun _ => 0) [(0, long), (1, long), (0, [0x17])]) = .ok (s, decoded) ∧
      ofContext 0 decoded = [long, [0x17]] ∧ ofContext 1 decoded = [long] := by
  have nonempty : ∀ cdc, ∀ packet ∈ ofContext cdc [(0, long), (1, long), (0, [0x17])],
      packet ≠ [] := by
    intro cdc packet member
    rcases List.mem_map.mp member with ⟨turn, inside, rfl⟩
    have turn_eq := List.mem_of_mem_filter inside
    simp only [List.mem_cons, List.not_mem_nil, or_false] at turn_eq
    rcases turn_eq with rfl | rfl | rfl
    · exact long_ne_nil
    · exact long_ne_nil
    · exact List.cons_ne_nil _ _
  rcases decoders_receive nonempty (fun cdc => ofContext_turns (fun _ => 0) cdc _)
      (aligned_turns _ _) fun _ => 0 with ⟨s, decoded, received, each⟩
  exact ⟨s, decoded, received, each 0, each 1⟩

/-- Between the two fragments of a packet the decoder of another context gets one. -/
def crossed : List (Nat × List Byte) :=
  match payloads 0 long with
  | [first, last] => [(0, first), (1, fragmentHeader 0 0 1 1 ++ [0x17]), (0, last)]
  | _ => []

theorem not_decoders_receive_crossed :
    ¬∀ (ident : Nat → Nat) (packets : Nat → List (List Byte)) (arrivals : List (Nat × List Byte)),
      (∀ cdc, ∀ packet ∈ packets cdc, packet ≠ []) →
      (∀ cdc, ofContext cdc arrivals = (packets cdc).flatMap (payloads (ident cdc))) →
      ∀ heap, ∃ s decoded, Receivers.receive heap .start arrivals = .ok (s, decoded) ∧
        ∀ cdc, ofContext cdc decoded = packets cdc := by
  intro receive
  have run : ∃ arrivals, Runs.Lands (fun r => (ofContext 0 r.2).map List.length = [2])
        (fun _ => False) (Receivers.receive (fun _ => 0) .start arrivals) ∧
      arrivals.map Prod.fst = [0, 1, 0] ∧
      ofContext 0 arrivals = [long].flatMap (payloads 0) ∧
      ofContext 1 arrivals = [[0x17]].flatMap (payloads 0) :=
    ⟨crossed, by decide +kernel, by decide +kernel, by decide +kernel, by decide +kernel⟩
  rcases run with ⟨arrivals, short, contexts, own, own'⟩
  rcases Runs.lands_false_iff.mp short with ⟨r, received, lengths⟩
  let packets (cdc : Nat) : List (List Byte) :=
    if cdc = 0 then [long] else if cdc = 1 then [[0x17]] else []
  have nonempty : ∀ cdc, ∀ packet ∈ packets cdc, packet ≠ [] := by
    intro cdc packet member
    dsimp only [packets] at member
    split at member
    · rw [List.mem_singleton.mp member]
      exact long_ne_nil
    · split at member
      · rw [List.mem_singleton.mp member]
        exact List.cons_ne_nil _ _
      · cases member
  have owns : ∀ cdc, ofContext cdc arrivals = (packets cdc).flatMap (payloads 0) := by
    intro cdc
    dsimp only [packets]
    split
    · next same =>
        subst same
        exact own
    · next notZero =>
        split
        · next same =>
            subst same
            exact own'
        · next notOne =>
            apply ofContext_eq_nil
            rw [contexts]
            simp [notZero, notOne]
  rcases receive (fun _ => 0) packets arrivals nonempty owns fun _ => 0 with
    ⟨s, decoded, received', each⟩
  cases received.symm.trans received'
  have first : packets 0 = [long] := if_pos rfl
  rw [each 0, first, List.map_singleton, length_long] at lengths
  cases lengths

end Xwbot.Video.Theora
