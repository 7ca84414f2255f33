import Xwbot.Video.Reassembly
import Xwbot.XString

/-!
# VP8 frames under loss

Packets may be lost, repeated or reordered, and others may come in between.
The receiver does not note whether a frame is open: a middle or a last fragment
is put at `curpos` in any case.  `Open` says of the packets that arrived what
the frame that is open consists of, and `Fits` is what a packet must meet.
-/

namespace Xwbot.Video

/-! ## What packets bring -/

/-- The fragment in a packet, if it has a descriptor. -/
def fragment (data : List Byte) : Option (FragInfo × List Byte) :=
  (parseVp8Packet data).map fun parsed => (parsed.1.fragmentationInfo, data.drop parsed.2)

/-- Middle fragments and packets without a descriptor, and the bytes that they bring. -/
inductive Middles : List (List Byte) → List Byte → Prop where
  | nil : Middles [] []
  | ignored {data : List Byte} {packets : List (List Byte)} {body : List Byte}
      (malformed : fragment data = none) (later : Middles packets body) :
      Middles (data :: packets) body
  | part {data part : List Byte} {packets : List (List Byte)} {body : List Byte}
      (middle : fragment data = some (.middleFragment, part)) (later : Middles packets body) :
      Middles (data :: packets) (part ++ body)

/-- The packets end with a first fragment and the middle fragments behind it. -/
def Open (packets : List (List Byte)) (bytes : List Byte) : Prop :=
  ∃ before head between front body, packets = before ++ head :: between ∧
    fragment head = some (.firstFragment, front) ∧ Middles between body ∧ bytes = front ++ body

/-- The buffer is a whole frame, as far as the packets tell. -/
def Whole (before : List (List Byte)) (data buffer : List Byte) : Prop :=
  fragment data = some (.notFragmented, buffer) ∨
    ∃ bytes tail, Open before bytes ∧ fragment data = some (.lastFragment, tail) ∧
      buffer = bytes ++ tail

variable {packets before : List (List Byte)} {data bytes payload : List Byte}

theorem Middles.snoc_ignored (middles : Middles packets bytes) (malformed : fragment data = none) :
    Middles (packets ++ [data]) bytes := by
  induction middles with
  | nil => exact .ignored malformed .nil
  | ignored other _ ih => exact .ignored other ih
  | part middle _ ih => exact .part middle ih

theorem Middles.snoc_part (middles : Middles packets bytes)
    (middle : fragment data = some (.middleFragment, payload)) :
    Middles (packets ++ [data]) (bytes ++ payload) := by
  induction middles with
  | nil =>
      rw [List.nil_append, List.nil_append, ← List.append_nil payload]
      exact .part middle .nil
  | ignored other _ ih => exact .ignored other ih
  | part other _ ih =>
      rw [List.append_assoc]
      exact .part other ih

/-- The last of the packets, which is a middle fragment or ignored. -/
theorem Middles.of_snoc (middles : Middles (packets ++ [data]) bytes) :
    fragment data = none ∧ Middles packets bytes ∨
      ∃ body part, fragment data = some (.middleFragment, part) ∧ Middles packets body ∧
        bytes = body ++ part := by
  induction packets generalizing bytes with
  | nil =>
      cases middles with
      | ignored malformed later =>
          cases later
          exact .inl ⟨malformed, .nil⟩
      | part middle later =>
          cases later
          exact .inr ⟨[], _, middle, .nil, by simp⟩
  | cons head packets ih =>
      cases middles with
      | ignored malformed later =>
          rcases ih later with ⟨none, inside⟩ | ⟨body, part, middle, inside, rfl⟩
          · exact .inl ⟨none, .ignored malformed inside⟩
          · exact .inr ⟨body, part, middle, .ignored malformed inside, rfl⟩
      | @part _ first _ _ other later =>
          rcases ih later with ⟨none, inside⟩ | ⟨body, part, middle, inside, rfl⟩
          · exact .inl ⟨none, .part other inside⟩
          · exact .inr ⟨first ++ body, part, middle, .part other inside,
              (List.append_assoc _ _ _).symm⟩

/-- What is open behind one more packet. -/
theorem open_snoc_iff : Open (packets ++ [data]) bytes ↔
    match fragment data with
    | none => Open packets bytes
    | some (.firstFragment, payload) => bytes = payload
    | some (.middleFragment, payload) => ∃ opened, Open packets opened ∧ bytes = opened ++ payload
    | some _ => False := by
  constructor
  · rintro ⟨before, head, between, front, body, split, first, middles, rfl⟩
    rcases List.eq_nil_or_concat between with rfl | ⟨between, last, rfl⟩
    · rcases List.append_inj' split rfl with ⟨-, same⟩
      cases same
      cases middles
      rw [first]
      exact List.append_nil front
    · rw [List.concat_eq_append, ← List.cons_append, ← List.append_assoc] at split
      rcases List.append_inj' split rfl with ⟨rfl, same⟩
      cases same
      rw [List.concat_eq_append] at middles
      rcases middles.of_snoc with ⟨malformed, inside⟩ | ⟨body, part, middle, inside, rfl⟩
      · rw [malformed]
        exact ⟨before, head, between, front, body, rfl, first, inside, rfl⟩
      · rw [middle]
        exact ⟨front ++ body, ⟨before, head, between, front, body, rfl, first, inside, rfl⟩,
          (List.append_assoc _ _ _).symm⟩
  · cases kind : fragment data with
    | none =>
        rintro ⟨before, head, between, front, body, rfl, first, middles, rfl⟩
        exact ⟨before, head, between ++ [data], front, body, by simp, first,
          middles.snoc_ignored kind, rfl⟩
    | some received =>
        rcases received with ⟨info, payload⟩
        cases info with
        | notFragmented => exact False.elim
        | lastFragment => exact False.elim
        | firstFragment =>
            rintro rfl
            exact ⟨packets, data, [], bytes, [], rfl, kind, .nil, by simp⟩
        | middleFragment =>
            rintro ⟨_, ⟨before, head, between, front, body, rfl, first, middles, rfl⟩, rfl⟩
            exact ⟨before, head, between ++ [data], front, body ++ payload, by simp, first,
              middles.snoc_part kind, by simp⟩

theorem not_open_nil : ¬Open [] bytes := by
  rintro ⟨before, head, between, front, body, split, -⟩
  exact List.append_ne_nil_of_right_ne_nil before (List.cons_ne_nil head between) split.symm

/-! ## The receiver -/

/-- The receiver behind some packets. -/
def receiveAll (heap : Nat → Byte) (refused : List Byte → Nat) (r : Receiver)
    (packets : List (List Byte)) : Receiver :=
  packets.foldl (fun r data => (onVpxPacketReceived heap refused r data).1) r

/-- The buffer that the decoder gets. -/
def decoded (heap : Nat → Byte) (refused : List Byte → Nat) (r : Receiver) (data : List Byte) :
    Option (List Byte) :=
  if r.initialized then (onVpxPacketReceived heap refused r data).2 else none

theorem start_le_length : 0 ≤ ([] : List Byte).length :=
  Nat.le_refl 0

/-- A receiver that has no buffer yet. -/
def Receiver.new (initialized : Bool) (ioLifeCount : Int) : Receiver :=
  ⟨[], 0, initialized, ioLifeCount, start_le_length⟩

/-- What is wanted of a packet behind others: a buffer for the decoder is a whole frame, the
copy position is inside the buffer, whose size is an `int`, and no byte of the buffer depends on
what the heap held. -/
structure Sound (refused : List Byte → Nat) (r : Receiver) (before : List (List Byte))
    (data : List Byte) : Prop where
  whole : ∀ heap buffer, decoded heap refused (receiveAll heap refused r before) data =
    some buffer → Whole before data buffer
  within : ∀ heap, (receiveAll heap refused r (before ++ [data])).curpos ≤
    (receiveAll heap refused r (before ++ [data])).buffer.length
  int : ∀ heap, (receiveAll heap refused r (before ++ [data])).buffer.length ≤ intMax
  initialised : ∀ heap heap', (receiveAll heap refused r (before ++ [data])).buffer =
    (receiveAll heap' refused r (before ++ [data])).buffer

/-- A fragment is put behind the buffer and leaves its size an `int`. -/
def Receiver.Room (r : Receiver) (payload : List Byte) : Prop :=
  r.buffer.length + payload.length ≤ intMax ∧ (r.curpos = r.buffer.length ∨ payload = [])

/-- What a packet must meet if it is not ignored: a middle fragment is put behind the buffer, and
a last fragment as well; for a decoder that is set up it also comes when a frame is open. -/
def Fits (before : List (List Byte)) (r : Receiver) (data : List Byte) : Prop :=
  r.Alive →
    match fragment data with
    | none => True
    | some (.middleFragment, payload) => r.Room payload
    | some (.lastFragment, payload) =>
        r.Room payload ∧ (r.initialized = true → ∃ bytes, Open before bytes)
    | some (_, payload) => payload.length ≤ intMax

variable {heap heap' : Nat → Byte} {refused : List Byte → Nat} {r : Receiver}

theorem receiveAll_snoc : receiveAll heap refused r (before ++ [data]) =
    (onVpxPacketReceived heap refused (receiveAll heap refused r before) data).1 := by
  rw [receiveAll, receiveAll, List.foldl_append, List.foldl_cons, List.foldl_nil]

theorem received_dead (dead : ¬r.Alive) : onVpxPacketReceived heap refused r data = (r, none) :=
  if_neg dead

theorem received_malformed (malformed : fragment data = none) :
    onVpxPacketReceived heap refused r data = (r, none) := by
  rw [fragment, Option.map_eq_none_iff] at malformed
  rw [onVpxPacketReceived, malformed]
  split
  · rfl
  · rfl

/-- The receiver behind a fragment, and what is ready then. -/
theorem received_fragment {info : FragInfo} (alive : r.Alive)
    (kind : fragment data = some (info, payload)) :
    onVpxPacketReceived heap refused r data =
      match info with
      | .notFragmented =>
          (Receiver.decode refused
              { r with buffer := payload, curpos := 0, within := Nat.zero_le _ },
            some payload)
      | .firstFragment =>
          ({ r with buffer := payload, curpos := payload.length, within := Nat.le_refl _ }, none)
      | .middleFragment =>
          ({ r with
              buffer := r.appended heap payload, curpos := (r.appended heap payload).length
              within := Nat.le_refl _ }, none)
      | .lastFragment =>
          (Receiver.decode refused
              { r with buffer := r.appended heap payload, curpos := 0, within := Nat.zero_le _ },
            some (r.appended heap payload)) := by
  rcases Option.map_eq_some_iff.mp kind with ⟨⟨vp8d, off⟩, parsed, same⟩
  cases same
  rw [onVpxPacketReceived, if_pos alive, parsed]
  cases vp8d with
  | mk _ info _ _ =>
      cases info with
      | notFragmented =>
          unfold Receiver.decode
          dsimp only
      | firstFragment => rfl
      | middleFragment => rfl
      | lastFragment =>
          unfold Receiver.decode
          dsimp only

/-- A fragment is put behind the buffer, or it brings nothing. -/
theorem Receiver.Room.appended_eq (room : r.Room payload) (heap : Nat → Byte) :
    r.appended heap payload = r.buffer ++ payload := by
  rcases room.2 with behind | rfl
  · exact Receiver.appended_eq behind
  · simp [appended]

/-- The last byte of the block is new, and nothing is copied to it. -/
theorem Receiver.getElem?_appended (short : r.curpos < r.buffer.length) (nonempty : payload ≠ [])
    (heap : Nat → Byte) :
    (r.appended heap payload)[r.buffer.length + payload.length - 1]? =
      some (heap (r.buffer.length + payload.length - 1)) := by
  have positive := List.length_pos_iff.mpr nonempty
  have front : ((realloc heap r.buffer (r.buffer.length + payload.length)).take r.curpos ++
      payload).length = r.curpos + payload.length := by
    rw [List.length_append, List.length_take, length_realloc]
    omega
  rw [appended, List.getElem?_append_right (by omega), front, List.getElem?_drop]
  have here : r.curpos + payload.length + (r.buffer.length + payload.length - 1 -
      (r.curpos + payload.length)) = r.buffer.length + payload.length - 1 := by
    omega
  rw [here, realloc, List.getElem?_map, List.getElem?_range (by omega), Option.map_some,
    List.getD_eq_getElem?_getD, List.getElem?_eq_none (by omega), Option.getD_none]

/-- If no byte of the heap is taken into the buffer, the fragment is put behind it. -/
theorem Receiver.room_of_appended_eq (int : (r.appended heap payload).length ≤ intMax)
    (same : r.appended (fun _ => 0) payload = r.appended (fun _ => 1) payload) :
    r.Room payload := by
  rw [r.length_appended] at int
  refine ⟨int, ?_⟩
  by_contra apart
  rw [not_or] at apart
  have short : r.curpos < r.buffer.length := Nat.lt_of_le_of_ne r.within apart.1
  have zero := getElem?_appended short apart.2 fun _ => 0
  have one := getElem?_appended short apart.2 fun _ => 1
  rw [same, one] at zero
  cases zero

/-! ## One more packet -/

/-- The receiver holds the frame that is open, in a buffer whose size is an `int`. -/
structure Receiver.Holds (r : Receiver) (before : List (List Byte)) : Prop where
  int : r.buffer.length ≤ intMax
  opened : ∀ bytes, Open before bytes → r.Alive → r.buffer = bytes ∧ r.curpos = bytes.length

/-- What a packet that fits does, whatever the heap holds. -/
structure Receives (refused : List Byte → Nat) (before : List (List Byte)) (r : Receiver)
    (data : List Byte) (r' : Receiver) (ready : Option (List Byte)) : Prop where
  eq : ∀ heap, onVpxPacketReceived heap refused r data = (r', ready)
  initialized : r'.initialized = r.initialized
  holds : r'.Holds (before ++ [data])
  whole : r.initialized = true → ∀ buffer, ready = some buffer → Whole before data buffer

@[simp]
theorem Receiver.buffer_decode (refused : List Byte → Nat) (r : Receiver) :
    (r.decode refused).buffer = r.buffer := by
  rw [decode]
  split
  · rfl
  · rfl

@[simp]
theorem Receiver.initialized_decode (refused : List Byte → Nat) (r : Receiver) :
    (r.decode refused).initialized = r.initialized := by
  rw [decode]
  split
  · rfl
  · rfl

theorem Receiver.Holds.receives (holds : r.Holds before) (fits : Fits before r data) :
    ∃ r' ready, Receives refused before r data r' ready := by
  by_cases alive : r.Alive
  · have fits := fits alive
    cases kind : fragment data with
    | none =>
        refine ⟨r, none, fun _ => received_malformed kind, rfl, ⟨holds.int, ?_⟩, ?_⟩
        · intro bytes opened
          rw [open_snoc_iff, kind] at opened
          exact holds.opened bytes opened
        · rintro - buffer impossible
          cases impossible
    | some received =>
        rcases received with ⟨info, payload⟩
        rw [kind] at fits
        cases info with
        | notFragmented =>
            refine ⟨_, _, fun _ => received_fragment alive kind, ?_, ⟨?_, ?_⟩, ?_⟩
            · simp
            · simpa using fits
            · intro bytes opened
              rw [open_snoc_iff, kind] at opened
              exact opened.elim
            · rintro - buffer same
              cases same
              exact .inl kind
        | firstFragment =>
            refine ⟨_, _, fun _ => received_fragment alive kind, ?_, ⟨?_, ?_⟩, ?_⟩
            · rfl
            · exact fits
            · intro bytes opened _
              rw [open_snoc_iff, kind] at opened
              subst opened
              exact ⟨rfl, rfl⟩
            · rintro - buffer impossible
              cases impossible
        | middleFragment =>
            refine ⟨
              { r with
                buffer := r.buffer ++ payload, curpos := (r.buffer ++ payload).length
                within := Nat.le_refl _ },
              none, fun heap => ?_, ?_, ⟨?_, ?_⟩, ?_⟩
            · have appended := fits.appended_eq heap
              rw [received_fragment alive kind]
              simp only [appended]
            · rfl
            · simpa using fits.1
            · intro bytes opened alive'
              rw [open_snoc_iff, kind] at opened
              rcases opened with ⟨front, opened, rfl⟩
              rcases holds.opened front opened alive with ⟨same, -⟩
              rw [same]
              exact ⟨rfl, rfl⟩
            · rintro - buffer impossible
              cases impossible
        | lastFragment =>
            rcases fits with ⟨room, frame⟩
            refine ⟨
              Receiver.decode refused
                { r with buffer := r.buffer ++ payload, curpos := 0, within := Nat.zero_le _ },
              some (r.buffer ++ payload), fun heap => ?_, ?_, ⟨?_, ?_⟩, ?_⟩
            · have appended := room.appended_eq heap
              rw [received_fragment alive kind]
              simp only [appended]
            · simp
            · simpa using room.1
            · intro bytes opened
              rw [open_snoc_iff, kind] at opened
              exact opened.elim
            · intro initialized buffer same
              cases same
              rcases frame initialized with ⟨bytes, opened⟩
              rcases holds.opened bytes opened alive with ⟨same, -⟩
              exact .inr ⟨bytes, payload, opened, kind, by rw [same]⟩
  · refine ⟨r, none, fun _ => received_dead alive, rfl, ⟨holds.int, ?_⟩, ?_⟩
    · intro bytes _ alive'
      exact absurd alive' alive
    · rintro - buffer impossible
      cases impossible

/-- Behind packets that fit, the heap does not matter. -/
structure Kept (refused : List Byte → Nat) (r : Receiver) (before : List (List Byte))
    (r' : Receiver) : Prop where
  eq : ∀ heap, receiveAll heap refused r before = r'
  initialized : r'.initialized = r.initialized
  holds : r'.Holds before

variable {r' : Receiver}

theorem Kept.sound {ready : Option (List Byte)} {r'' : Receiver} (kept : Kept refused r before r')
    (receives : Receives refused before r' data r'' ready) :
    Kept refused r (before ++ [data]) r'' ∧ Sound refused r before data := by
  have reached : ∀ heap, receiveAll heap refused r (before ++ [data]) = r'' := by
    intro heap
    rw [receiveAll_snoc, kept.eq, receives.eq]
  refine ⟨⟨reached, receives.initialized.trans kept.initialized, receives.holds⟩, ?_, ?_, ?_, ?_⟩
  · intro heap buffer handed
    rw [kept.eq, decoded, receives.eq] at handed
    split at handed
    · next initialized => exact receives.whole initialized buffer handed
    · cases handed
  · intro heap
    exact (receiveAll heap refused r (before ++ [data])).within
  · intro heap
    rw [reached]
    exact receives.holds.int
  · intro heap heap'
    rw [reached, reached]

/-- A packet that is sound fits. -/
theorem Kept.fits (kept : Kept refused r before r') (sound : Sound refused r before data) :
    Fits before r' data := by
  intro alive
  have int := sound.int fun _ => 0
  have same := sound.initialised (fun _ => 0) fun _ => 1
  rw [receiveAll_snoc, kept.eq] at int same
  rw [receiveAll_snoc, kept.eq] at same
  cases kind : fragment data with
  | none => trivial
  | some received =>
      rcases received with ⟨info, payload⟩
      rw [received_fragment alive kind] at int same
      rw [received_fragment alive kind] at same
      cases info with
      | notFragmented => simpa using int
      | firstFragment => exact int
      | middleFragment => exact Receiver.room_of_appended_eq int same
      | lastFragment =>
          simp only [Receiver.buffer_decode] at int same
          refine ⟨Receiver.room_of_appended_eq int same, fun initialized => ?_⟩
          have whole := sound.whole (fun _ => 0) (r'.appended (fun _ => 0) payload) (by
            rw [kept.eq, decoded, if_pos initialized, received_fragment alive kind])
          rcases whole with single | ⟨bytes, _, opened, -⟩
          · rw [kind] at single
            cases single
          · exact ⟨bytes, opened⟩

/-- Packets that all fit, or are all sound, keep it. -/
theorem Kept.all {initialized : Bool} {lives : Int}
    (each : ∀ before data after, packets = before ++ data :: after →
      (∀ heap, Fits before (receiveAll heap refused (.new initialized lives) before) data) ∨
        Sound refused (.new initialized lives) before data) :
    ∃ r', Kept refused (.new initialized lives) packets r' := by
  induction packets using List.reverseRecOn with
  | nil =>
      exact ⟨.new initialized lives, fun _ => rfl, rfl, Nat.zero_le _, fun _ opened =>
        absurd opened not_open_nil⟩
  | append_singleton before data ih =>
      rcases ih fun before' data' after' split =>
        each before' data' (after' ++ [data]) (by rw [split]; simp) with ⟨r', kept⟩
      have fits : Fits before r' data := by
        rcases each before data [] rfl with fits | sound
        · rw [← kept.eq fun _ => 0]
          exact fits _
        · exact kept.fits sound
      rcases @Receiver.Holds.receives _ _ refused _ kept.holds fits with ⟨r'', ready, receives⟩
      exact ⟨r'', (kept.sound receives).1⟩

/-- **Reassembly under loss.**  Every packet of a sequence is sound exactly if every packet fits:
middle and last fragments go behind the buffer, and a last fragment ends a frame that is open. -/
theorem sound_iff_fits (initialized : Bool) (lives : Int) (refused : List Byte → Nat)
    (packets : List (List Byte)) :
    (∀ before data after, packets = before ++ data :: after →
      Sound refused (.new initialized lives) before data) ↔
    ∀ before data after, packets = before ++ data :: after →
      ∀ heap, Fits before (receiveAll heap refused (.new initialized lives) before) data := by
  constructor
  · intro sound before data after split heap
    have earlier : ∀ before' data' after', before = before' ++ data' :: after' →
        Sound refused (.new initialized lives) before' data' := by
      rintro before' data' after' rfl
      exact sound before' data' (after' ++ data :: after) (by rw [split]; simp)
    rcases Kept.all fun b d a s => .inr (earlier b d a s) with ⟨r', kept⟩
    rw [kept.eq]
    exact kept.fits (sound before data after split)
  · intro fits before data after split
    have earlier : ∀ before' data' after', before = before' ++ data' :: after' →
        ∀ heap, Fits before' (receiveAll heap refused (.new initialized lives) before') data' := by
      rintro before' data' after' rfl
      exact fits before' data' (after' ++ data :: after) (by rw [split]; simp)
    rcases Kept.all fun b d a s => .inl (earlier b d a s) with ⟨r', kept⟩
    have here := fits before data after split fun _ => 0
    rw [kept.eq] at here
    rcases @Receiver.Holds.receives _ _ refused _ kept.holds here with ⟨r'', ready, receives⟩
    exact (kept.sound receives).2

/-- A last fragment alone is taken for a frame. -/
theorem not_sound_last :
    ¬∀ initialized lives refused before data,
      Sound refused (.new initialized lives) before data := by
  intro sound
  have whole := (sound true 0 (fun _ => 0) [] [0x06, 0x2A]).whole (fun _ => 0) [0x2A] rfl
  rcases whole with single | ⟨bytes, _, opened, -⟩
  · cases single
  · exact not_open_nil opened

end Xwbot.Video
