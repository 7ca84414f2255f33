import Xwbot.Video.Vp8

/-!
# Frames arrive as they were sent

`Fragments` describes the packets that follow the first one of a frame.  The
receiver puts such packets together, and the sender makes such packets unless
the remainder fills its last packet exactly.  A first packet without a picture
id loses a part of the frame.
-/

namespace Xwbot.Video

variable {heap : Nat → Byte} {refused : List Byte → Nat} {r : Receiver} {sender : Sender}
  {seqno : UInt32} {stamp : Int} {frame rest payload hdr : List Byte} {info : FragInfo}
  {packets : List (List Byte)} {fuel elapsed bufoff : Nat}

/-! ## Descriptors -/

/-- The descriptor of the packets behind the first one. -/
def laterHeader (info : FragInfo) : List Byte :=
  [info.bits <<< 1]

theorem packVp8Descriptor_later (info : FragInfo) :
    packVp8Descriptor (laterDescriptor info) mtu = laterHeader info := by
  cases info <;> decide

theorem parseVp8Packet_later (info : FragInfo) (payload : List Byte) :
    parseVp8Packet (laterHeader info ++ payload) = some (laterDescriptor info, 1) := by
  cases info <;> rfl

theorem pictureId_lt (seqno : UInt32) : (seqno &&& 127).toNat < 128 := by
  rw [UInt32.toNat_and]
  exact @Nat.and_lt_two_pow seqno.toNat 127 7 (by decide)

/-- The first descriptor, with its picture id. -/
def firstHeader (byte : Byte) (seqno : UInt32) : List Byte :=
  byte :: if seqno &&& 127 = 0 then [] else [(seqno &&& 127).toNat.toUInt8]

theorem packVp8Descriptor_first (seqno : UInt32) :
    packVp8Descriptor (firstDescriptor seqno) mtu = firstHeader 17 seqno := by
  have small := pictureId_lt seqno
  have present : seqno &&& 127 ≠ noPictureId := by
    intro absent
    rw [absent] at small
    exact absurd small (by decide)
  have room : mtu = 1297 + 1 + 1 + 1 := rfl
  rw [room, packVp8Descriptor, firstHeader]
  simp only [firstDescriptor, present, ne_eq, not_false_eq_true, if_false]
  congr 1
  by_cases zero : seqno &&& 127 = 0
  · rw [if_pos zero, zero]
    rfl
  · rw [if_neg zero]
    have positive : 0 < (seqno &&& 127).toNat := by
      rw [Nat.pos_iff_ne_zero]
      intro none
      exact zero (UInt32.toNat_inj.mp none)
    rw [packPictureId, if_pos positive, Nat.div_eq_of_lt small, Nat.mod_eq_of_lt small,
      packPictureId]
    rfl

/-- A picture id below 128 takes one byte. -/
theorem parsePictureId_small {n : Nat} (small : n < 128) (payload : List Byte) :
    ∃ pictureId, parsePictureId 0 (n.toUInt8 :: payload) = some (pictureId, 1) := by
  have ends : ∀ n < 128, n.toUInt8 &&& 0x80 = 0 := by decide
  rw [parsePictureId]
  simp [ends n small]

theorem le_of_parsePictureId {pictureId pictureId' : UInt32} {size : Nat}
    (parsed : parsePictureId pictureId payload = some (pictureId', size)) :
    0 < size ∧ size ≤ payload.length := by
  induction payload generalizing pictureId pictureId' size with
  | nil => cases parsed
  | cons byte rest ih =>
      rw [parsePictureId] at parsed
      split at parsed
      · obtain ⟨⟨inner, size'⟩, found, same⟩ := Option.map_eq_some_iff.mp parsed
        cases same
        have := ih found
        simp only [List.length_cons]
        omega
      · cases parsed
        simp

/-! ## Packets behind the first one -/

/-- The packets for the bytes behind the first packet. -/
inductive Fragments : List Byte → List (List Byte) → Prop where
  | last {rest : List Byte} (fits : rest.length < mtu) :
      Fragments rest [laterHeader .lastFragment ++ rest]
  | middle {payload rest : List Byte} {packets : List (List Byte)} (fits : payload.length < mtu)
      (later : Fragments rest packets) :
      Fragments (payload ++ rest) ((laterHeader .middleFragment ++ payload) :: packets)

/-- The fragmentation field of a packet. -/
def mark (data : List Byte) : FragInfo :=
  fragInfo (data.headD 0)

theorem mark_later (info : FragInfo) (payload : List Byte) :
    mark (laterHeader info ++ payload) = info := by
  change fragInfo (info.bits <<< 1) = info
  cases info <;> decide

theorem Fragments.length_le (fragments : Fragments rest packets) :
    ∀ data ∈ packets, data.length ≤ mtu := by
  induction fragments with
  | last fits =>
      intro data member
      obtain rfl := List.mem_singleton.mp member
      simp only [laterHeader, List.length_append, List.length_singleton]
      omega
  | middle fits later ih =>
      intro data member
      rcases List.mem_cons.mp member with rfl | member
      · simp only [laterHeader, List.length_append, List.length_singleton]
        omega
      · exact ih data member

theorem Fragments.marks (fragments : Fragments rest packets) :
    ∃ n, packets.map mark = List.replicate n .middleFragment ++ [.lastFragment] := by
  induction fragments with
  | last fits => exact ⟨0, by simp [mark_later]⟩
  | middle fits later ih =>
      obtain ⟨n, marks⟩ := ih
      exact ⟨n + 1, by rw [List.map_cons, marks, mark_later, List.replicate_succ]; rfl⟩

theorem Fragments.ne_nil (fragments : Fragments rest packets) : packets ≠ [] := by
  cases fragments with
  | last => exact List.cons_ne_nil _ _
  | middle => exact List.cons_ne_nil _ _

/-- A payload goes behind what the buffer holds. -/
theorem Receiver.appended_eq (behind : r.curpos = r.buffer.length) :
    r.appended heap payload = r.buffer ++ payload := by
  obtain ⟨fresh, grown⟩ := realloc_eq_append heap
    (Nat.le_add_right r.buffer.length payload.length)
  have size : fresh.length = payload.length := by
    have total := length_realloc heap r.buffer (r.buffer.length + payload.length)
    rw [grown, List.length_append] at total
    omega
  have total : (r.buffer ++ fresh).length ≤ r.buffer.length + payload.length := by
    rw [List.length_append, size]
  rw [appended, grown, behind, List.take_left, List.drop_of_length_le total, List.append_nil]

/-! ## Receiving -/

variable {data : List Byte} {vp8d : Vp8Descriptor} {off : Nat}

variable (heap refused) in
theorem received_single (alive : r.Alive) (parsed : parseVp8Packet data = some (vp8d, off))
    (single : vp8d.fragmentationInfo = .notFragmented) :
    (onVpxPacketReceived heap refused r data).2 = some (data.drop off) := by
  rw [onVpxPacketReceived, if_pos alive, parsed]
  cases vp8d
  cases single
  rfl

variable (heap refused) in
theorem received_first (alive : r.Alive) (parsed : parseVp8Packet data = some (vp8d, off))
    (first : vp8d.fragmentationInfo = .firstFragment) :
    ∃ r', onVpxPacketReceived heap refused r data = (r', none) ∧ r'.Alive ∧
      r'.buffer = data.drop off ∧ r'.curpos = r'.buffer.length := by
  rw [onVpxPacketReceived, if_pos alive, parsed]
  cases vp8d
  cases first
  exact ⟨_, rfl, alive, rfl, rfl⟩

variable (heap refused) in
theorem received_middle (alive : r.Alive) (parsed : parseVp8Packet data = some (vp8d, off))
    (middle : vp8d.fragmentationInfo = .middleFragment) :
    ∃ r', onVpxPacketReceived heap refused r data = (r', none) ∧ r'.Alive ∧
      r'.buffer = r.appended heap (data.drop off) ∧ r'.curpos = r'.buffer.length := by
  rw [onVpxPacketReceived, if_pos alive, parsed]
  cases vp8d
  cases middle
  exact ⟨_, rfl, alive, rfl, rfl⟩

variable (heap refused) in
theorem received_last (alive : r.Alive) (parsed : parseVp8Packet data = some (vp8d, off))
    (last : vp8d.fragmentationInfo = .lastFragment) :
    (onVpxPacketReceived heap refused r data).2 = some (r.appended heap (data.drop off)) := by
  rw [onVpxPacketReceived, if_pos alive, parsed]
  cases vp8d
  cases last
  unfold Receiver.decode
  dsimp only

/-- The receiver puts the packets together and is ready on the last one. -/
theorem Fragments.deliver (fragments : Fragments rest packets) (alive : r.Alive)
    (behind : r.curpos = r.buffer.length) :
    deliver heap refused r packets =
      List.replicate (packets.length - 1) none ++ [some (r.buffer ++ rest)] := by
  induction fragments generalizing r with
  | @last rest fits =>
      have ready : (onVpxPacketReceived heap refused r (laterHeader .lastFragment ++ rest)).2 =
          some (r.appended heap rest) :=
        received_last heap refused alive (parseVp8Packet_later .lastFragment rest) rfl
      rw [Receiver.appended_eq behind] at ready
      rw [Video.deliver, ready]
      rfl
  | @middle payload rest packets fits later ih =>
      obtain ⟨r', received, alive', buffer, behind'⟩ : ∃ r',
          onVpxPacketReceived heap refused r (laterHeader .middleFragment ++ payload) =
            (r', none) ∧ r'.Alive ∧ r'.buffer = r.appended heap payload ∧
            r'.curpos = r'.buffer.length :=
        received_middle heap refused alive (parseVp8Packet_later .middleFragment payload) rfl
      rw [Receiver.appended_eq behind] at buffer
      obtain ⟨n, length⟩ := Nat.exists_eq_succ_of_ne_zero
        (List.length_pos_iff.mpr later.ne_nil).ne'
      rw [Video.deliver, received]
      dsimp only
      rw [ih alive' behind', buffer, length, List.length_cons, length]
      simp [List.replicate_succ]

/-- The sender makes such packets if the mark of the first of them is right. -/
theorem sendPackets_fragments (enough : rest.length < fuel) (nonempty : rest ≠ [])
    (behind : bufoff ≠ 0) (marked : elapsed ≠ 0 ↔ mtu - 1 < rest.length) :
    ∃ seqno' sent, sendPackets stamp fuel seqno hdr elapsed bufoff rest = .ok (seqno', sent) ∧
      Fragments rest (sent.map RtpPacket.bytes) := by
  induction fuel generalizing seqno hdr elapsed bufoff rest with
  | zero => exact absurd enough (Nat.not_lt_zero _)
  | succ fuel ih =>
      have positive := List.length_pos_iff.mpr nonempty
      by_cases large : mtu - 1 < rest.length
      · have header : nextHeader hdr elapsed bufoff = laterHeader .middleFragment := by
          rw [nextHeader, if_pos (marked.mpr large), if_neg behind, packVp8Descriptor_later]
        have taken : rest.length - (rest.length - (mtu - 1)) = mtu - 1 := by omega
        have first : 0 < mtu - 1 := by decide
        have dropped : (rest.drop (mtu - 1)).length = rest.length - (mtu - 1) :=
          List.length_drop
        have more : rest.drop (mtu - 1) ≠ [] := by
          rw [← List.length_pos_iff]
          omega
        obtain ⟨seqno', sent, sends, fragments⟩ : ∃ seqno' sent,
            sendPackets stamp fuel (seqno + 1) (laterHeader .middleFragment)
              (rest.length - (mtu - 1) - (mtu - 1)) (bufoff + (mtu - 1)) (rest.drop (mtu - 1)) =
                .ok (seqno', sent) ∧
              Fragments (rest.drop (mtu - 1)) (sent.map RtpPacket.bytes) :=
          ih (by omega) more (by omega) (by omega)
        have turn : sendPackets stamp (fuel + 1) seqno hdr elapsed bufoff rest =
            .ok (seqno', ⟨laterHeader .middleFragment ++ rest.take (mtu - 1), seqno, stamp⟩ ::
              sent) := by
          rw [sendPackets]
          simp only [header]
          rw [show (laterHeader .middleFragment).length = 1 from rfl, taken,
            if_pos (by omega), sends]
          rfl
        refine ⟨seqno', _, turn, ?_⟩
        have fits : (rest.take (mtu - 1)).length < mtu := by
          rw [List.length_take]
          omega
        have split := Fragments.middle fits fragments
        rwa [List.take_append_drop] at split
      · have header : nextHeader hdr elapsed bufoff = laterHeader .lastFragment := by
          rw [nextHeader, if_neg (by rwa [marked]), if_pos behind, packVp8Descriptor_later]
        have none : rest.length - (mtu - 1) = 0 := by omega
        have turn : sendPackets stamp (fuel + 1) seqno hdr elapsed bufoff rest =
            .ok (seqno + 1, [⟨laterHeader .lastFragment ++ rest, seqno, stamp⟩]) := by
          rw [sendPackets]
          simp only [header]
          rw [show (laterHeader .lastFragment).length = 1 from rfl, none, if_neg (by simp),
            Nat.sub_zero, List.take_length]
        exact ⟨_, _, turn, .last (by omega)⟩

/-! ## The first packet -/

/-- What the first packet has room for. -/
def firstCapacity (seqno : UInt32) : Nat :=
  mtu - (firstHeader 17 seqno).length

theorem length_firstHeader (byte : Byte) (seqno : UInt32) :
    (firstHeader byte seqno).length = if seqno &&& 127 = 0 then 1 else 2 := by
  rw [firstHeader]
  split <;> rfl

theorem firstCapacity_eq (seqno : UInt32) :
    firstCapacity seqno = if seqno &&& 127 = 0 then mtu - 1 else mtu - 2 := by
  rw [firstCapacity, length_firstHeader]
  split <;> rfl

theorem mark_first (byte : Byte) (seqno : UInt32) (payload : List Byte) :
    mark (firstHeader byte seqno ++ payload) = fragInfo byte :=
  rfl

/-- A frame that fits goes out in one packet. -/
theorem xVp8RtpSend_single (fits : frame.length ≤ firstCapacity sender.seqno) :
    xVp8RtpSend sender frame =
      .ok (⟨sender.seqno + 1, sender.stamp + 3600⟩,
        [⟨firstHeader 17 sender.seqno ++ frame, sender.seqno, sender.stamp⟩]) := by
  have none : frame.length - firstCapacity sender.seqno = 0 := by omega
  rw [firstCapacity] at none
  rw [xVp8RtpSend, packVp8Descriptor_first]
  simp only [sendPackets, nextHeader, none, ne_eq, not_true_eq_false, if_false, Nat.sub_zero,
    List.take_length]
  rfl

/-- The first packet of a frame that does not fit takes what it has room for. -/
theorem xVp8RtpSend_split {sent : List RtpPacket}
    (large : firstCapacity sender.seqno < frame.length)
    (sends : sendPackets sender.stamp frame.length (sender.seqno + 1)
      (firstHeader 19 sender.seqno)
      (frame.length - firstCapacity sender.seqno - firstCapacity sender.seqno)
      (firstCapacity sender.seqno) (frame.drop (firstCapacity sender.seqno)) =
        .ok (seqno, sent)) :
    xVp8RtpSend sender frame =
      .ok (⟨seqno, sender.stamp + 3600⟩,
        ⟨firstHeader 19 sender.seqno ++ frame.take (firstCapacity sender.seqno), sender.seqno,
          sender.stamp⟩ :: sent) := by
  have first : nextHeader (firstHeader 17 sender.seqno)
      (frame.length - firstCapacity sender.seqno) 0 = firstHeader 19 sender.seqno := by
    rw [nextHeader, if_pos (by omega), if_pos rfl]
    rfl
  have capacity : mtu - (firstHeader 17 sender.seqno).length = firstCapacity sender.seqno := rfl
  have capacity' : mtu - (firstHeader 19 sender.seqno).length = firstCapacity sender.seqno := rfl
  have taken : frame.length - (frame.length - firstCapacity sender.seqno) =
      firstCapacity sender.seqno := by
    omega
  rw [xVp8RtpSend, packVp8Descriptor_first]
  dsimp only
  rw [capacity, sendPackets]
  dsimp only
  rw [first, capacity', if_pos (by omega), taken, Nat.zero_add, sends]
  rfl

/-- The packets behind the first one, unless the remainder fills a packet that the size of the
first one says it does not fit. -/
theorem xVp8RtpSend_fragments (large : firstCapacity sender.seqno < frame.length)
    (marked : sender.seqno &&& 127 = 0 ∨ frame.length ≠ 2 * mtu - 3) :
    ∃ sender' sent, xVp8RtpSend sender frame = .ok (sender',
        ⟨firstHeader 19 sender.seqno ++ frame.take (firstCapacity sender.seqno), sender.seqno,
          sender.stamp⟩ :: sent) ∧
      Fragments (frame.drop (firstCapacity sender.seqno)) (sent.map RtpPacket.bytes) := by
  have dropped : (frame.drop (firstCapacity sender.seqno)).length =
      frame.length - firstCapacity sender.seqno :=
    List.length_drop
  have size := firstCapacity_eq sender.seqno
  have value : mtu = 1300 := rfl
  have more : frame.drop (firstCapacity sender.seqno) ≠ [] := by
    rw [← List.length_pos_iff]
    omega
  have mark : frame.length - firstCapacity sender.seqno - firstCapacity sender.seqno ≠ 0 ↔
      mtu - 1 < (frame.drop (firstCapacity sender.seqno)).length := by
    rw [dropped]
    split at size
    · rw [size]
      omega
    · rename_i present
      have other := marked.resolve_left present
      rw [size, value] at *
      omega
  have behind : firstCapacity sender.seqno ≠ 0 := by
    split at size <;> omega
  obtain ⟨seqno', sent, sends, fragments⟩ : ∃ seqno' sent,
      sendPackets sender.stamp frame.length (sender.seqno + 1) (firstHeader 19 sender.seqno)
        (frame.length - firstCapacity sender.seqno - firstCapacity sender.seqno)
        (firstCapacity sender.seqno) (frame.drop (firstCapacity sender.seqno)) =
          .ok (seqno', sent) ∧
        Fragments (frame.drop (firstCapacity sender.seqno)) (sent.map RtpPacket.bytes) :=
    sendPackets_fragments (by omega) more behind mark
  exact ⟨_, sent, xVp8RtpSend_split large sends, fragments⟩

/-- Otherwise the second packet, which is the last one, is marked as one in the middle. -/
theorem xVp8RtpSend_unfinished (present : sender.seqno &&& 127 ≠ 0)
    (exactFill : frame.length = 2 * mtu - 3) :
    ∃ sender' first second, xVp8RtpSend sender frame = .ok (sender', [first, second]) ∧
      mark second.bytes = .middleFragment := by
  have size := firstCapacity_eq sender.seqno
  rw [if_neg present] at size
  have value : mtu = 1300 := rfl
  have header : nextHeader (firstHeader 19 sender.seqno)
      (frame.length - firstCapacity sender.seqno - firstCapacity sender.seqno)
      (firstCapacity sender.seqno) = laterHeader .middleFragment := by
    rw [nextHeader, if_pos (by omega), if_neg (by omega), packVp8Descriptor_later]
  have none : (frame.drop (firstCapacity sender.seqno)).length -
      (mtu - (laterHeader .middleFragment).length) = 0 := by
    rw [List.length_drop, show (laterHeader .middleFragment).length = 1 from rfl]
    omega
  have fuel : frame.length = 2596 + 1 := by omega
  have sends : sendPackets sender.stamp frame.length (sender.seqno + 1)
      (firstHeader 19 sender.seqno)
      (frame.length - firstCapacity sender.seqno - firstCapacity sender.seqno)
      (firstCapacity sender.seqno) (frame.drop (firstCapacity sender.seqno)) =
        .ok (sender.seqno + 1 + 1, [⟨laterHeader .middleFragment ++
          frame.drop (firstCapacity sender.seqno), sender.seqno + 1, sender.stamp⟩]) := by
    conv_lhs => rw [fuel, sendPackets]
    rw [← fuel]
    dsimp only
    rw [header, none, if_neg (by simp), Nat.sub_zero, List.take_length]
  exact ⟨_, _, _, xVp8RtpSend_split (by omega) sends, mark_later .middleFragment _⟩

theorem parseVp8Packet_first (present : seqno &&& 127 ≠ 0) (byte : Byte)
    (beginning : extractBits byte 1 4 ≠ 0) (payload : List Byte) :
    ∃ vp8d, parseVp8Packet (firstHeader byte seqno ++ payload) = some (vp8d, 2) ∧
      vp8d.fragmentationInfo = fragInfo byte := by
  obtain ⟨pictureId, parsed⟩ := parsePictureId_small (pictureId_lt seqno) payload
  rw [firstHeader, if_neg present, List.cons_append, List.singleton_append, parseVp8Packet]
  dsimp only
  rw [if_pos beginning, parsed]
  exact ⟨_, rfl, rfl⟩

/-- A picture id of zero is taken from the payload. -/
theorem parseVp8Packet_zero (zero : seqno &&& 127 = 0) (byte : Byte)
    (beginning : extractBits byte 1 4 ≠ 0) (payload : List Byte) :
    parseVp8Packet (firstHeader byte seqno ++ payload) = none ∨
      ∃ vp8d off, parseVp8Packet (firstHeader byte seqno ++ payload) = some (vp8d, off) ∧
        vp8d.fragmentationInfo = fragInfo byte ∧ 1 < off ∧ off ≤ payload.length + 1 := by
  rw [firstHeader, if_pos zero, List.cons_append, List.nil_append, parseVp8Packet]
  dsimp only
  rw [if_pos beginning]
  cases parsed : parsePictureId 0 payload with
  | none => exact .inl rfl
  | some found =>
      obtain ⟨pictureId, size⟩ := found
      have bounds := le_of_parsePictureId parsed
      exact .inr ⟨_, _, rfl, rfl, by dsimp only; omega, by dsimp only; omega⟩

/-! ## The round trip -/

/-- The marks of the packets of one frame. -/
def WellMarked (marks : List FragInfo) : Prop :=
  marks = [.notFragmented] ∨
    ∃ n, marks = .firstFragment :: List.replicate n .middleFragment ++ [.lastFragment]

/-- A frame goes out in packets that fit, with the marks that belong there, and every receiver
that still decodes gets exactly the frame, on the last packet. -/
def RoundTrips (sender : Sender) (frame : List Byte) : Prop :=
  ∃ sender' packets, xVp8RtpSend sender frame = .ok (sender', packets) ∧
    (∀ packet ∈ packets, packet.bytes.length ≤ mtu) ∧
    WellMarked (packets.map fun packet => mark packet.bytes) ∧
    ∀ heap refused (r : Receiver), r.Alive →
      deliver heap refused r (packets.map RtpPacket.bytes) =
        List.replicate (packets.length - 1) none ++ [some frame]

theorem not_wellMarked {first : FragInfo} : ¬WellMarked [first, .middleFragment] := by
  rintro (single | ⟨n, split⟩)
  · cases single
  · have last := congrArg List.getLast? split
    rw [List.getLast?_concat] at last
    cases last

/-- A picture id goes with the frame. -/
theorem roundTrips_of_present (present : sender.seqno &&& 127 ≠ 0)
    (marked : frame.length ≠ 2 * mtu - 3) : RoundTrips sender frame := by
  have size := firstCapacity_eq sender.seqno
  rw [if_neg present] at size
  have value : mtu = 1300 := rfl
  have header : ∀ byte, (firstHeader byte sender.seqno).length = 2 := by
    intro byte
    rw [length_firstHeader, if_neg present]
  by_cases fits : frame.length ≤ firstCapacity sender.seqno
  · refine ⟨_, _, xVp8RtpSend_single fits, ?_, .inl ?_, ?_⟩
    · intro packet member
      obtain rfl := List.mem_singleton.mp member
      rw [List.length_append, header]
      omega
    · rw [List.map_singleton, mark_first]
      decide
    · intro heap refused r alive
      obtain ⟨vp8d, parsed, single⟩ := parseVp8Packet_first present 17 (by decide) frame
      have ready : (onVpxPacketReceived heap refused r
          (firstHeader 17 sender.seqno ++ frame)).2 = some frame := by
        have received := received_single heap refused alive parsed single
        rwa [← header 17, List.drop_left] at received
      simp only [List.map_cons, List.map_nil, deliver, ready]
      rfl
  · obtain ⟨sender', sent, sends, fragments⟩ :=
      xVp8RtpSend_fragments (Nat.lt_of_not_le fits) (.inr marked)
    refine ⟨sender', _, sends, ?_, .inr ?_, ?_⟩
    · intro packet member
      rcases List.mem_cons.mp member with rfl | member
      · rw [List.length_append, header, List.length_take]
        omega
      · exact fragments.length_le _ (List.mem_map_of_mem member)
    · obtain ⟨n, marks⟩ := fragments.marks
      rw [List.map_map] at marks
      have begins : fragInfo 19 = .firstFragment := by decide
      refine ⟨n, ?_⟩
      rw [List.map_cons, mark_first, begins, List.cons_append, ← marks]
      rfl
    · intro heap refused r alive
      obtain ⟨vp8d, parsed, first⟩ := parseVp8Packet_first present 19 (by decide)
        (frame.take (firstCapacity sender.seqno))
      obtain ⟨r', received, alive', buffer, behind⟩ :=
        received_first heap refused alive parsed first
      rw [← header 19, List.drop_left] at buffer
      obtain ⟨n, length⟩ := Nat.exists_eq_succ_of_ne_zero
        (List.length_pos_iff.mpr fragments.ne_nil).ne'
      rw [List.length_map] at length
      rw [List.map_cons, deliver, received]
      dsimp only
      rw [fragments.deliver alive' behind, buffer, List.take_append_drop, List.length_map, length,
        List.length_cons, length]
      simp [List.replicate_succ]

/-- A receiver that holds nothing. -/
def freshReceiver : Receiver :=
  ⟨[], 0, false, 0, Nat.le_refl 0⟩

/-- Without a picture id the receiver takes a part of the frame for it. -/
theorem not_roundTrips_of_zero (zero : sender.seqno &&& 127 = 0) : ¬RoundTrips sender frame := by
  rintro ⟨sender', packets, sends, -, -, delivers⟩
  have alive : freshReceiver.Alive := by decide
  have delivered := delivers (fun _ => 0) (fun _ => 0) freshReceiver alive
  have last := congrArg List.getLast? delivered
  rw [List.getLast?_concat] at last
  have size := firstCapacity_eq sender.seqno
  have value : mtu = 1300 := rfl
  rw [if_pos zero] at size
  by_cases fits : frame.length ≤ firstCapacity sender.seqno
  · rw [xVp8RtpSend_single fits] at sends
    cases sends
    simp only [List.map_cons, List.map_nil, deliver, List.getLast?_singleton,
      Option.some.injEq] at last
    rcases parseVp8Packet_zero zero 17 (by decide) frame with
      lost | ⟨vp8d, off, parsed, single, taken, within⟩
    · rw [onVpxPacketReceived, if_pos alive, lost] at last
      cases last
    · rw [received_single _ _ alive parsed single] at last
      have lengths := congrArg List.length (Option.some.inj last)
      rw [List.length_drop, List.length_append, length_firstHeader, if_pos zero] at lengths
      omega
  · obtain ⟨_, sent, splits, fragments⟩ :=
      xVp8RtpSend_fragments (Nat.lt_of_not_le fits) (.inl zero)
    rw [splits] at sends
    cases sends
    have first : ∃ r', onVpxPacketReceived (fun _ => 0) (fun _ => 0) freshReceiver
        (firstHeader 19 sender.seqno ++ frame.take (firstCapacity sender.seqno)) = (r', none) ∧
          r'.Alive ∧ r'.buffer.length < firstCapacity sender.seqno ∧
          r'.curpos = r'.buffer.length := by
      rcases parseVp8Packet_zero zero 19 (by decide)
        (frame.take (firstCapacity sender.seqno)) with
        lost | ⟨vp8d, off, parsed, info, taken, within⟩
      · refine ⟨freshReceiver, ?_, alive, ?_, rfl⟩
        · rw [onVpxPacketReceived, if_pos alive, lost]
        · change 0 < _
          omega
      · obtain ⟨r', received, alive', buffer, behind⟩ := received_first _ _ alive
          parsed info
        refine ⟨r', received, alive', ?_, behind⟩
        rw [buffer, List.length_drop, List.length_append, length_firstHeader, if_pos zero,
          List.length_take]
        omega
    obtain ⟨r', received, alive', short, behind⟩ := first
    rw [List.map_cons, deliver, received] at last
    dsimp only at last
    rw [fragments.deliver alive' behind, ← List.cons_append, List.getLast?_concat] at last
    have lengths := congrArg List.length (Option.some.inj (Option.some.inj last))
    rw [List.length_append, List.length_drop] at lengths
    omega

/-- **Frames over packets.**  A frame arrives as it was sent exactly if the sequence number of
its first packet gives a picture id, and if the remainder does not fill the second packet
exactly. -/
theorem roundTrips_iff : RoundTrips sender frame ↔
    sender.seqno &&& 127 ≠ 0 ∧ frame.length ≠ 2 * mtu - 3 := by
  constructor
  · intro holds
    have present : sender.seqno &&& 127 ≠ 0 := fun zero => not_roundTrips_of_zero zero holds
    refine ⟨present, fun exactFill => ?_⟩
    obtain ⟨sender', packets, sends, -, marks, -⟩ := holds
    obtain ⟨_, first, second, sends', middle⟩ := xVp8RtpSend_unfinished present exactFill
    rw [sends] at sends'
    cases sends'
    rw [List.map_cons, List.map_cons, List.map_nil, middle] at marks
    exact not_wellMarked marks
  · rintro ⟨present, marked⟩
    exact roundTrips_of_present present marked

/-- The first frame of an encoder goes out without a picture id. -/
theorem not_roundTrips_initial : ¬RoundTrips ⟨0, 0⟩ [0x10, 0x02, 0x00] :=
  not_roundTrips_of_zero rfl

end Xwbot.Video
