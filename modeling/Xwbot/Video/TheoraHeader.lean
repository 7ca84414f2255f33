import Xwbot.Hex
import Xwbot.Video.Theora
import Xwbot.XString

/-!
# The codec headers of Theora

The three headers of the codec travel in two ways: in a packet that
`__x_theora_send_headers` builds, and as hexadecimal text in the attribute
`configuration` that `x_theora_encoder_init` builds.  Both parsers exchange the
bytes of the length once more after they have read it in network order, and the
second one takes length bytes for signed ones.  The text is built in a block
that is asked for two bytes too small, so that it has room only where the
allocator rounds the size up by as much.
-/

namespace Xwbot.Video.Theora

/-- The headers of the codec, and the number of the configuration. -/
structure Headers where
  h1 : List Byte
  h2 : List Byte
  h3 : List Byte
  ident : Nat
  first : h1.length ≤ 255
  second : h2.length ≤ 255
  total : h1.length + h2.length + h3.length ≤ 4000
  ident_lt : ident < 16777216

namespace Headers

/-- `plen` -/
def plen (hs : Headers) : Nat :=
  hs.h1.length + hs.h2.length + hs.h3.length

/-- The number of headers but one, two lengths and the headers. -/
def body (hs : Headers) : List Byte :=
  [2, hs.h1.length.toUInt8, hs.h2.length.toUInt8] ++ (hs.h1 ++ (hs.h2 ++ hs.h3))

theorem length_body (hs : Headers) : hs.body.length = 3 + hs.plen := by
  simp only [body, plen, List.length_append, List.length_cons, List.length_nil]
  omega

theorem plen_lt (hs : Headers) : hs.plen < 65536 := by
  have total := hs.total
  rw [plen]
  omega

/-! ## The packet -/

/-- `__x_theora_send_headers`: the packet, in a block of 4096 bytes. -/
def packet (hs : Headers) : List Byte :=
  writeLow32 (swap32 (hs.ident * 256 + 0x11)) ++ writeLow16 (swap16 hs.plen) ++ hs.body

end Headers

/-- A call of `th_decode_headerin`: where the header begins, and `op.bytes`. -/
structure Header where
  offset : Nat
  bytes : Int
  deriving DecidableEq, Repr

/-- `x_theora_dispatch_header_packet`: the calls that the decoder gets, when it answers the `k`-th
one with `err k`. -/
def dispatchHeaderPacket (err : Nat → Int) (pconf : List Byte) : Except Fault (List Header) := do
  let plen := swap16 (← readU16 pconf 4)
  match ← readBytes pconf 6 3 with
  | [_, l1, l2] =>
      let l1 := l1.toNat
      let l2 := l2.toNat
      if err 0 ≤ 0 then .ok [⟨9, l1⟩]
      else if err 1 ≤ 0 then .ok [⟨9, l1⟩, ⟨9 + l1, l2⟩]
      else .ok [⟨9, l1⟩, ⟨9 + l1, l2⟩, ⟨9 + l1 + l2, plen - l2 - l1⟩]
  | _ => .error .overread

/-! ## The configuration -/

/-- What `x_theora_encoder_init` makes: the text, the size of the block that it is made from, and
how far that block is written. -/
structure Configuration where
  text : Text
  allocated : Nat
  written : Nat

/-- The end of `x_theora_encoder_init`.  The compiler puts `padding` bytes behind the fields of
`theora_packed_header_t`, and `heap` is what lies behind them and behind the headers. -/
def Headers.configuration (hs : Headers) (padding : Nat) (heap : Nat → Byte) : Configuration :=
  let sizeof := 6 + padding
  let headerLen := sizeof + 3 + hs.plen
  let ident := writeLow32 (swap32 (0x10 + hs.ident * 256))
  let plen := swap16 hs.plen
  let front := htonl (swap32 1) ++ ident.take 3 ++ [plen.toUInt8, (plen / 256).toUInt8]
  -- the headers begin behind the structure, and what is copied of them is counted from `plen` on
  let copied := (hs.body ++ (List.range (headerLen - 4)).map heap).take (headerLen - 4)
  ⟨bin2hex ((front ++ copied).take (headerLen + 3)), strMemlenAlign (headerLen + 3),
    front.length + copied.length⟩

/-- `(uint32_t) (char) c` -/
def signExtend (c : Byte) : Nat :=
  if 128 ≤ c then c.toNat + 4294967040 else c.toNat

/-- `theora_read_str_config`: the number of the configuration, and the calls that the decoder
gets.  A text that is not hexadecimal is taken for `base64`. -/
def theoraReadStrConfig (base64Decode : Text → List Byte) (confstr : Text) :
    Except Fault (Nat × List Header) := do
  let hdata := (hex2bin confstr).getD (base64Decode confstr)
  let plen := swap16 (← readU16 hdata 7)
  match ← readBytes hdata 9 3 with
  | [_, l1, l2] =>
      let l1 := signExtend l1
      let l2 := signExtend l2
      .ok (swap32 (be32 hdata 4) / 256,
        [⟨12, l1⟩, ⟨12 + l1, l2⟩, ⟨12 + l1 + l2, plen - l2 - l1⟩])
  | _ => .error .overread

/-! ## Agreement -/

/-- The decoder gets exactly the three headers. -/
def Handed (hs : Headers) (data : List Byte) (calls : List Header) : Prop :=
  calls.map (fun call => (call.bytes, slice data call.offset call.bytes.toNat)) =
    [hs.h1, hs.h2, hs.h3].map fun h => ((h.length : Int), h)

/-- The headers arrive in the packet. -/
def PacketAgrees (hs : Headers) (err : Nat → Int) : Prop :=
  ∃ calls, dispatchHeaderPacket err hs.packet = .ok calls ∧ Handed hs hs.packet calls

/-- The headers arrive in the configuration. -/
def ConfigurationAgrees (hs : Headers) (padding : Nat) (heap : Nat → Byte)
    (base64Decode : Text → List Byte) : Prop :=
  ∃ data ident calls, hex2bin (hs.configuration padding heap).text = some data ∧
    theoraReadStrConfig base64Decode (hs.configuration padding heap).text = .ok (ident, calls) ∧
      Handed hs data calls

/-- Nothing is written behind the block. -/
def StaysInside (hs : Headers) (padding : Nat) (heap : Nat → Byte) : Prop :=
  (hs.configuration padding heap).written ≤ (hs.configuration padding heap).allocated

variable {hs : Headers}

theorem swap16_eq_iff {n : Nat} (small : n < 65536) : swap16 n = n ↔ n % 256 = n / 256 := by
  rw [swap16]
  omega

theorem toNat_toUInt8 {n : Nat} (small : n ≤ 255) : n.toUInt8.toNat = n := by
  rw [Nat.toUInt8_eq, UInt8.toNat_ofNat']
  omega

/-- Only the lengths matter when the headers are in their places. -/
theorem handed_iff {front rest : List Byte} {offset l1 l2 : Nat} {l3 : Int}
    (place : front.length = offset) :
    Handed hs (front ++ (hs.h1 ++ (hs.h2 ++ (hs.h3 ++ rest))))
        [⟨offset, l1⟩, ⟨offset + l1, l2⟩, ⟨offset + l1 + l2, l3⟩] ↔
      l1 = hs.h1.length ∧ l2 = hs.h2.length ∧ l3 = hs.h3.length := by
  rw [Handed]
  simp only [List.map_cons, List.map_nil, List.cons.injEq, Prod.mk.injEq, Nat.cast_inj, and_true]
  constructor
  · rintro ⟨⟨first, -⟩, ⟨second, -⟩, third, -⟩
    exact ⟨first, second, third⟩
  · rintro ⟨rfl, rfl, rfl⟩
    subst place
    refine ⟨⟨rfl, ?_⟩, ⟨rfl, ?_⟩, rfl, ?_⟩
    · exact slice_append front hs.h1 _
    · have later := slice_append (front ++ hs.h1) hs.h2 (hs.h3 ++ rest)
      rwa [List.length_append, List.append_assoc] at later
    · have later := slice_append (front ++ hs.h1 ++ hs.h2) hs.h3 rest
      rwa [List.length_append, List.length_append, List.append_assoc, List.append_assoc] at later

/-- The length of the third header comes out right when the two bytes of `plen` are the same. -/
theorem third_iff {l1 l2 : Nat} (first : l1 = hs.h1.length) (second : l2 = hs.h2.length) :
    ((swap16 hs.plen : Nat) : Int) - (l2 : Nat) - (l1 : Nat) = hs.h3.length ↔
      hs.plen % 256 = hs.plen / 256 := by
  have total := hs.total
  have plen : hs.plen = hs.h1.length + hs.h2.length + hs.h3.length := rfl
  rw [← swap16_eq_iff (by omega)]
  omega

/-- The packet is parsed as it was built exactly if the decoder takes the first two headers and
the two bytes of `plen` are the same. -/
theorem packetAgrees_iff {err : Nat → Int} :
    PacketAgrees hs err ↔ (0 < err 0 ∧ 0 < err 1) ∧ hs.plen % 256 = hs.plen / 256 := by
  have packet : hs.packet = htonl (hs.ident * 256 + 0x11) ++ (htons hs.plen ++ hs.body) := by
    rw [Headers.packet, writeLow32_swap32, writeLow16_swap16, List.append_assoc]
  have size : hs.packet.length = 9 + hs.plen := by
    rw [packet]
    simp only [List.length_append, length_htonl, length_htons, hs.length_body]
    omega
  have length : readU16 hs.packet 4 = .ok hs.plen := by
    refine readU16_eq_ok_iff.mpr ⟨by omega, ?_⟩
    rw [packet]
    exact (be16_append (htonl _) hs.plen_lt hs.body).symm
  have lengths : readBytes hs.packet 6 3 =
      .ok [2, hs.h1.length.toUInt8, hs.h2.length.toUInt8] := by
    refine readBytes_eq_ok_iff.mpr ⟨by omega, ?_⟩
    rw [packet]
    exact (slice_append (htonl (hs.ident * 256 + 0x11) ++ htons hs.plen) [_, _, _]
      (hs.h1 ++ (hs.h2 ++ hs.h3))).symm
  have places : hs.packet = htonl (hs.ident * 256 + 0x11) ++ htons hs.plen ++
      [2, hs.h1.length.toUInt8, hs.h2.length.toUInt8] ++
        (hs.h1 ++ (hs.h2 ++ (hs.h3 ++ []))) := by
    rw [packet, Headers.body, List.append_nil, List.append_assoc, List.append_assoc]
  have parsed : dispatchHeaderPacket err hs.packet = .ok
      (if err 0 ≤ 0 then [⟨9, hs.h1.length⟩]
      else if err 1 ≤ 0 then [⟨9, hs.h1.length⟩, ⟨9 + hs.h1.length, hs.h2.length⟩]
      else [⟨9, hs.h1.length⟩, ⟨9 + hs.h1.length, hs.h2.length⟩,
        ⟨9 + hs.h1.length + hs.h2.length, swap16 hs.plen - hs.h2.length - hs.h1.length⟩]) := by
    unfold dispatchHeaderPacket
    simp only [length, lengths, ok_bind, toNat_toUInt8 hs.first, toNat_toUInt8 hs.second]
    split
    · rfl
    · split
      · rfl
      · rfl
  have handed := @handed_iff hs
    (htonl (hs.ident * 256 + 0x11) ++ htons hs.plen ++
      [2, hs.h1.length.toUInt8, hs.h2.length.toUInt8])
    [] 9 hs.h1.length hs.h2.length (swap16 hs.plen - hs.h2.length - hs.h1.length) rfl
  rw [← places] at handed
  rw [← third_iff rfl rfl, PacketAgrees, parsed]
  simp only [Except.ok.injEq, exists_eq_left']
  by_cases first : err 0 ≤ 0
  · rw [if_pos first]
    exact iff_of_false (fun agreed => nomatch congrArg List.length agreed)
      fun answers => first.not_gt answers.1.1
  · rw [if_neg first]
    by_cases second : err 1 ≤ 0
    · rw [if_pos second]
      exact iff_of_false (fun agreed => nomatch congrArg List.length agreed)
        fun answers => second.not_gt answers.1.2
    · rw [if_neg second, handed]
      have taken := And.intro (Int.not_le.mp first) (Int.not_le.mp second)
      simp only [taken, and_self, true_and]

/-! ## The text -/

theorem signExtend_eq_iff {n : Nat} (small : n ≤ 255) : signExtend n.toUInt8 = n ↔ n < 128 := by
  have value := toNat_toUInt8 small
  have high : 128 ≤ n.toUInt8 ↔ 128 ≤ n := by
    rw [UInt8.le_iff_toNat_le, value]
    rfl
  rw [signExtend, value]
  split
  · next negative =>
      have large := high.mp negative
      omega
  · next positive =>
      have less := high.not.mp positive
      omega

/-- What is taken of the front of a block. -/
theorem exists_take_append {front body behind : List Byte} {n : Nat}
    (enough : front.length + body.length ≤ n) :
    ∃ rest, (front ++ (body ++ behind)).take n = front ++ (body ++ rest) := by
  refine ⟨behind.take (n - front.length - body.length), ?_⟩
  rw [List.take_append, List.take_of_length_le (Nat.le_of_add_right_le enough), List.take_append,
    List.take_of_length_le (Nat.le_sub_of_add_le' enough)]

/-- The block that the text is made from, as far as it is read. -/
theorem exists_text (hs : Headers) (padding : Nat) (heap : Nat → Byte) :
    ∃ front behind, front.length = 7 ∧ (hs.configuration padding heap).text =
      bin2hex (front ++ htons hs.plen ++ (hs.body ++ behind)) := by
  have plen : [(swap16 hs.plen).toUInt8, (swap16 hs.plen / 256).toUInt8] = htons hs.plen :=
    writeLow16_swap16 hs.plen
  have length := hs.length_body
  rcases @exists_take_append [] hs.body
    ((List.range (6 + padding + 3 + hs.plen - 4)).map heap)
    (6 + padding + 3 + hs.plen - 4) (by rw [List.length_nil]; omega) with ⟨copied, copy⟩
  rw [List.nil_append, List.nil_append] at copy
  rcases @exists_take_append
    (htonl (swap32 1) ++ (writeLow32 (swap32 (0x10 + hs.ident * 256))).take 3 ++
      htons hs.plen) hs.body copied (6 + padding + 3 + hs.plen + 3)
    (by
      have nine : (htonl (swap32 1) ++ (writeLow32 (swap32 (0x10 + hs.ident * 256))).take 3 ++
          htons hs.plen).length = 9 :=
        rfl
      omega) with ⟨behind, read⟩
  refine ⟨htonl (swap32 1) ++ (writeLow32 (swap32 (0x10 + hs.ident * 256))).take 3, behind, rfl, ?_⟩
  simp only [Headers.configuration]
  rw [plen, copy, read]

/-- The text is parsed as it was built exactly if the two bytes of `plen` are the same and the
lengths of the first two headers are not negative as `char`. -/
theorem configurationAgrees_iff {padding : Nat} {heap : Nat → Byte}
    {base64Decode : Text → List Byte} : ConfigurationAgrees hs padding heap base64Decode ↔
      hs.plen % 256 = hs.plen / 256 ∧ hs.h1.length < 128 ∧ hs.h2.length < 128 := by
  rcases exists_text hs padding heap with ⟨front, behind, seven, text⟩
  have hex : hex2bin (hs.configuration padding heap).text =
      some (front ++ htons hs.plen ++ (hs.body ++ behind)) := by
    rw [text]
    refine hex2bin_bin2hex fun empty => ?_
    have zero := congrArg List.length empty
    simp only [List.length_append, seven, length_htons, List.length_nil] at zero
    omega
  have places : front ++ htons hs.plen ++ (hs.body ++ behind) =
      front ++ htons hs.plen ++ [2, hs.h1.length.toUInt8, hs.h2.length.toUInt8] ++
        (hs.h1 ++ (hs.h2 ++ (hs.h3 ++ behind))) := by
    rw [Headers.body]
    simp only [List.append_assoc]
  have size : (front ++ htons hs.plen ++ (hs.body ++ behind)).length =
      12 + hs.plen + behind.length := by
    simp only [List.length_append, seven, length_htons, hs.length_body]
    omega
  have length : readU16 (front ++ htons hs.plen ++ (hs.body ++ behind)) 7 = .ok hs.plen := by
    refine readU16_eq_ok_iff.mpr ⟨by omega, ?_⟩
    rw [List.append_assoc, ← seven]
    exact (be16_append front hs.plen_lt _).symm
  have lengths : readBytes (front ++ htons hs.plen ++ (hs.body ++ behind)) 9 3 =
      .ok [2, hs.h1.length.toUInt8, hs.h2.length.toUInt8] := by
    refine readBytes_eq_ok_iff.mpr ⟨by omega, ?_⟩
    have nine : (front ++ htons hs.plen).length = 9 := by
      rw [List.length_append, seven, length_htons]
    rw [places, List.append_assoc, ← nine]
    exact (slice_append (front ++ htons hs.plen) [_, _, _] _).symm
  have handed := @handed_iff hs
    (front ++ htons hs.plen ++ [2, hs.h1.length.toUInt8, hs.h2.length.toUInt8]) behind 12
    (signExtend hs.h1.length.toUInt8) (signExtend hs.h2.length.toUInt8)
    (swap16 hs.plen - signExtend hs.h2.length.toUInt8 - signExtend hs.h1.length.toUInt8)
    (by simp [seven])
  rw [← places] at handed
  have parsed : ∃ ident, theoraReadStrConfig base64Decode (hs.configuration padding heap).text =
      .ok (ident, [⟨12, signExtend hs.h1.length.toUInt8⟩,
        ⟨12 + signExtend hs.h1.length.toUInt8, signExtend hs.h2.length.toUInt8⟩,
        ⟨12 + signExtend hs.h1.length.toUInt8 + signExtend hs.h2.length.toUInt8,
          swap16 hs.plen - signExtend hs.h2.length.toUInt8 -
            signExtend hs.h1.length.toUInt8⟩]) := by
    unfold theoraReadStrConfig
    simp only [hex, Option.getD_some, length, lengths, ok_bind]
    exact ⟨_, rfl⟩
  rcases parsed with ⟨ident, parsed⟩
  have agrees : ConfigurationAgrees hs padding heap base64Decode ↔
      signExtend hs.h1.length.toUInt8 = hs.h1.length ∧
        signExtend hs.h2.length.toUInt8 = hs.h2.length ∧
          (swap16 hs.plen : Int) - signExtend hs.h2.length.toUInt8 -
            signExtend hs.h1.length.toUInt8 = hs.h3.length := by
    rw [ConfigurationAgrees, hex, parsed, ← handed]
    constructor
    · rintro ⟨_, _, _, same, same', agreed⟩
      cases same
      cases same'
      exact agreed
    · intro agreed
      exact ⟨_, _, _, rfl, rfl, agreed⟩
  rw [agrees, signExtend_eq_iff hs.first, signExtend_eq_iff hs.second]
  constructor
  · rintro ⟨first, second, third⟩
    rw [(signExtend_eq_iff hs.first).mpr first, (signExtend_eq_iff hs.second).mpr second] at third
    exact ⟨(third_iff rfl rfl).mp third, first, second⟩
  · rintro ⟨same, first, second⟩
    rw [(signExtend_eq_iff hs.first).mpr first, (signExtend_eq_iff hs.second).mpr second]
    exact ⟨first, second, (third_iff rfl rfl).mpr same⟩

/-- The block is asked for two bytes too small: it has room exactly if the allocator rounds its
size up by two bytes or more. -/
theorem staysInside_iff_room (hs : Headers) (padding : Nat) (heap : Nat → Byte) :
    StaysInside hs padding heap ↔
      12 + padding + hs.plen + 2 ≤ strMemlenAlign (12 + padding + hs.plen) := by
  have length := hs.length_body
  have nine : (htonl (swap32 1) ++ (writeLow32 (swap32 (0x10 + hs.ident * 256))).take 3 ++
      [(swap16 hs.plen).toUInt8, (swap16 hs.plen / 256).toUInt8]).length = 9 :=
    rfl
  have written : (hs.configuration padding heap).written = 12 + padding + hs.plen + 2 := by
    simp only [Headers.configuration, nine, List.length_take, List.length_append, List.length_map,
      List.length_range]
    omega
  have allocated : (hs.configuration padding heap).allocated =
      strMemlenAlign (12 + padding + hs.plen) := by
    have size : 6 + padding + 3 + hs.plen + 3 = 12 + padding + hs.plen := by omega
    exact congrArg strMemlenAlign size
  rw [StaysInside, written, allocated]

theorem add_two_le_strMemlenAlign_iff (n : Nat) : n + 2 ≤ strMemlenAlign n ↔
    n % strBufsiz ≠ 0 ∧ n % strBufsiz ≠ strBufsiz - 1 := by
  unfold strMemlenAlign strBufsiz
  omega

/-- Both parsers get the headers, and nothing is written behind the block that the text is made
from. -/
def Agreement (hs : Headers) (err : Nat → Int) (padding : Nat) (heap : Nat → Byte)
    (base64Decode : Text → List Byte) : Prop :=
  PacketAgrees hs err ∧ ConfigurationAgrees hs padding heap base64Decode ∧
    StaysInside hs padding heap

/-- **Header agreement.**  The headers agree exactly if the decoder takes the first two of them,
these are shorter than 128 bytes, the two bytes of the whole length are the same, and the size of
the block of the text is rounded up by two bytes or more. -/
theorem agreement_iff (hs : Headers) (err : Nat → Int) (padding : Nat) (heap : Nat → Byte)
    (base64Decode : Text → List Byte) : Agreement hs err padding heap base64Decode ↔
      (0 < err 0 ∧ 0 < err 1) ∧ (hs.h1.length < 128 ∧ hs.h2.length < 128) ∧
        hs.plen % 256 = hs.plen / 256 ∧ (12 + padding + hs.plen) % strBufsiz ≠ 0 ∧
          (12 + padding + hs.plen) % strBufsiz ≠ strBufsiz - 1 := by
  rw [Agreement, packetAgrees_iff, configurationAgrees_iff, staysInside_iff_room,
    add_two_le_strMemlenAlign_iff]
  tauto

/-- Headers of one byte each. -/
def tiny : Headers :=
  ⟨[0x80], [0x81], [0x82], 0x112233, by decide, by decide, by decide, by decide⟩

/-- The two bytes of the length 3 are not the same. -/
theorem not_agreement_tiny :
    ¬∀ hs err padding heap base64Decode, 0 < err 0 → 0 < err 1 →
      Agreement hs err padding heap base64Decode := by
  intro agrees
  have agreement := agrees tiny (fun _ => 1) 2 (fun _ => 0) (fun _ => []) (by decide) (by decide)
  have same := (packetAgrees_iff.mp agreement.1).2
  exact absurd same (by decide)

end Xwbot.Video.Theora
