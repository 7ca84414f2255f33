import Xwbot.Ice.Agents
import Xwbot.Ice.ResponseShape

/-!
# One round trip

A check that is delivered is answered, and its answer is taken: from wherever the agents and the
network are, three steps make a pair succeed whose agent is there.
-/

namespace Xwbot.Ice

open Runs Networks IoStream

/-! ## Attributes in a buffer -/

variable {p : Platform} {ice ice' : IoStream} {d behind : List Byte} {stop ptr : Nat}
  {l : List (Nat × StunAttr)} {attrs : List StunAttr} {hdr : StunHdr} {src : SockAddr}

theorem be16_append_left {i : Nat} (inside : i + 2 ≤ d.length) :
    be16 (d ++ behind) i = be16 d i := by
  rw [be16, be16, List.getD_append _ _ _ _ (by omega), List.getD_append _ _ _ _ (by omega)]

theorem slice_append_left {i k : Nat} (inside : i + k ≤ d.length) :
    slice (d ++ behind) i k = slice d i k := by
  rw [slice, slice, List.drop_append_of_le_length (by omega),
    List.take_append_of_le_length (by rw [List.length_drop]; omega)]

/-- What lies behind the bytes is not read. -/
theorem Attrs.append_right (attributes : Attrs d stop ptr l) :
    Attrs (d ++ behind) stop ptr l := by
  induction attributes with
  | done reached => exact .done reached
  | @attr ptr rest here inside later ih =>
      have type : be16 (d ++ behind) ptr = be16 d ptr := be16_append_left (by omega)
      have len : be16 (d ++ behind) (ptr + 2) = be16 d (ptr + 2) := be16_append_left (by omega)
      have data : slice (d ++ behind) (ptr + 4) (be16 d (ptr + 2)) =
          slice d (ptr + 4) (be16 d (ptr + 2)) :=
        slice_append_left inside
      have first := Attrs.attr (d := d ++ behind) here
        (by rw [len, List.length_append]; omega) (by rw [len]; exact ih)
      rw [type, len, data] at first
      exact first

/-! ## Checks are answerable -/

/-- A message that was signed and marked, as it is read: its attributes and the last two. -/
theorem attrs_marked {hmac : HmacSha1} {crcTab : CrcTab} {key : Text} {signed marked : StunHdr}
    (sized : hdr.Sized) (short : hdr.payload.length + 52 < 65536)
    (encodes : Encodes attrs hdr.payload)
    (small : ∀ attr ∈ attrs, attr.type < 65536 ∧ attr.data.length < 65536)
    (signs : stunAddIntegrity hmac hdr key = .ok signed)
    (marks : addFingerprint crcTab signed = .ok marked) :
    marked.bytes.length = hdr.payload.length + 52 ∧
      be16 marked.bytes 2 = hdr.payload.length + 32 ∧
      ∃ l digest crc, l.map Prod.snd = attrs ∧ Attrs marked.bytes marked.bytes.length hdrSize
        (l ++ [(hdrSize + hdr.payload.length, ⟨stunMsgIntegrity, digest⟩),
          (hdrSize + hdr.payload.length + 24, ⟨stunFingerprint, crc⟩)]) := by
  have mlen := sized.mlen
  rcases marked_bytes sized (by rw [hdrSize]; omega) signs marks with
    ⟨integrity, fingerprint, bytes, -, -⟩
  have front : ({ hdr with mlen := hdr.mlen + 32 } : StunHdr).bytes.length =
      hdrSize + hdr.payload.length :=
    @StunHdr.length_bytes { hdr with mlen := hdr.mlen + 32 } sized.transId
  have length : marked.bytes.length = hdr.payload.length + 52 := by
    rw [bytes, List.length_append, length_trailer, front, hdrSize]
    omega
  have fields : marked.bytes = htons hdr.verType ++ htons (hdr.mlen + 32) ++
      htonl hdr.mcookie.toNat ++ hdr.transId ++ (hdr.payload ++ trailer integrity fingerprint) := by
    rw [bytes]
    simp only [StunHdr.bytes, List.append_assoc]
  have field : be16 marked.bytes 2 = hdr.mlen + 32 := by
    have read := be16_append (htons hdr.verType) (n := hdr.mlen + 32) (by omega)
      (htonl hdr.mcookie.toNat ++ (hdr.transId ++ (hdr.payload ++ trailer integrity fingerprint)))
    rw [length_htons] at read
    rw [fields]
    simpa only [List.append_assoc] using read
  have place : (htons hdr.verType ++ htons (hdr.mlen + 32) ++ htonl hdr.mcookie.toNat ++
      hdr.transId).length = hdrSize := by
    simp only [List.length_append, length_htons, length_htonl, sized.transId, hdrSize]
  have tail := attrs_trailer ({ hdr with mlen := hdr.mlen + 32 } : StunHdr).bytes integrity
    fingerprint
  have stop : marked.bytes.length = hdrSize + hdr.payload.length + 32 := by
    rw [length, hdrSize]
    omega
  rw [← bytes, front, ← stop] at tail
  have within : (htons hdr.verType ++ htons (hdr.mlen + 32) ++ htonl hdr.mcookie.toNat ++
      hdr.transId).length + hdr.payload.length ≤ marked.bytes.length := by
    rw [place, stop]
    omega
  rw [← place] at tail
  rcases encodes.read_append small (trailer integrity fingerprint) fields within tail with
    ⟨l, read, values⟩
  rw [place] at read
  exact ⟨length, by rw [field, mlen], l, _, _, values, read⟩

/-- A check that fits the arrays of a receiver, as it is read there. -/
structure Readable (bytes : List Byte) (fullfrag : Text) (l : List (Nat × StunAttr)) : Prop where
  short : addrlenAlign fullfrag.length ≤ 60
  size : bytes.length = 76 + addrlenAlign fullfrag.length
  mlen : be16 bytes 2 = 56 + addrlenAlign fullfrag.length
  attributes : Attrs bytes bytes.length hdrSize l
  copied : ∀ a ∈ l, a.2.type = stunMsgIntegrity → a.1 ≤ tdataSize
  username : stunAttrId (l.map Prod.snd) stunUsername = some ⟨stunUsername, fullfrag⟩

/-- Every check that is built is readable. -/
theorem readable_getStunFullRequest {draws : Nat} {lufrag rufrag rpwd : Option Text}
    (result : getStunFullRequest p draws lufrag rufrag rpwd = .ok (some hdr)) :
    ∃ fullfrag l, Readable hdr.bytes fullfrag l := by
  rcases getStunFullRequest_isSome_iff.mp ⟨hdr, result⟩ with
    ⟨ownFrag, peerFrag, pwd, rfl, rfl, rfl, room⟩
  have total : (peerFrag ++ lit ":" ++ ownFrag).length = peerFrag.length + 1 + ownFrag.length := by
    rw [List.length_append, List.length_append]
    rfl
  unfold getStunFullRequest at result
  dsimp only at result
  rw [if_pos (by rw [total, fullfragSize]; omega)] at result
  rcases bind_eq_ok_iff.mp result with ⟨signed, signs, result⟩
  rcases bind_eq_ok_iff.mp result with ⟨marked, marks, same⟩
  cases same
  set fullfrag := peerFrag ++ lit ":" ++ ownFrag with fullfrag_eq
  have payload : (unsignedRequest p draws fullfrag).payload.length =
      24 + addrlenAlign fullfrag.length :=
    length_unsignedRequest
  have aligned : addrlenAlign fullfrag.length ≤ 60 := by
    rw [total, addrlenAlign]
    omega
  have small : ∀ attr ∈ requestAttrs p draws fullfrag,
      attr.type < 65536 ∧ attr.data.length < 65536 := by
    intro attr member
    simp only [requestAttrs, stunSetAttrD, List.nil_append, List.cons_append, List.mem_cons,
      List.not_mem_nil, or_false] at member
    rcases member with rfl | rfl | rfl
    · simp [stunPriority, length_littleEndian]
    · simp [stunIceControlled, length_littleEndian]
    · dsimp only
      rw [stunUsername]
      omega
  have sized : (unsignedRequest p draws fullfrag).Sized := unsignedRequest_sized
  rcases attrs_marked sized (by omega) encodes_attrBytes small signs marks with
    ⟨length, mlen, l, digest, crc, values, attributes⟩
  refine ⟨fullfrag, _, aligned, by omega, by omega, attributes, ?_, ?_⟩
  · intro a member type
    rcases List.mem_append.mp member with own | added
    · have listed : a.2 ∈ requestAttrs p draws fullfrag := by
        rw [← values]
        exact List.mem_map_of_mem own
      simp only [requestAttrs, stunSetAttrD, List.nil_append, List.cons_append, List.mem_cons,
        List.not_mem_nil, or_false] at listed
      rcases listed with same | same | same
      · rw [same] at type
        cases type
      · rw [same] at type
        cases type
      · rw [same] at type
        cases type
    · simp only [List.mem_cons, List.not_mem_nil, or_false] at added
      rcases added with rfl | rfl
      · dsimp only
        rw [payload, hdrSize, tdataSize]
        omega
      · cases type
  · rw [List.map_append, values]
    rfl

/-! ## Answers are taken -/

theorem fills_arrived {msg : StunHdr} (fits : msg.bytes.length ≤ 0x800) :
    (Content.stun msg).Fills (arrived src msg.bytes fits) :=
  Content.fills_append rfl rfl rfl fits

variable {bytes : List Byte} {fullfrag : Text} {short : bytes.length ≤ 0x800} {key : Text}

/-- A packet that its sizes say the whole of is parsable from a buffer. -/
theorem parsable_arrived {lkey : Option Text} (size : hdrSize + be16 bytes 2 = bytes.length)
    (small : be16 bytes 2 ≤ tdataSize - 12) (attributes : Attrs bytes bytes.length hdrSize l)
    (copied : Copied lkey l) : Parsable (arrived src bytes short).buf lkey l := by
  rw [hdrSize] at size
  have length : 12 ≤ (arrived src bytes short).buf.bytes.length := by
    rw [(arrived src bytes short).whole]
    decide
  have field : be16 (arrived src bytes short).buf.bytes 2 = be16 bytes 2 :=
    be16_append_left (by omega)
  refine ⟨length, by rw [field]; exact small, ?_, copied⟩
  rw [field, hdrSize, size]
  exact attributes.append_right

theorem Readable.answerable (readable : Readable bytes fullfrag l) (key : Text) :
    Answerable (arrived src bytes short).buf key l := by
  have aligned := readable.short
  have mlen := readable.mlen
  have size := readable.size
  refine ⟨parsable_arrived (by rw [hdrSize]; omega) (by rw [tdataSize]; omega)
    readable.attributes (fun _ => readable.copied), ?_, ?_⟩
  · rw [(arrived src bytes short).whole]
    decide
  · intro username found
    rw [readable.username] at found
    cases found
    dsimp only
    omega

/-- An answer to a check is a response that is parsed, and it has no classic mapped address. -/
theorem answer_taken {hmac : HmacSha1} {crcTab : CrcTab} {heap : Nat → Byte} {saddr : SockAddr}
    {resp : StunHdr} (peer : SockAddr) (readable : Readable bytes fullfrag l)
    (answered : stunGetResponse hmac crcTab heap (some key) (arrived src bytes short).buf saddr =
      .ok (some resp)) :
    ∃ fits : resp.bytes.length ≤ 0x800, (arrived peer resp.bytes fits).IsResponse ∧
      ∃ l', Parsable (arrived peer resp.bytes fits).buf none l' ∧
        mappedAddress (l'.map Prod.snd) = .ok none := by
  have aligned := readable.short
  rcases stunGetResponse_eq_ok_iff.mp answered with
    ⟨l', parsable, inside, signed, signs, marked, marks, same⟩
  cases same
  have answerable : Answerable (arrived src bytes short).buf key l := readable.answerable key
  cases parsable.2.2.1.unique answerable.1.2.2.1
  have sized : (unsigned heap (arrived src bytes short).buf saddr l).Sized := unsigned_sized inside
  have payload : (unsigned heap (arrived src bytes short).buf saddr l).payload.length =
      16 + addrlenAlign fullfrag.length := by
    have size : (unsigned heap (arrived src bytes short).buf saddr l).payload.length =
        attrsSize (responseAttrs saddr (l.map Prod.snd)) :=
      length_attrBytes
    rw [size, attrsSize_responseAttrs, readable.username, Option.map_some, Option.getD_some]
    dsimp only
    omega
  rcases attrs_marked sized (by omega) encodes_attrBytes (responseAttrs_small parsable) signs marks
    with ⟨length, mlen, l'', digest, crc, values, attributes⟩
  have fits : resp.bytes.length ≤ 0x800 := by omega
  rcases stunGetResponse_header answered with ⟨type, -, cookie⟩
  refine ⟨fits, ⟨?_, ?_⟩, _, parsable_arrived (by rw [hdrSize]; omega) (by rw [tdataSize]; omega)
    attributes (fun keyed => absurd keyed (by decide)), ?_⟩
  · exact ((fills_arrived fits).header (by rw [type]; decide)).1.trans type
  · have place : slice resp.bytes 4 4 = htonl resp.mcookie.toNat := by
      have written := slice_append (htons resp.verType ++ htons resp.mlen)
        (htonl resp.mcookie.toNat) (resp.transId ++ resp.payload)
      rw [length_htonl] at written
      simpa [StunHdr.bytes] using written
    have read : slice (arrived peer resp.bytes fits).buf.bytes 4 4 = slice resp.bytes 4 4 :=
      slice_append_left (by omega)
    rw [hasCookie, read, place, cookie, decide_eq_true rfl]
  · have none : stunAttrId (responseAttrs saddr (l.map Prod.snd) ++ [⟨stunMsgIntegrity, digest⟩,
        ⟨stunFingerprint, crc⟩]) stunMappedAddress = none := by
      rw [stunAttrId, List.find?_eq_none]
      intro attr member
      rcases List.mem_append.mp member with answers | added
      · rcases mem_responseAttrs answers with ⟨type', -⟩ | ⟨type', -⟩
        · simp [type', stunXMappedAddress, stunMappedAddress]
        · simp [type', stunUsername, stunMappedAddress]
      · simp only [List.mem_cons, List.not_mem_nil, or_false] at added
        rcases added with rfl | rfl
        · simp [stunMsgIntegrity, stunMappedAddress]
        · simp [stunFingerprint, stunMappedAddress]
    have unmapped : mappedAddress (responseAttrs saddr (l.map Prod.snd) ++
        [⟨stunMsgIntegrity, digest⟩, ⟨stunFingerprint, crc⟩]) = .ok Option.none := by
      rw [mappedAddress, none]
    rw [List.map_append, values]
    exact unmapped

/-! ## Three steps -/

variable {ι : Type} [DecidableEq ι] {hosts : ι → Host} {n : Net ι Observed Packet} {i j : ι}
  {o : Observed} {r : Received} {past : List (Event × List Output)} {raddr : SockAddr}

/-- The timer sends a check for a pair, and the pair waits for its answer. -/
theorem resend_check {pair : CandidatePair}
    (requestable : ∀ pair ∈ ice.cPairs.items, pending pair = true →
      Requestable (getenv p ice (lit "ufrag")) pair.remote.username pair.remote.password)
    (member : pair ∈ ice.cPairs.items) (waits : pending pair = true) :
    ∃ ice' out k sock msg, handle p ice .resendCandidates = .ok (ice', out) ∧
      .request k sock pair.remote.addr msg ∈ out ∧ ice'.cPairs = ice.cPairs.map IoStream.checked ∧
      ∃ k', awaiting ice' pair.remote.addr = some k' := by
  rcases resendPairs_succeeds_iff (i := 0) |>.mpr requestable with
    ⟨⟨sent, draws⟩, all⟩
  rcases List.mem_iff_getElem?.mp member with ⟨k, here⟩
  rcases resendPairs_requests all k pair here waits with ⟨sock, msg, request⟩
  refine ⟨_, sent, _, sock, msg, bind_eq_ok_iff.mpr ⟨_, all, rfl⟩, request, rfl, ?_⟩
  rw [← Option.isSome_iff_exists, awaiting, List.findIdx?_isSome, List.any_eq_true]
  refine ⟨IoStream.checked pair, List.mem_map_of_mem member, ?_⟩
  rw [IoStream.checked, if_pos waits]
  simp [netaddrEquals]

/-- A check is answered from the media socket. -/
theorem answers_check (p : Platform) (src : SockAddr) (short : bytes.length ≤ 0x800)
    (readable : Readable bytes fullfrag l)
    (keyed : getattr (lit "pwd") ice.attrs = some key) (request : be16 bytes 0 = stunReq) :
    ∃ resp, stunGetResponse p.hmac p.crcTab p.heap (some key) (arrived src bytes short).buf src =
        .ok (some resp) ∧
      handle p ice (.channelEvent false (arrived src bytes short)) =
        .ok (ice, [.response ice.sockv4 src resp]) := by
  have answerable : Answerable (arrived src bytes short).buf key l := readable.answerable key
  rcases stunGetResponse_isOk_iff.mpr ⟨l, answerable⟩ with ⟨resp, answered⟩
  rcases Option.isSome_iff_exists.mp (stunGetResponse_isSome answered) with ⟨hdr, rfl⟩
  refine ⟨hdr, answered, ?_⟩
  have size := readable.size
  have asks : (arrived src bytes short).IsRequest :=
    (be16_append_left (by omega)).trans request
  have same : handle p ice (.channelEvent false (arrived src bytes short)) =
      onPacketIn p ice 0 (arrived src bytes short) :=
    onChannelEvent_eq false
  rw [same, onPacketIn_of_request asks, keyed]
  have peer : (arrived src bytes short).peer = src := rfl
  rw [peer, answered, ok_bind]

/-- An answer makes the pair succeed that waits for it, and changes nothing else. -/
theorem takes_answer (p : Platform) (ice : IoStream) (ctl : Bool) (response : r.IsResponse)
    (parsable : Parsable r.buf none l)
    (mapped : mappedAddress (l.map Prod.snd) = .ok none) :
    handle p ice (.channelEvent ctl r) = .ok (succeedPair ice r.peer, []) := by
  have parsed : stunPacketFromHdr p.hmac p.crcTab r.buf none = .ok _ :=
    stunPacketFromHdr_eq_ok_iff.mpr ⟨l, parsable, rfl⟩
  have same : handle p ice (.channelEvent ctl r) = onPacketIn p ice 0 r := onChannelEvent_eq ctl
  rw [same, onPacketIn_eq, response.1, if_neg (by decide), if_pos rfl, onResponse, parsed, ok_bind]
  dsimp only
  rw [mapped, ok_bind, if_pos response.2, addMapped]

/-- Three steps from any state that was reached. -/
theorem three_steps (reachable : Net.Reachable (agents hosts) (fun i => (hosts i).fresh) n)
    (requestable : ∀ pair ∈ (n.states i).ice.cPairs.items, pending pair = true →
      Requestable (getenv (hosts i).platform (n.states i).ice (lit "ufrag")) pair.remote.username
        pair.remote.password)
    {pair : CandidatePair} (member : pair ∈ (n.states i).ice.cPairs.items)
    (waits : pending pair = true) (there : pair.remote.addr = (hosts j).media)
    (keyed : getattr (lit "pwd") (hosts j).attrs = some key) :
    ∃ n' middle k, Relation.ReflTransGen (Net.Step (agents hosts)) n n' ∧
      middle.cPairs = (n.states i).ice.cPairs.map IoStream.checked ∧
      awaiting middle (hosts j).media = some k ∧
      (n'.states i).ice = succeedPair middle (hosts j).media := by
  -- the timer of the first agent
  rcases resend_check requestable member waits with
    ⟨ice₁, out₁, place, sock, msg, timer, request, pairs, k, awaits⟩
  have cautious := (cautious_of_reachable reachable).1 i
  rcases handle_sends cautious.checked timer _ request with
    ⟨-, draws, lufrag, rufrag, rpwd, built⟩
  rcases readable_getStunFullRequest built with ⟨fullfrag, l, readable⟩
  have size := readable.size
  have aligned := readable.short
  have short : msg.bytes.length ≤ 0x800 := by omega
  have offered₁ : Net.Offers (agents hosts) n.sent i .resendCandidates := .inl trivial
  have first := Net.Step.step (n := n) i _ offered₁ ((hosts i).act_of_handle timer)
  set n₁ := n.after i ⟨ice₁, (n.states i).past ++ [(.resendCandidates, out₁)]⟩
    (out₁.filterMap (hosts i).packet) with n₁_eq
  have sent₁ : ⟨(hosts i).address sock, (hosts j).media, .stun msg⟩ ∈ n₁.sent := by
    refine List.mem_append_right _ (List.mem_filterMap.mpr ⟨_, request, ?_⟩)
    rw [← there]
    rfl
  have state₁ : (n₁.states i).ice = ice₁ := by
    rw [n₁_eq, Net.after_states_self]
  -- the check reaches the other agent
  have cautious₁ := (cautious_of_reachable (reachable.tail first)).1 j
  have config : (n₁.states j).ice.attrs = (hosts j).attrs ∧
      (n₁.states j).ice.sockv4 = (hosts j).sockv4 :=
    ⟨(Prod.mk.inj cautious₁.config).1, (Prod.mk.inj (Prod.mk.inj cautious₁.config).2).1⟩
  have type : be16 msg.bytes 0 = stunReq := by
    have fills : (Content.stun msg).Fills (arrived ((hosts i).address sock) msg.bytes short) :=
      fills_arrived short
    have written := (fills.header (by rw [getStunFullRequest_verType built]; decide)).1
    rw [getStunFullRequest_verType built] at written
    exact (be16_append_left (by omega)).symm.trans written
  rcases answers_check (hosts j).platform ((hosts i).address sock) short readable
    (by rw [config.1]; exact keyed) type with ⟨resp, answered, reply⟩
  have offered₂ : Net.Offers (agents hosts) n₁.sent j
      (.channelEvent false (arrived ((hosts i).address sock) msg.bytes short)) :=
    .inr ⟨_, sent₁, rfl, rfl, fills_arrived short⟩
  have second := Net.Step.step (n := n₁) j _ offered₂ ((hosts j).act_of_handle reply)
  set n₂ := n₁.after j ⟨(n₁.states j).ice, _⟩ _ with n₂_eq
  have sent₂ : ⟨(hosts j).media, (hosts i).address sock, .stun resp⟩ ∈ n₂.sent := by
    refine List.mem_append_right _ (List.mem_filterMap.mpr ⟨_, List.mem_singleton_self _, ?_⟩)
    rw [Host.packet, config.2, Host.address, if_neg (hosts j).apart]
  have state₂ : (n₂.states i).ice = ice₁ := by
    rcases eq_or_ne i j with rfl | other
    · rw [n₂_eq, Net.after_states_self]
      exact state₁
    · rw [n₂_eq, Net.after_states_of_ne other, state₁]
  -- the answer comes back
  rcases answer_taken (hosts j).media readable answered with
    ⟨fits, response, l', parsable, mapped⟩
  have taken := takes_answer (hosts i).platform (n₂.states i).ice
    (decide (sock = (hosts i).sockv4Ctl)) response parsable mapped
  have offered₃ : Net.Offers (agents hosts) n₂.sent i (.channelEvent
      (decide (sock = (hosts i).sockv4Ctl)) (arrived (hosts j).media resp.bytes fits)) := by
    refine .inr ⟨_, sent₂, ?_, rfl, fills_arrived fits⟩
    simp [Host.address]
  have third := Net.Step.step (n := n₂) i _ offered₃ ((hosts i).act_of_handle taken)
  refine ⟨_, ice₁, k, ((Relation.ReflTransGen.single first).tail second).tail third, pairs,
    by rw [← there, awaits], ?_⟩
  rw [Net.after_states_self]
  exact congrArg (succeedPair · (hosts j).media) state₂

/-! ## All pairs -/

/-- The pairs after a round trip, place by place. -/
theorem getElem?_round {middle : IoStream} {k m : Nat}
    (pairs : middle.cPairs = ice.cPairs.map IoStream.checked)
    (awaits : awaiting middle raddr = some k) :
    (succeedPair middle raddr).cPairs.items[m]? = (ice.cPairs.items[m]?).map fun pair =>
      if k = m then { IoStream.checked pair with state := .succeeded }
      else IoStream.checked pair := by
  have mapped : middle.cPairs.items[m]? = (ice.cPairs.items[m]?).map IoStream.checked := by
    rw [pairs, Slots.map, List.getElem?_map]
  rw [getElem?_succeedPair awaits, mapped]
  split
  · rw [Option.map_map]
    rfl
  · rfl

theorem checked_remote (pair : CandidatePair) : (IoStream.checked pair).remote = pair.remote := by
  unfold IoStream.checked
  split
  · rfl
  · rfl

theorem pending_checked (pair : CandidatePair) :
    pending (IoStream.checked pair) = pending pair := by
  unfold IoStream.checked
  split
  · next waits =>
      rw [waits]
      rfl
  · rfl

theorem pending_succeeded (pair : CandidatePair) :
    pending { pair with state := .succeeded } = false :=
  rfl

/-- A pair that is pending after a round trip was so before it. -/
theorem pending_of_round {middle : IoStream} {k : Nat} {pair : CandidatePair}
    (pairs : middle.cPairs = ice.cPairs.map IoStream.checked)
    (awaits : awaiting middle raddr = some k)
    (member : pair ∈ (succeedPair middle raddr).cPairs.items) (waits : pending pair = true) :
    ∃ before ∈ ice.cPairs.items, pending before = true ∧ before.remote = pair.remote := by
  rcases List.mem_iff_getElem?.mp member with ⟨m, here⟩
  rw [getElem?_round pairs awaits] at here
  rcases Option.map_eq_some_iff.mp here with ⟨before, there, rfl⟩
  refine ⟨before, List.mem_of_getElem? there, ?_⟩
  split at waits
  · rw [pending_succeeded] at waits
    exact absurd waits Bool.false_ne_true
  · next other =>
      rw [pending_checked] at waits
      rw [if_neg other, checked_remote]
      exact ⟨waits, rfl⟩

/-- A round trip leaves the ends of the pairs, and one pair less is pending. -/
theorem round_spec {middle : IoStream} {k : Nat}
    (pairs : middle.cPairs = ice.cPairs.map IoStream.checked)
    (awaits : awaiting middle raddr = some k) :
    (succeedPair middle raddr).cPairs.items.map CandidatePair.remote =
        ice.cPairs.items.map CandidatePair.remote ∧
      (succeedPair middle raddr).cPairs.items.countP pending < ice.cPairs.items.countP pending := by
  have items : middle.cPairs.items = ice.cPairs.items.map IoStream.checked := by
    rw [pairs]
    rfl
  have same : middle.cPairs.items.countP pending = ice.cPairs.items.countP pending := by
    rw [items, List.countP_map]
    exact List.countP_congr fun pair _ => by rw [Function.comp_apply, pending_checked]
  constructor
  · apply List.ext_getElem?
    intro m
    rw [List.getElem?_map, List.getElem?_map, getElem?_round pairs awaits, Option.map_map]
    congr 1
    funext pair
    rw [Function.comp_apply]
    split
    · exact checked_remote pair
    · exact checked_remote pair
  · rcases of_awaiting awaits with ⟨pair, here, busy, -⟩
    rcases List.getElem?_eq_some_iff.mp here with ⟨inside, at_k⟩
    have waits : pending middle.cPairs.items[k] = true := by
      rw [at_k, pending, busy]
      rfl
    have after : (succeedPair middle raddr).cPairs.items =
        middle.cPairs.items.modify k fun pair => { pair with state := .succeeded } := by
      rw [(succeedPair_of_awaiting awaits).1]
      rfl
    have split : middle.cPairs.items = middle.cPairs.items.take k ++
        middle.cPairs.items[k] :: middle.cPairs.items.drop (k + 1) := by
      rw [← List.drop_eq_getElem_cons, List.take_append_drop]
    rw [← same, after, List.modify_eq_take_cons_drop inside]
    conv_rhs => rw [split]
    rw [List.countP_append, List.countP_append, List.countP_cons_of_pos waits,
      List.countP_cons_of_neg (by rw [pending_succeeded]; exact Bool.false_ne_true)]
    omega

/-- **Rendezvous.**  From wherever the agents and the network are, an agent with credentials for
its pairs can get all those to succeed whose agent is there with a password of its own. -/
theorem all_connect {ι : Type} [DecidableEq ι] {hosts : ι → Host} {n : Net ι Observed Packet}
    {i : ι} (reachable : Net.Reachable (agents hosts) (fun i => (hosts i).fresh) n)
    (requestable : ∀ pair ∈ (n.states i).ice.cPairs.items, pending pair = true →
      Requestable (getenv (hosts i).platform (n.states i).ice (lit "ufrag")) pair.remote.username
        pair.remote.password) :
    ∃ n', Relation.ReflTransGen (Net.Step (agents hosts)) n n' ∧
      (n'.states i).ice.cPairs.items.map CandidatePair.remote =
        (n.states i).ice.cPairs.items.map CandidatePair.remote ∧
      ∀ pair ∈ (n'.states i).ice.cPairs.items, ∀ j, pair.remote.addr = (hosts j).media →
        (getattr (lit "pwd") (hosts j).attrs).isSome → pair.state = .succeeded := by
  generalize count : (n.states i).ice.cPairs.items.countP pending = m
  induction m using Nat.strong_induction_on generalizing n with
  | _ m ih =>
      by_cases live : ∃ pair ∈ (n.states i).ice.cPairs.items, pending pair = true ∧
          ∃ j, pair.remote.addr = (hosts j).media ∧
            (getattr (lit "pwd") (hosts j).attrs).isSome
      · rcases live with ⟨pair, member, waits, j, there, keyed⟩
        rcases Option.isSome_iff_exists.mp keyed with ⟨key, keyed⟩
        rcases three_steps reachable requestable member waits there keyed with
          ⟨n₁, middle, k, steps, pairs, awaits, round⟩
        rcases round_spec pairs awaits with ⟨remotes, fewer⟩
        rw [← round] at remotes fewer
        have reachable₁ := reachable.trans steps
        have env : getenv (hosts i).platform (n₁.states i).ice (lit "ufrag") =
            getenv (hosts i).platform (n.states i).ice (lit "ufrag") := by
          have before := (Prod.mk.inj ((cautious_of_reachable reachable).1 i).config).1
          have behind := (Prod.mk.inj ((cautious_of_reachable reachable₁).1 i).config).1
          rw [getenv, getenv, before, behind]
        have requestable₁ : ∀ pair ∈ (n₁.states i).ice.cPairs.items, pending pair = true →
            Requestable (getenv (hosts i).platform (n₁.states i).ice (lit "ufrag"))
              pair.remote.username pair.remote.password := by
          intro pair member waits
          rw [round] at member
          rcases pending_of_round pairs awaits member waits with ⟨before, there, waited, same⟩
          rw [env, ← same]
          exact requestable before there waited
        rcases ih _ (count ▸ fewer) reachable₁ requestable₁ rfl with ⟨n', later, same, done⟩
        exact ⟨n', steps.trans later, same.trans remotes, done⟩
      · refine ⟨n, .refl, rfl, fun pair member j there keyed => ?_⟩
        have idle : ¬pending pair = true := fun waits => live ⟨pair, member, waits, j, there, keyed⟩
        rcases ((cautious_of_reachable reachable).1 i).checked.states pair member with
          state | state | state
        · exact absurd (by rw [pending, state]; rfl) idle
        · exact absurd (by rw [pending, state]; rfl) idle
        · exact state

/-! ## Two agents -/

/-- Events that an agent has by itself lead on. -/
theorem steps_of_run (i : ι) {events : List Event} (own : ∀ e ∈ events, Host.Own e)
    (result : run (observe (hosts i).platform) (n.states i) events = .ok o) :
    ∃ n', Relation.ReflTransGen (Net.Step (agents hosts)) n n' ∧ n'.states i = o := by
  induction events generalizing n with
  | nil =>
      cases result
      exact ⟨n, .refl, rfl⟩
  | cons e rest ih =>
      rcases bind_eq_ok_iff.mp result with ⟨middle, first, later⟩
      rcases map_eq_ok_iff.mp first with ⟨⟨ice', out⟩, handled, rfl⟩
      have offered : Net.Offers (agents hosts) n.sent i e := .inl (own e List.mem_cons_self)
      have step := Net.Step.step (n := n) i _ offered ((hosts i).act_of_handle handled)
      have state : (n.after i ⟨ice', (n.states i).past ++ [(e, out)]⟩
          (out.filterMap (hosts i).packet)).states i =
            ⟨ice', (n.states i).past ++ [(e, out)]⟩ :=
        Net.after_states_self
      rcases ih (n := n.after i _ _) (fun e member => own e (List.mem_cons_of_mem _ member))
        (by rw [state]; exact later) with ⟨n', steps, last⟩
      exact ⟨n', Relation.ReflTransGen.head step steps, last⟩

theorem sockets_apart : 5 ≠ 6 := Nat.ne_of_lt (Nat.lt_succ_self 5)

/-- Two agents on the ports 5000 and 6000. -/
def two (second : Bool) : Host where
  platform := host
  attrs := credentials
  sockv4 := 5
  sockv4Ctl := 6
  apart := sockets_apart
  media := ⟨if second then 6000 else 5000, 0x0A000001⟩
  control := ⟨if second then 6001 else 5001, 0x0A000001⟩

/-- The first agent knows its own candidate and the other one's. -/
def acquainted : List Event :=
  [appended (candidateAt "local-candidate" "5000"), appended (candidateAt "candidate" "6000")]

theorem reachable_two : ∃ n, Net.Reachable (agents two) (fun i => (two i).fresh) n ∧
    (∃ pair, (n.states false).ice.cPairs.items = [pair] ∧ pending pair = true ∧
      pair.remote.addr = (two true).media) ∧
    ∀ pair ∈ (n.states false).ice.cPairs.items, pending pair = true →
      Requestable (getenv (two false).platform (n.states false).ice (lit "ufrag"))
        pair.remote.username pair.remote.password := by
  have known : ∃ o, run (observe host) (Observed.fresh credentials 5 6) acquainted = .ok o ∧
      decide (o.ice.cPairs.items.map (fun pair =>
          (pending pair, pair.remote.addr, pair.remote.username, pair.remote.password)) =
        [(true, ⟨6000, 0x0A000001⟩, some (lit "u"), some (lit "p"))]) = true ∧
      getenv host o.ice (lit "ufrag") = some (lit "u") := by
    rw [← lands_false_iff]
    decide +kernel
  rcases known with ⟨o, reached, items, env⟩
  have own : ∀ e ∈ acquainted, Host.Own e := by
    intro e member
    simp only [acquainted, appended, List.mem_cons, List.not_mem_nil, or_false] at member
    rcases member with rfl | rfl
    · trivial
    · trivial
  have start : run (observe (two false).platform)
      ((Net.start fun i => (two i).fresh : Net Bool Observed Packet).states false) acquainted =
        .ok o :=
    reached
  rcases steps_of_run false own start with ⟨n, steps, state⟩
  rcases List.map_eq_singleton_iff.mp (of_decide_eq_true items) with ⟨pair, one, fields⟩
  simp only [Prod.mk.injEq] at fields
  rcases fields with ⟨waits, addr, username, password⟩
  refine ⟨n, steps, ⟨pair, by rw [state, one], waits, addr⟩, fun pair' member _ => ?_⟩
  rw [state, one] at member
  rw [List.mem_singleton.mp member, state, username, password]
  exact ⟨_, _, _, env, rfl, rfl, by decide⟩

/-- The pair of the first agent succeeds. -/
theorem all_connect_two : ∃ n, Net.Reachable (agents two) (fun i => (two i).fresh) n ∧
    ∃ pair, (n.states false).ice.cPairs.items = [pair] ∧ pair.state = .succeeded := by
  rcases reachable_two with ⟨n, reachable, ⟨pair, one, waits, there⟩, requestable⟩
  rcases all_connect reachable requestable with ⟨n', steps, same, done⟩
  rw [one, List.map_singleton] at same
  rcases List.map_eq_singleton_iff.mp same with ⟨pair', one', remote⟩
  refine ⟨n', reachable.trans steps, pair', one', done pair'
    (by rw [one']; simp) true ?_ (by decide)⟩
  rw [remote, there]

/-! ## Agreement -/

/-- **Agreement.**  Whatever the network loses, repeats and delays: a pair that has succeeded
leads to the media socket of an agent that has answered a check, and media is sent to such sockets
only. -/
theorem agents_agree {ι : Type} [DecidableEq ι] {hosts : ι → Host} {n : Net ι Observed Packet}
    (reachable : Net.Reachable (agents hosts) (fun i => (hosts i).fresh) n) :
    (∀ i, ∀ pair ∈ (n.states i).ice.cPairs.items, pair.state = .succeeded →
        ∃ j, pair.remote.addr = (hosts j).media ∧ HasAnswered hosts n.sent i j) ∧
      ∀ packet ∈ n.sent, ∀ hdr payload, packet.content = .rtp hdr payload →
        ∃ i j, (hosts i).Has packet.src ∧ packet.dst = (hosts j).media ∧
          HasAnswered hosts n.sent i j := by
  rcases cautious_of_reachable reachable with ⟨cautious, sound⟩
  refine ⟨fun i => (cautious i).answered, fun packet member hdr payload carried => ?_⟩
  have holds := sound packet member
  unfold Sound at holds
  rw [carried] at holds
  exact holds

/-- The second agent has answered when the pair of the first one has succeeded. -/
theorem agents_agree_two : ∃ n, Net.Reachable (agents two) (fun i => (two i).fresh) n ∧
    ∃ pair ∈ (n.states false).ice.cPairs.items, pair.state = .succeeded ∧
      ∃ j, pair.remote.addr = (two j).media ∧ HasAnswered two n.sent false j := by
  rcases reachable_two with ⟨n, reachable, ⟨pair, one, waits, there⟩, requestable⟩
  have member : pair ∈ (n.states false).ice.cPairs.items := by
    rw [one]
    exact List.mem_singleton_self pair
  rcases three_steps reachable requestable member waits there rfl with
    ⟨n', middle, k, steps, -, awaits, round⟩
  have reachable' := reachable.trans steps
  rcases of_awaiting awaits with ⟨pair', here, -, -⟩
  have succeeded : { pair' with state := .succeeded } ∈ (n'.states false).ice.cPairs.items := by
    apply List.mem_of_getElem? (i := k)
    rw [round, getElem?_succeedPair awaits, if_pos rfl, here]
    rfl
  exact ⟨n', reachable', _, succeeded, rfl, (agents_agree reachable').1 false _ succeeded rfl⟩

end Xwbot.Ice
