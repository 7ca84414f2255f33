import Xwbot.Ice.Datagrams

/-!
# Media that comes in

`route_rtp_packet_in` hands the bytes behind the twelve of its header structure to the object of
the payload type.  It does not look at the fields of the first byte, which say what else stands in
front of the payload and behind it, nor at the length.  The object comes from a cache that is
filled by a lookup of the type among the payloads.
-/

namespace Xwbot.Ice

open Runs IoStream

variable {p : Platform} {ice ice' : IoStream} {flags : UInt32} {r : Received} {out : List Output}

/-! ## The payload of a packet -/

/-- The number of contributing sources. -/
def csrcCount (octet1 : Byte) : Nat :=
  (octet1 &&& 0xF).toNat

/-- A header extension follows the contributing sources. -/
def hasExtension (octet1 : Byte) : Bool :=
  octet1 &&& 0x10 ≠ 0

/-- The last byte is the length of padding. -/
def hasPadding (octet1 : Byte) : Bool :=
  octet1 &&& 0x20 ≠ 0

/-- Where the payload begins.  The length of a header extension is in words of four bytes. -/
def payloadOffset (packet : List Byte) : Option Nat :=
  let offset := 12 + 4 * csrcCount (packet.getD 0 0)
  if hasExtension (packet.getD 0 0) then
    if offset + 4 ≤ packet.length then some (offset + 4 + 4 * be16 packet (offset + 2)) else none
  else some offset

/-- What is left in front of the padding. -/
def withoutPadding (octet1 : Byte) (body : List Byte) : Option (List Byte) :=
  if hasPadding octet1 then
    match body.getLast? with
    | none => none
    | some n => if n.toNat ≤ body.length then some (body.take (body.length - n.toNat)) else none
  else some body

/-- The payload of an RTP packet, unless the packet is too short for what its header says. -/
def rtpPayload (packet : List Byte) : Option (List Byte) := do
  let offset ← payloadOffset packet
  if offset ≤ packet.length then withoutPadding (packet.getD 0 0) (packet.drop offset) else none

/-! ## What is handed on -/

namespace Received

/-- The bytes that were received. -/
def packet (r : Received) : List Byte :=
  r.buf.bytes.take r.len

/-- The payload type, for which seven bits are taken. -/
def payloadType (r : Received) : Nat :=
  be16 r.buf.bytes 0 % 128

/-- The object that the cache or the lookup yields for the payload type. -/
def owner (r : Received) (ice : IoStream) : Option Nat :=
  (ice.mediaOwnerCache r.payloadType).or
    ((r.payloads.find? fun payload => eqnText payload.1 (decimal r.payloadType)).map Prod.snd)

/-- The header has nothing but its twelve bytes, and the payload no padding. -/
def Plain (r : Received) : Prop :=
  12 ≤ r.len ∧ csrcCount (r.packet.getD 0 0) = 0 ∧ hasExtension (r.packet.getD 0 0) = false ∧
    (hasPadding (r.packet.getD 0 0) = true → (r.packet.drop 12).getLast? = some 0)

end Received

/-- What is handed to a media object is the payload, at its place in the datagram, and there is
an object for it if the plugin finds one. -/
def Depacketises (p : Platform) (ice : IoStream) (flags : UInt32) (r : Received) : Prop :=
  ∃ ice' out, onPacketIn p ice flags r = .ok (ice', out) ∧
    (∀ owner data (plen : Int), .media owner data plen ∈ out →
      0 ≤ plen ∧ ∃ offset : Nat, data = r.buf.bytes.drop offset ∧ offset + plen ≤ r.len ∧
        rtpPayload r.packet = some (data.take plen.toNat)) ∧
    ((r.owner ice).isSome → (rtpPayload r.packet).isSome → ∃ owner data plen,
      .media owner data plen ∈ out)

/-- A payload begins where the offset says and ends in front of the padding. -/
theorem rtpPayload_eq_some {packet body : List Byte} (payload : rtpPayload packet = some body) :
    ∃ offset padding, payloadOffset packet = some offset ∧
      offset + body.length + padding = packet.length ∧
      (hasPadding (packet.getD 0 0) = true →
        ∃ n, (packet.drop offset).getLast? = some n ∧ n.toNat = padding) := by
  unfold rtpPayload at payload
  rcases Option.bind_eq_some_iff.mp payload with ⟨offset, begins, later⟩
  split at later
  · rename_i inside
    unfold withoutPadding at later
    split at later
    · rename_i padded
      split at later
      · cases later
      · rename_i n last
        split at later
        · rename_i fits
          cases later
          refine ⟨offset, n.toNat, begins, ?_, fun _ => ⟨n, last, rfl⟩⟩
          rw [List.length_drop] at fits
          rw [List.length_take, List.length_drop]
          omega
        · cases later
    · rename_i unpadded
      cases later
      refine ⟨offset, 0, begins, ?_, fun padded => absurd padded unpadded⟩
      rw [List.length_drop]
      omega
  · cases later

/-- Nothing stands in front of the payload but the twelve bytes. -/
theorem payloadOffset_eq_twelve_iff {packet : List Byte} : payloadOffset packet = some 12 ↔
    csrcCount (packet.getD 0 0) = 0 ∧ hasExtension (packet.getD 0 0) = false := by
  unfold payloadOffset
  cases hasExtension (packet.getD 0 0) with
  | true =>
      simp only [if_true]
      split
      · simp only [Option.some.injEq]
        constructor
        · intro same
          omega
        · rintro ⟨-, impossible⟩
          cases impossible
      · simp
  | false =>
      simp only [Bool.false_eq_true, if_false, Option.some.injEq, and_true]
      omega

theorem twelve_le_of_payloadOffset {packet : List Byte} {offset : Nat}
    (begins : payloadOffset packet = some offset) : 12 ≤ offset := by
  unfold payloadOffset at begins
  dsimp only at begins
  split at begins
  · split at begins
    · cases begins
      omega
    · cases begins
  · cases begins
    omega

namespace Received

theorem length_packet (r : Received) : r.packet.length = r.len := by
  rw [packet, List.length_take, r.whole, Nat.min_eq_left r.within]

/-- The bytes behind the header structure are the payload of a plain packet and of no other. -/
theorem rtpPayload_packet_iff : 12 ≤ r.len ∧ rtpPayload r.packet = some (r.packet.drop 12) ↔
    r.Plain := by
  constructor
  · rintro ⟨long, payload⟩
    rcases rtpPayload_eq_some payload with ⟨offset, padding, begins, sum, last⟩
    have behind := twelve_le_of_payloadOffset begins
    rw [List.length_drop, length_packet] at sum
    have same : offset = 12 := by omega
    have none : padding = 0 := by omega
    subst same
    subst none
    rcases payloadOffset_eq_twelve_iff.mp begins with ⟨sources, extension⟩
    refine ⟨long, sources, extension, fun padded => ?_⟩
    rcases last padded with ⟨n, last, zero⟩
    rw [last, UInt8.toNat_inj.mp (zero.trans UInt8.toNat_zero.symm)]
  · rintro ⟨long, sources, extension, last⟩
    refine ⟨long, ?_⟩
    unfold rtpPayload
    rw [payloadOffset_eq_twelve_iff.mpr ⟨sources, extension⟩]
    change (if 12 ≤ r.packet.length then _ else _) = _
    rw [if_pos (by rw [length_packet]; exact long)]
    unfold withoutPadding
    split
    · rename_i padded
      rw [last padded]
      simp
    · rfl

/-- What is written lies where the packet does. -/
theorem take_drop_packet : (r.buf.bytes.drop 12).take (r.len - 12) = r.packet.drop 12 := by
  rw [packet, List.drop_take]

end Received

/-- **Spec of `route_rtp_packet_in`.** -/
theorem routeRtpPacketIn_eq : routeRtpPacketIn ice r =
    if r.payloadType < payloadCacheSize then
      match r.owner ice with
      | none => .ok (ice, [])
      | some owner => .ok
          ({ ice with
              mediaOwnerCache := Function.update ice.mediaOwnerCache r.payloadType (some owner) },
            [.media owner (r.buf.bytes.drop 12) ((r.len : Int) - 12)])
    else .error .overread := by
  unfold routeRtpPacketIn Received.owner Received.payloadType
  dsimp only
  split
  · cases cached : ice.mediaOwnerCache (be16 r.buf.bytes 0 % 128) with
    | some owner =>
        have same : Function.update ice.mediaOwnerCache (be16 r.buf.bytes 0 % 128) (some owner) =
            ice.mediaOwnerCache := by
          rw [← cached, Function.update_eq_self]
        simp only [Option.some_or, same]
    | none =>
        rw [Option.none_or]
        cases r.payloads.find? fun payload =>
            eqnText payload.1 (decimal (be16 r.buf.bytes 0 % 128)) with
        | none => rfl
        | some payload =>
            have same : (fun n => if n = be16 r.buf.bytes 0 % 128 then some payload.2
                else ice.mediaOwnerCache n) =
                Function.update ice.mediaOwnerCache (be16 r.buf.bytes 0 % 128)
                  (some payload.2) := by
              funext n
              rw [Function.update_apply]
            simp only [Option.map_some, same]
  · rfl

/-- What `__on_packet_in` does with a packet that is neither kind of STUN message. -/
theorem onPacketIn_of_other_eq (other : r.IsOther) : onPacketIn p ice flags r =
    if r.payloadType < payloadCacheSize then
      match r.owner ice with
      | none => .ok (ice, [.routeRtp r.buf.bytes r.len])
      | some owner => .ok
          ({ ice with
              mediaOwnerCache := Function.update ice.mediaOwnerCache r.payloadType (some owner) },
            [.routeRtp r.buf.bytes r.len,
              .media owner (r.buf.bytes.drop 12) ((r.len : Int) - 12)])
    else .error .overread := by
  rw [onPacketIn_of_other other, routeRtpPacketIn_eq]
  split
  · cases r.owner ice with
    | none => rfl
    | some owner => rfl
  · rfl

/-- **Depacketisation.**  Media is handed on as it should be exactly if there is no object for it
or nothing but twelve bytes stands around the payload. -/
theorem depacketises_iff (other : r.IsOther) : Depacketises p ice flags r ↔
    r.payloadType < payloadCacheSize ∧ (r.owner ice = none ∨ r.Plain) := by
  unfold Depacketises
  rw [onPacketIn_of_other_eq other]
  split
  · rename_i small
    simp only [small, true_and]
    cases found : r.owner ice with
    | none => simp
    | some owner =>
        rw [← Received.rtpPayload_packet_iff]
        simp only [Except.ok.injEq, Prod.mk.injEq, reduceCtorEq, false_or]
        constructor
        · rintro ⟨ice', out, ⟨-, rfl⟩, handed, -⟩
          rcases handed _ _ _ (List.mem_cons_of_mem _ (List.mem_singleton_self _)) with
            ⟨positive, -, -, -, payload⟩
          have count : ((r.len : Int) - 12).toNat = r.len - 12 := by omega
          rw [count, Received.take_drop_packet] at payload
          exact ⟨by omega, payload⟩
        · rintro ⟨long, payload⟩
          refine ⟨_, _, ⟨rfl, rfl⟩, ?_, fun _ _ => ⟨_, _, _,
            List.mem_cons_of_mem _ (List.mem_singleton_self _)⟩⟩
          intro owner' data plen member
          simp only [List.mem_cons, reduceCtorEq, List.not_mem_nil, or_false, false_or,
            Output.media.injEq] at member
          rcases member with ⟨rfl, rfl, rfl⟩
          have count : ((r.len : Int) - 12).toNat = r.len - 12 := by omega
          refine ⟨by omega, 12, rfl, by omega, ?_⟩
          rw [count, Received.take_drop_packet]
          exact payload
  · rename_i large
    simp [large]

/-- A datagram for a payload of type 96. -/
def forPayload (bytes : List Byte) (short : bytes.length ≤ 0x800) : Received :=
  { arrived ⟨5000, 0x0A000001⟩ bytes short with payloads := [(lit "96", 0)] }

/-- A header of twelve bytes and two bytes behind it. -/
def plainPacket : Received :=
  forPayload [0x80, 0x60, 0, 1, 0, 0, 0, 2, 0, 0, 0, 3, 7, 8] (by decide)

theorem depacketises_iff_plain : Depacketises host (created [] 5 6) 0 plainPacket := by
  have other : plainPacket.IsOther := by
    unfold Received.IsOther
    decide
  refine (depacketises_iff other).mpr ⟨by decide, .inr ?_⟩
  unfold Received.Plain
  decide

/-- A packet that is too short for its header. -/
def shortPacket : Received :=
  forPayload [0x80, 0x60] (by decide)

/-- The bytes behind a datagram of two bytes are written with the length -10. -/
theorem not_depacketises_short : ¬Depacketises host (created [] 5 6) 0 shortPacket := by
  rintro ⟨ice', out, result, handed, -⟩
  have other : shortPacket.IsOther := by
    unfold Received.IsOther
    decide
  have owner : shortPacket.owner (created [] 5 6) = some 0 := by decide
  rw [onPacketIn_of_other_eq other, if_pos (by decide), owner] at result
  cases result
  have positive := (handed _ _ _ (List.mem_cons_of_mem _ (List.mem_singleton_self _))).1
  exact absurd positive (by decide)

/-! ## Routing by type -/

/-- A stream and the names of the payloads below `in$media`, in the order of their creation.  A
payload is known by its place. -/
structure Routing where
  ice : IoStream
  names : List Text

namespace Routing

/-- A payload is added, or a packet comes in. -/
inductive Event where
  | add (name : Text)
  | packet (r : Received)

variable {s s' : Routing} {e : Event}

/-- The packet finds the payloads that there are. -/
def received (s : Routing) (r : Received) : Received :=
  { r with payloads := s.names.zipIdx }

def step (s : Routing) : Event → Except Fault Routing
  | .add name => .ok { s with names := s.names ++ [name] }
  | .packet r => do
      let (ice, _) ← routeRtpPacketIn s.ice (s.received r)
      .ok { s with ice := ice }

/-- A packet is written to a payload that is named by its type, and to no other, and it is
written if there is such a payload. -/
def Routes (s : Routing) : Event → Prop
  | .add _ => True
  | .packet r =>
      ∃ ice out, routeRtpPacketIn s.ice (s.received r) = .ok (ice, out) ∧
        (∀ owner data plen, .media owner data plen ∈ out →
          s.names[owner]? = some (decimal r.payloadType)) ∧
        (decimal r.payloadType ∈ s.names → ∃ owner data plen, .media owner data plen ∈ out)

/-- The type is not the last one, and the cache knows it or the first payload whose name begins
it is that type in digits. -/
def Unconfused (s : Routing) : Event → Prop
  | .add _ => True
  | .packet r =>
      r.payloadType < payloadCacheSize ∧
        (s.ice.mediaOwnerCache r.payloadType = none →
          ∀ name, s.names.find? (fun name => eqnText name (decimal r.payloadType)) = some name →
            name = decimal r.payloadType)

/-- The objects in the cache are named by their types. -/
def Cached (s : Routing) : Prop :=
  ∀ pt owner, s.ice.mediaOwnerCache pt = some owner → s.names[owner]? = some (decimal pt)

/-- What the lookup finds stands at its place among the names. -/
theorem getElem?_of_find? {names : List Text} {f : Text → Bool} {payload : Text × Nat}
    (found : (names.zipIdx.find? fun payload => f payload.1) = some payload) :
    names[payload.2]? = some payload.1 ∧ names.find? f = some payload.1 := by
  constructor
  · exact List.mem_zipIdx_iff_getElem?.mp (List.mem_of_find?_eq_some found)
  · have first : (names.zipIdx.map Prod.fst).find? f = some payload.1 := by
      rw [List.find?_map]
      exact congrArg (Option.map Prod.fst) found
    rw [List.zipIdx_map_fst] at first
    exact first

/-- The owner that is found is named by the type, unless the lookup takes another name for it. -/
theorem owner_received_iff {r : Received} (cached : s.Cached) :
    ((∀ owner, (s.received r).owner s.ice = some owner →
        s.names[owner]? = some (decimal r.payloadType)) ∧
      (decimal r.payloadType ∈ s.names → ((s.received r).owner s.ice).isSome)) ↔
    (s.ice.mediaOwnerCache r.payloadType = none →
      ∀ name, s.names.find? (fun name => eqnText name (decimal r.payloadType)) = some name →
        name = decimal r.payloadType) := by
  have owner_eq : (s.received r).owner s.ice = (s.ice.mediaOwnerCache r.payloadType).or
      ((s.names.zipIdx.find? fun payload => eqnText payload.1 (decimal r.payloadType)).map
        Prod.snd) := rfl
  cases known : s.ice.mediaOwnerCache r.payloadType with
  | some owner =>
      rw [known, Option.some_or] at owner_eq
      rw [owner_eq]
      simpa using cached r.payloadType owner known
  | none =>
      rw [known, Option.none_or] at owner_eq
      rw [owner_eq]
      cases found : s.names.zipIdx.find? fun payload =>
          eqnText payload.1 (decimal r.payloadType) with
      | none =>
          have nobody : ∀ name ∈ s.names, eqnText name (decimal r.payloadType) = false := by
            intro name member
            rcases List.getElem?_of_mem member with ⟨n, place⟩
            have zipped := List.mem_zipIdx_iff_getElem?.mpr
              (show s.names[(name, n).2]? = _ from place)
            simpa using List.find?_eq_none.mp found (name, n) zipped
          have missing : s.names.find? (fun name => eqnText name (decimal r.payloadType)) = none :=
            List.find?_eq_none.mpr fun name member => by simp [nobody name member]
          rw [missing]
          simp only [Option.map_none, reduceCtorEq, false_implies, implies_true, true_and,
            Option.isSome_none, Bool.false_eq_true, imp_false, iff_true]
          intro member
          have own := nobody _ member
          rw [eqnText_refl] at own
          cases own
      | some payload =>
          rcases @getElem?_of_find? s.names (fun name => eqnText name (decimal r.payloadType))
            payload found with ⟨place, first⟩
          rw [first]
          simp [place]

theorem routes_iff_unconfused (cached : s.Cached) : s.Routes e ↔ s.Unconfused e := by
  cases e with
  | add name => exact Iff.rfl
  | packet r =>
      simp only [Routes, Unconfused]
      rw [routeRtpPacketIn_eq, ← owner_received_iff cached]
      have type_eq : (s.received r).payloadType = r.payloadType := rfl
      rw [type_eq]
      split
      · rename_i small
        simp only [small, true_and]
        cases (s.received r).owner s.ice with
        | none => simp
        | some owner =>
            constructor
            · rintro ⟨ice, out, routed, named, -⟩
              cases routed
              refine ⟨?_, fun _ => rfl⟩
              intro owner' same
              cases same
              exact named _ _ _ (List.mem_singleton_self _)
            · rintro ⟨named, -⟩
              refine ⟨_, _, rfl, ?_, fun _ => ⟨_, _, _, List.mem_singleton_self _⟩⟩
              intro owner' data plen member
              cases List.mem_singleton.mp member
              exact named owner rfl
      · rename_i large
        simp [large]

/-- A packet that is routed to the right payload leaves only such payloads in the cache. -/
theorem Cached.step (cached : s.Cached) (routes : s.Routes e) (next : s.step e = .ok s') :
    s'.Cached := by
  cases e with
  | add name =>
      cases next
      intro pt owner known
      have named := cached pt owner known
      rcases List.getElem?_eq_some_iff.mp named with ⟨inside, -⟩
      change (s.names ++ [name])[owner]? = _
      rw [List.getElem?_append_left inside]
      exact named
  | packet r =>
      rcases bind_eq_ok_iff.mp next with ⟨⟨ice, out⟩, routed, last⟩
      cases last
      rcases routes with ⟨ice', out', routed', named, -⟩
      rw [routed] at routed'
      cases routed'
      rw [routeRtpPacketIn_eq] at routed
      split at routed
      · cases found : (s.received r).owner s.ice with
        | none =>
            rw [found] at routed
            cases routed
            exact cached
        | some owner =>
            rw [found] at routed
            cases routed
            intro pt owner' known
            change Function.update s.ice.mediaOwnerCache r.payloadType (some owner) pt = _ at known
            rw [Function.update_apply] at known
            split at known
            · rename_i same
              cases known
              rw [same]
              exact named _ _ _ (List.mem_singleton_self _)
            · exact cached pt owner' known
      · cases routed

/-- Nothing is in the cache of a stream that was just created. -/
def start (attrs : AttrList) (sockv4 sockv4Ctl : Nat) (names : List Text) : Routing :=
  ⟨created attrs sockv4 sockv4Ctl, names⟩

/-- **Routing.**  Whatever payloads there are and are added, every packet of a run is routed by
its type exactly if no packet is of the last type and no lookup meets another name first. -/
theorem along_routes_iff (attrs : AttrList) (sockv4 sockv4Ctl : Nat) (names : List Text)
    (events : List Event) :
    Along step Routes (start attrs sockv4 sockv4Ctl names) events ↔
      Along step Unconfused (start attrs sockv4 sockv4Ctl names) events := by
  refine along_congr Cached (fun s e s' cached routes next => cached.step routes next)
    (fun s e cached => routes_iff_unconfused cached) ?_
  intro pt owner known
  cases known

/-- The payload 9 takes the packets of type 96, also if a payload 96 is added. -/
theorem not_along_routes_begun : ¬Along step Routes (start [] 5 6 [lit "9"])
    [.add (lit "96"), .packet plainPacket] := by
  rintro ⟨-, later⟩
  rcases (later _ rfl).1 with ⟨ice, out, routed, named, -⟩
  rw [routeRtpPacketIn_eq, if_pos (by decide)] at routed
  cases routed
  have wrong := named _ _ _ (List.mem_singleton_self _)
  revert wrong
  decide

end Routing

end Xwbot.Ice
