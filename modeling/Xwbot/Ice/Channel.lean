import Xwbot.Ice.Agents

/-!
# Media through two streams

What is written to a stream as media of one type comes, on the other side, to the object of that
type: whole, once and in the order of the writes, whatever else the two streams do in between.
Only the datagrams of the type have to arrive in order; checks, answers and media of other types
may be lost and mixed.
-/

namespace Xwbot.Ice

open Runs IoStream

variable {p : Platform} {ice ice' : IoStream} {e : Event} {out : List Output} {r : Received}
  {past : List (Event × List Output)} {o o' : Observed} {name : Text} {attrs : AttrList}
  {pt owner sockv4 sockv4Ctl : Nat} {events : List Event} {hdr : RtpHdr} {payload : List Byte}

/-! ## What kind of event sends what -/

/-- The kinds of outputs. -/
def Event.Emits : Event → Output → Prop
  | .childAppend .., .candidateNew _ => True
  | .resendCandidates, .request .. => True
  | .channelEvent .., .candidateNew _ => True
  | .channelEvent .., .response .. => True
  | .channelEvent .., .routeRtp .. => True
  | .channelEvent .., .media .. => True
  | .tryWrite .., .rtp .. => True
  | _, _ => False

theorem resendPairs_out {i draws draws' : Nat} {pairs : List CandidatePair}
    (result : resendPairs p ice i draws pairs = .ok (out, draws')) :
    ∀ o ∈ out, ∃ pair sock raddr msg, o = .request pair sock raddr msg := by
  induction pairs generalizing i draws out with
  | nil =>
      cases result
      exact fun o member => absurd member List.not_mem_nil
  | cons pair rest ih =>
      rw [resendPairs] at result
      rcases bind_eq_ok_iff.mp result with ⟨⟨sent, drawn⟩, here, result⟩
      rcases bind_eq_ok_iff.mp result with ⟨⟨more, drawn'⟩, later, result⟩
      cases result
      intro o member
      rcases List.mem_append.mp member with first | others
      · cases waits : pending pair with
        | true =>
            rcases resendPair_eq_ok here waits with ⟨sock, msg, rfl⟩
            exact ⟨_, _, _, _, List.mem_singleton.mp first⟩
        | false =>
            unfold resendPair at here
            rw [if_neg (by rw [waits]; exact Bool.false_ne_true)] at here
            cases here
            exact absurd first List.not_mem_nil
      · exact ih later o others

theorem handle_emits (checked : Checked ice past) (result : handle p ice e = .ok (ice', out)) :
    ∀ o ∈ out, e.Emits o := by
  intro o member
  cases e with
  | childAppend name attrs =>
      rcases announces_appendChild result o member with ⟨attrs, rfl⟩
      trivial
  | resendCandidates =>
      rcases bind_eq_ok_iff.mp result with ⟨⟨sent, draws⟩, all, same⟩
      cases same
      rcases resendPairs_out all o member with ⟨pair, sock, raddr, msg, rfl⟩
      trivial
  | channelEvent ctl r =>
      have handled : onPacketIn p ice 0 r = .ok (ice', out) :=
        (onChannelEvent_eq ctl).symm.trans result
      rw [onPacketIn_eq] at handled
      split at handled
      · rcases bind_eq_ok_iff.mp handled with ⟨resp, -, sent⟩
        cases resp with
        | none => cases sent
        | some resp =>
            cases sent
            rw [List.mem_singleton.mp member]
            trivial
      · split at handled
        · rcases announces_onResponse handled o member with ⟨attrs, rfl⟩
          trivial
        · split at handled
          · rcases bind_eq_ok_iff.mp handled with ⟨⟨routed, written⟩, passed, sent⟩
            cases sent
            rcases List.mem_cons.mp member with rfl | member
            · trivial
            · rcases routeRtpPacketIn_out passed o member with ⟨owner, data, plen, rfl⟩
              trivial
          · cases handled
            exact absurd member List.not_mem_nil
  | tryWrite buf attr =>
      have written : tryWrite ice buf attr = .ok (ice', out) := result
      rw [tryWrite_eq checked] at written
      split at written
      · cases written
        exact absurd member List.not_mem_nil
      · split at written
        · cases written
        · rcases bind_eq_ok_iff.mp written with ⟨rtp, -, sent⟩
          cases sent
          rw [List.mem_singleton.mp member]
          trivial

/-! ## Sending -/

/-- The payload type that the hints of a write give. -/
def writeType (attr : Option AttrList) : Option Nat :=
  (hint attr "pt").map fun t => (atoi t % 128).toNat

/-- The writes of a type. -/
def Event.writes (pt : Nat) : Event → List (List Byte × Option AttrList)
  | .tryWrite buf attr => if writeType attr = some pt then [(buf, attr)] else []
  | _ => []

/-- The media of a type that an output puts on the wire. -/
def Output.wire (pt : Nat) : Output → Option Content
  | .rtp _ _ hdr payload => if hdr.pt = pt then some (.rtp hdr payload) else none
  | _ => none

/-- All media of a type that was sent. -/
def transmitted (pt : Nat) (past : List (Event × List Output)) : List Content :=
  past.flatMap fun entry => entry.2.filterMap (Output.wire pt)

theorem transmitted_concat : transmitted pt (past ++ [(e, out)]) =
    transmitted pt past ++ out.filterMap (Output.wire pt) := by
  rw [transmitted, List.flatMap_append, List.flatMap_singleton]
  rfl

/-- A write, and the packet that is sent for it. -/
def Carries (written : List Byte × Option AttrList) (content : Content) : Prop :=
  ∃ ssrc hdr, rtpHeader written.2 ssrc = .ok hdr ∧ content = .rtp hdr written.1

theorem rtpHeader_pt {attr : Option AttrList} {ssrc : Option Nat}
    (made : rtpHeader attr ssrc = .ok hdr) : writeType attr = some hdr.pt := by
  unfold rtpHeader at made
  unfold writeType hint
  dsimp only at made
  cases given : attr.bind (getattr (lit "pt")) with
  | none =>
      rw [given] at made
      cases made
  | some t =>
      rw [given] at made
      cases made
      rfl

/-- What is not written is not sent. -/
theorem filterMap_wire_eq_nil (emits : ∀ o ∈ out, e.Emits o)
    (unwritten : ∀ buf attr, e ≠ .tryWrite buf attr) :
    out.filterMap (Output.wire pt) = [] := by
  apply List.filterMap_eq_nil_iff.mpr
  intro o member
  cases o with
  | rtp sock raddr hdr payload =>
      have emitted := emits _ member
      cases e with
      | tryWrite buf attr => exact absurd rfl (unwritten buf attr)
      | childAppend name attrs => exact emitted.elim
      | resendCandidates => exact emitted.elim
      | channelEvent ctl r => exact emitted.elim
  | _ => rfl

/-- A write on a stream that is ready is sent. -/
theorem carries_handle (checked : Checked ice past) (result : handle p ice e = .ok (ice', out))
    (ready : e.writes pt ≠ [] → rtpSucceeded ice = true) :
    List.Forall₂ Carries (e.writes pt) (out.filterMap (Output.wire pt)) := by
  have emits := handle_emits checked result
  cases e with
  | childAppend name attrs =>
      rw [filterMap_wire_eq_nil emits nofun]
      exact .nil
  | resendCandidates =>
      rw [filterMap_wire_eq_nil emits nofun]
      exact .nil
  | channelEvent ctl r =>
      rw [filterMap_wire_eq_nil emits nofun]
      exact .nil
  | tryWrite buf attr =>
      have written : tryWrite ice buf attr = .ok (ice', out) := result
      rw [tryWrite_eq checked] at written
      simp only [Event.writes] at ready ⊢
      split at written
      · next remembered =>
          -- nothing was remembered, so the stream is not ready
          cases written
          split
          · next typed =>
              have flag := ready (by rw [if_pos typed]; exact List.cons_ne_nil _ _)
              rcases checked.flag flag with ⟨i, pair, last, here, -⟩
              rw [last, Option.bind_some, here] at remembered
              cases remembered
          · exact .nil
      · split at written
        · cases written
        · rcases bind_eq_ok_iff.mp written with ⟨rtp, made, sent⟩
          cases sent
          rw [rtpHeader_pt made]
          simp only [List.filterMap_cons, Output.wire, List.filterMap_nil, Option.some.injEq]
          split
          · exact .cons ⟨_, _, made, rfl⟩ .nil
          · exact .nil

/-- **Sending.**  In a run whose writes of a type meet a ready stream, a packet is sent for each
of them, in their order. -/
theorem carries_run
    (ready : Along (observe p) (fun o e => e.writes pt ≠ [] → rtpSucceeded o.ice = true)
      (Observed.fresh attrs sockv4 sockv4Ctl) events)
    (reached : run (observe p) (Observed.fresh attrs sockv4 sockv4Ctl) events = .ok o) :
    List.Forall₂ Carries (events.flatMap (Event.writes pt)) (transmitted pt o.past) := by
  have once : ∀ o e o', Checked o.ice o.past →
      (e.writes pt ≠ [] → rtpSucceeded o.ice = true) → observe p o e = .ok o' →
      Checked o'.ice o'.past ∧ ∃ items, transmitted pt o'.past = transmitted pt o.past ++ items ∧
        List.Forall₂ Carries (e.writes pt) items := by
    intro o e o' checked flag result
    refine ⟨checked_observe checked result, ?_⟩
    rcases map_eq_ok_iff.mp result with ⟨⟨ice', out⟩, handled, rfl⟩
    exact ⟨_, transmitted_concat, carries_handle checked handled flag⟩
  rcases ready.log (fun o => Checked o.ice o.past) (fun o => transmitted pt o.past) once
    (checked_created attrs sockv4 sockv4Ctl) reached with ⟨items, all, matched⟩
  rw [all]
  exact matched

/-! ## Receiving -/

instance (r : Received) : Decidable r.IsOther :=
  inferInstanceAs (Decidable (_ ∧ _ ∧ _))

/-- The packets of a type among what is received. -/
def Event.arrivals (pt : Nat) : Event → List Received
  | .channelEvent _ r => if r.IsOther ∧ r.payloadType = pt then [r] else []
  | _ => []

/-- What an object is written. -/
def Output.written (owner : Nat) : Output → Option (List Byte)
  | .media o data plen => if o = owner then some (data.take plen.toNat) else none
  | _ => none

/-- All that an object was written. -/
def handed (owner : Nat) (past : List (Event × List Output)) : List (List Byte) :=
  past.flatMap fun entry => entry.2.filterMap (Output.written owner)

theorem handed_concat : handed owner (past ++ [(e, out)]) =
    handed owner past ++ out.filterMap (Output.written owner) := by
  rw [handed, List.flatMap_append, List.flatMap_singleton]
  rfl

/-- The object that a lookup among the payloads finds for a type. -/
def Received.found (r : Received) (pt : Nat) : Option Nat :=
  (r.payloads.find? fun payload => eqnText payload.1 (decimal pt)).map Prod.snd

/-- The object is found for the type, and for no other type. -/
def Received.Offers (pt owner : Nat) (r : Received) : Prop :=
  ∀ n < 128, r.found n = some owner ↔ n = pt

/-- The cache has the object at most for the type, and no other object for it. -/
structure Tuned (pt owner : Nat) (ice : IoStream) : Prop where
  own : ∀ cached, ice.mediaOwnerCache pt = some cached → cached = owner
  alone : ∀ n, ice.mediaOwnerCache n = some owner → n = pt

theorem Tuned.congr (tuned : Tuned pt owner ice)
    (same : ice'.mediaOwnerCache = ice.mediaOwnerCache) : Tuned pt owner ice' := by
  constructor
  · rw [same]
    exact tuned.own
  · rw [same]
    exact tuned.alone

/-- The object gets the packets of its type. -/
theorem Tuned.owner_iff (tuned : Tuned pt owner ice) (offers : r.Offers pt owner) :
    r.owner ice = some owner ↔ r.payloadType = pt := by
  have owner_eq : r.owner ice = (ice.mediaOwnerCache r.payloadType).or (r.found r.payloadType) :=
    rfl
  rw [owner_eq]
  cases cached : ice.mediaOwnerCache r.payloadType with
  | none =>
      rw [Option.none_or]
      exact offers r.payloadType (Nat.mod_lt _ (by decide))
  | some other =>
      rw [Option.some_or, Option.some.injEq]
      constructor
      · rintro rfl
        exact tuned.alone _ cached
      · intro type
        rw [type] at cached
        exact tuned.own _ cached

/-- What was found for a type goes to the cache. -/
theorem Tuned.update {type cached : Nat} (tuned : Tuned pt owner ice)
    (found : cached = owner ↔ type = pt) : Tuned pt owner
      { ice with mediaOwnerCache := Function.update ice.mediaOwnerCache type (some cached) } := by
  constructor
  · intro other
    dsimp only
    rw [Function.update_apply]
    split
    · next same =>
        rintro ⟨⟩
        exact found.mpr same.symm
    · exact tuned.own other
  · intro n
    dsimp only
    rw [Function.update_apply]
    split
    · next same =>
        intro here
        rw [same]
        exact found.mp (Option.some.inj here)
    · exact tuned.alone n

/-- What is written for one event. -/
theorem handed_handle (checked : Checked ice past) (tuned : Tuned pt owner ice)
    (offers : ∀ ctl r, e = .channelEvent ctl r → r.Offers pt owner)
    (result : handle p ice e = .ok (ice', out)) :
    Tuned pt owner ice' ∧ out.filterMap (Output.written owner) =
      (e.arrivals pt).map fun r => r.packet.drop 12 := by
  have emits := handle_emits checked result
  have silent : (∀ data plen, .media owner data plen ∉ out) →
      out.filterMap (Output.written owner) = [] := by
    intro none
    apply List.filterMap_eq_nil_iff.mpr
    intro o member
    cases o with
    | media other data plen =>
        rw [Output.written, if_neg]
        rintro rfl
        exact none data plen member
    | _ => rfl
  cases e with
  | childAppend name attrs =>
      exact ⟨tuned.congr (congrArg Prod.snd (outline_appendChild result)),
        silent fun data plen member => emits _ member⟩
  | resendCandidates =>
      refine ⟨?_, silent fun data plen member => emits _ member⟩
      rcases bind_eq_ok_iff.mp result with ⟨⟨sent, draws⟩, -, same⟩
      cases same
      exact tuned.congr rfl
  | tryWrite buf attr =>
      refine ⟨?_, silent fun data plen member => emits _ member⟩
      have written : tryWrite ice buf attr = .ok (ice', out) := result
      rw [tryWrite_eq checked] at written
      split at written
      · cases written
        exact tuned
      · split at written
        · cases written
        · rcases bind_eq_ok_iff.mp written with ⟨rtp, -, sent⟩
          cases sent
          exact tuned
  | channelEvent ctl r =>
      have handled : onPacketIn p ice 0 r = .ok (ice', out) :=
        (onChannelEvent_eq ctl).symm.trans result
      simp only [Event.arrivals]
      by_cases other : r.IsOther
      · rw [onPacketIn_of_other_eq other] at handled
        have found := tuned.owner_iff (offers ctl r rfl)
        split at handled
        · cases owned : r.owner ice with
          | none =>
              rw [owned] at handled found
              cases handled
              have elsewhere : r.payloadType ≠ pt := fun type => nomatch found.mpr type
              rw [if_neg (fun both => elsewhere both.2)]
              exact ⟨tuned, rfl⟩
          | some cached =>
              rw [owned, Option.some.injEq] at found
              rw [owned] at handled
              cases handled
              have count : ((r.len : Int) - 12).toNat = r.len - 12 := by omega
              refine ⟨tuned.update found, ?_⟩
              simp only [List.filterMap_cons, Output.written, List.filterMap_nil, count,
                Received.take_drop_packet, found, other, true_and]
              by_cases type : r.payloadType = pt
              · rw [if_pos type, if_pos type]
                rfl
              · rw [if_neg type, if_neg type]
                rfl
        · cases handled
      · rw [if_neg (fun both => other both.1)]
        rw [onPacketIn_eq] at handled
        split at handled
        · rcases bind_eq_ok_iff.mp handled with ⟨resp, -, sent⟩
          cases resp with
          | none => cases sent
          | some resp =>
              cases sent
              exact ⟨tuned, rfl⟩
        · next unasked =>
            split at handled
            · refine ⟨tuned.congr (congrArg Prod.snd (outline_onResponse handled)),
                silent fun data plen member => ?_⟩
              rcases announces_onResponse handled _ member with ⟨attrs, same⟩
              cases same
            · next unanswered =>
                split at handled
                · next begun => exact absurd ⟨unasked, unanswered, begun⟩ other
                · cases handled
                  exact ⟨tuned, rfl⟩

/-- **Receiving.**  In a run in which the object is offered for a type, it is written what stands
behind the headers of the packets of that type, in their order, and nothing else. -/
theorem handed_run
    (offers : ∀ ctl r, .channelEvent ctl r ∈ events → r.Offers pt owner)
    (reached : run (observe p) (Observed.fresh attrs sockv4 sockv4Ctl) events = .ok o) :
    handed owner o.past =
      (events.flatMap (Event.arrivals pt)).map fun r => r.packet.drop 12 := by
  have once : ∀ o e o', Checked o.ice o.past ∧ Tuned pt owner o.ice →
      (∀ ctl r, e = .channelEvent ctl r → r.Offers pt owner) → observe p o e = .ok o' →
      (Checked o'.ice o'.past ∧ Tuned pt owner o'.ice) ∧
        ∃ items, handed owner o'.past = handed owner o.past ++ items ∧
          List.Forall₂ (fun r data => r.packet.drop 12 = data) (e.arrivals pt) items := by
    rintro o e o' ⟨checked, tuned⟩ offered result
    have checked' := checked_observe checked result
    rcases map_eq_ok_iff.mp result with ⟨⟨ice', out⟩, handled, rfl⟩
    rcases handed_handle checked tuned offered handled with ⟨tuned', written⟩
    refine ⟨⟨checked', tuned'⟩, _, handed_concat, ?_⟩
    rw [written, List.forall₂_map_right_iff, List.forall₂_same]
    exact fun _ _ => rfl
  have along : Along (observe p)
      (fun _ e => ∀ ctl r, e = .channelEvent ctl r → r.Offers pt owner)
      (Observed.fresh attrs sockv4 sockv4Ctl) events := by
    apply along_iff.mpr
    rintro before e behind rfl - - ctl r rfl
    exact offers ctl r (List.mem_append_right _ List.mem_cons_self)
  have tuned : Tuned pt owner (created attrs sockv4 sockv4Ctl) := ⟨nofun, nofun⟩
  rcases along.log (fun o => Checked o.ice o.past ∧ Tuned pt owner o.ice)
    (fun o => handed owner o.past) once
    ⟨checked_created attrs sockv4 sockv4Ctl, tuned⟩ reached with ⟨items, all, matched⟩
  have same := List.forall₂_map_left_iff.mpr matched
  rw [List.forall₂_eq_eq_eq] at same
  rw [all, same]
  rfl

/-! ## From one side to the other -/

theorem RtpHdr.length_bytes (hdr : RtpHdr) : hdr.bytes.length = 12 := by
  rcases hdr with ⟨pt, seq, tStamp, ssrcId⟩
  cases seq <;> cases tStamp <;> cases ssrcId <;> rfl

/-- A packet that is read whole has the payload behind its header. -/
theorem Content.Fills.drop_packet (fills : (Content.rtp hdr payload).Fills r)
    (short : payload.length + 12 ≤ 0x800) : r.packet.drop 12 = payload := by
  have bytes : (Content.rtp hdr payload).bytes = hdr.bytes ++ payload.map some := rfl
  have len : r.len = 12 + payload.length := by
    rw [fills.len, bytes, List.length_append, hdr.length_bytes, List.length_map]
    omega
  apply List.ext_getElem?
  intro i
  rw [List.getElem?_drop, Received.packet, List.getElem?_take]
  split
  · next inside =>
      have here : i < payload.length := by omega
      have sent : (Content.rtp hdr payload).bytes[12 + i]? = some (some payload[i]) := by
        rw [bytes, List.getElem?_append_right (by rw [hdr.length_bytes]; omega), hdr.length_bytes,
          Nat.add_sub_cancel_left, List.getElem?_map, List.getElem?_eq_getElem here,
            Option.map_some]
      rw [fills.bytes (12 + i) (by omega) _ sent, List.getElem?_eq_getElem here]
  · next outside =>
      rw [List.getElem?_eq_none (by omega)]

/-- What two streams have gone through that a network connects: the writes of a type met a ready
stream and are short, each packet of the type that the other side reads is one that was sent, the
one with the number that `order` has for it, and an object is offered for the type there. -/
structure Connected (pt owner : Nat) (p : Platform) (attrs : AttrList) (sockv4 sockv4Ctl : Nat)
    (events : List Event) (sender : Observed) (order : List Nat) (arriving : List Event) :
    Prop where
  ready : Along (observe p) (fun o e => e.writes pt ≠ [] → rtpSucceeded o.ice = true)
    (Observed.fresh attrs sockv4 sockv4Ctl) events
  sent : run (observe p) (Observed.fresh attrs sockv4 sockv4Ctl) events = .ok sender
  short : ∀ write ∈ events.flatMap (Event.writes pt), write.1.length + 12 ≤ 0x800
  network : List.Forall₂ (fun i r => ∃ content, (transmitted pt sender.past)[i]? = some content ∧
    content.Fills r) order (arriving.flatMap (Event.arrivals pt))
  offers : ∀ ctl r, .channelEvent ctl r ∈ arriving → r.Offers pt owner

/-- A packet that is read has the buffer that it was sent for. -/
theorem Connected.drop_packet {sender : Observed} {order : List Nat} {arriving : List Event}
    {i : Nat} {content : Content}
    (connected : Connected pt owner p attrs sockv4 sockv4Ctl events sender order arriving)
    (sent : (transmitted pt sender.past)[i]? = some content) (fills : content.Fills r) :
    ((events.flatMap (Event.writes pt)).map Prod.fst)[i]? = some (r.packet.drop 12) := by
  rcases List.forall₂_iff_get.mp (carries_run connected.ready connected.sent) with ⟨same, carries⟩
  rcases List.getElem?_eq_some_iff.mp sent with ⟨inside, rfl⟩
  have inside' := same.symm ▸ inside
  rcases carries i inside' inside with ⟨ssrc, hdr, -, carried⟩
  have filled : (Content.rtp hdr ((events.flatMap (Event.writes pt)).get ⟨i, inside'⟩).1).Fills r :=
    carried ▸ fills
  rw [filled.drop_packet (connected.short _ (List.get_mem ..)), List.getElem?_map,
    List.getElem?_eq_getElem inside']
  rfl

/-- **Media.**  Whatever the network loses, repeats and reorders, the object of a type is written
for each packet of the type exactly the buffer that the packet was sent for, and nothing else. -/
theorem media_arrives {q : Platform} {attrs' : AttrList} {sockv4' sockv4Ctl' : Nat}
    {sender receiver : Observed} {order : List Nat} {arriving : List Event}
    (connected : Connected pt owner p attrs sockv4 sockv4Ctl events sender order arriving)
    (received : run (observe q) (Observed.fresh attrs' sockv4' sockv4Ctl') arriving =
      .ok receiver) :
    (handed owner receiver.past).map some =
      order.map fun i => ((events.flatMap (Event.writes pt)).map Prod.fst)[i]? := by
  rw [handed_run connected.offers received, List.map_map]
  have network := connected.network.imp fun i r ⟨content, sent, fills⟩ =>
    connected.drop_packet sent fills
  clear connected received
  generalize arriving.flatMap (Event.arrivals pt) = arrived at network ⊢
  induction network with
  | nil => rfl
  | cons taken _ ih => rw [List.map_cons, List.map_cons, ih, taken, Function.comp_apply]

/-- A write of a type. -/
def typed (pt : String) (buf : List Byte) : Event :=
  .tryWrite buf (some [(lit "pt", lit pt), (lit "seqno", lit "1"), (lit "timestamp", lit "2")])

/-- A stream that becomes ready, and then writes media of two types. -/
def writing : List Event :=
  exchange "5000" ++ [.channelEvent false (response 5000), typed "96" [1, 2, 3],
    typed "97" [9], .resendCandidates, typed "96" [4]]

/-- The packet of a write of type 96. -/
def carrying (buf : List Byte) : List Byte :=
  rtpBytes 96 1 2 1000 buf

/-- The second packet arrives before the first one, which arrives twice. -/
def mixed : List Event :=
  [.channelEvent false (listening.read (carrying [4])), .resendCandidates,
    .channelEvent false (listening.read (carrying [1, 2, 3])),
    .channelEvent true (listening.read (carrying [1, 2, 3]))]

theorem media_arrives_mixed : ∃ sender receiver,
    Connected 96 1 host credentials 5 6 writing sender [1, 0, 0] mixed ∧
      run (observe host) (Observed.fresh [] 7 8) mixed = .ok receiver ∧
      handed 1 receiver.past = [[4], [1, 2, 3], [1, 2, 3]] := by
  have sends : ∃ o, run (observe host) (Observed.fresh credentials 5 6) writing = .ok o ∧
      transmitted 96 o.past = [.rtp ⟨96, some 1, some 2, some 1000⟩ [1, 2, 3],
        .rtp ⟨96, some 1, some 2, some 1000⟩ [4]] := by
    rw [← lands_false_iff]
    decide +kernel
  have reads : ∃ o, run (observe host) (Observed.fresh [] 7 8) mixed = .ok o ∧ True := by
    rw [← lands_false_iff]
    decide +kernel
  rcases sends with ⟨sender, sent, contents⟩
  rcases reads with ⟨receiver, received, -⟩
  have fills : ∀ buf, (carrying buf).length ≤ 0x800 → (Content.rtp ⟨96, some 1, some 2, some 1000⟩
      buf).Fills (listening.read (carrying buf)) := by
    intro buf fits
    refine Content.fills_append datagram_filled (listening.read_bytes fits) ?_ fits
    exact Nat.min_eq_left fits
  have connected : Connected 96 1 host credentials 5 6 writing sender [1, 0, 0] mixed := by
    constructor
    case ready => decide +kernel
    case sent => exact sent
    case short => decide
    case network =>
      rw [contents]
      exact .cons ⟨_, rfl, fills [4] (by decide)⟩ (.cons ⟨_, rfl, fills [1, 2, 3] (by decide)⟩
        (.cons ⟨_, rfl, fills [1, 2, 3] (by decide)⟩ .nil))
    case offers =>
      intro ctl r member
      have offered : ∀ r : Received, r.payloads = listening.payloads → r.Offers 96 1 := by
        intro r same
        unfold Received.Offers Received.found
        rw [same]
        decide
      apply offered
      simp only [mixed, List.mem_cons, Event.channelEvent.injEq, reduceCtorEq, List.not_mem_nil,
        or_false, false_or] at member
      rcases member with ⟨-, rfl⟩ | ⟨-, rfl⟩ | ⟨-, rfl⟩ <;> rfl
  refine ⟨sender, receiver, connected, received, ?_⟩
  have arrives := media_arrives connected received
  exact List.map_injective_iff.mpr (Option.some_injective _) arrives

end Xwbot.Ice
