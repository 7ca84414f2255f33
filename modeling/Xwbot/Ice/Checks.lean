import Xwbot.Ice.Datagrams

/-!
# Connectivity checks of one stream

The events of a stream (children are appended, the timer runs, datagrams
arrive, media is written) in any order, with all that the stream sent.  In
every run that stays inside the arrays the pairs go from waiting over a
request to a response of the same address, and media waits for the first
response.
-/

namespace Xwbot.Ice

open Runs

/-! ## Runs -/

/-- What happens to a stream. -/
inductive Event where
  /-- A child with a name and attributes is appended. -/
  | childAppend (name : Text) (attrs : AttrList)
  /-- The timer runs. -/
  | resendCandidates
  /-- A datagram is read from the control socket, or from that of the media. -/
  | channelEvent (ctl : Bool) (r : Received)
  /-- Media is written. -/
  | tryWrite (buf : List Byte) (attr : Option AttrList)

/-- A stream, and all that happened to it with what it sent each time. -/
structure Observed where
  ice : IoStream
  past : List (Event × List Output)

namespace IoStream

/-- The function that an event calls. -/
def handle (p : Platform) (ice : IoStream) : Event → Except Fault (IoStream × List Output)
  | .childAppend name attrs => appendChild p ice name attrs
  | .resendCandidates => resendCandidates p ice
  | .channelEvent ctl r => onChannelEvent p ice ctl r
  | .tryWrite buf attr => tryWrite ice buf attr

end IoStream

open IoStream

/-- One event, written down behind the earlier ones. -/
def observe (p : Platform) (o : Observed) (e : Event) : Except Fault Observed :=
  (handle p o.ice e).map fun result => ⟨result.1, o.past ++ [(e, result.2)]⟩

/-- A stream to which nothing happened yet. -/
def Observed.fresh (attrs : AttrList) (sockv4 sockv4Ctl : Nat) : Observed :=
  ⟨created attrs sockv4 sockv4Ctl, []⟩

/-- A request with a transaction number was sent for the pair at a place. -/
def Requested (past : List (Event × List Output)) (i : Nat) (raddr : SockAddr)
    (transId : List Byte) : Prop :=
  ∃ entry ∈ past, ∃ sock msg, .request i sock raddr msg ∈ entry.2 ∧ msg.transId = transId

/-- A STUN response with the magic cookie. -/
def Received.IsResponse (r : Received) : Prop :=
  be16 r.buf.bytes 0 = stunResp ∧ hasCookie r.buf = true

/-- The transaction number in the header of a datagram. -/
def Received.transId (r : Received) : List Byte :=
  slice r.buf.bytes 8 12

/-- A response from the address of a pair that a request had been sent for. -/
def Answered (past : List (Event × List Output)) (i : Nat) (raddr : SockAddr) : Prop :=
  ∃ before ctl r out after, past = before ++ (.channelEvent ctl r, out) :: after ∧
    r.IsResponse ∧ r.peer = raddr ∧ ∃ transId, Requested before i raddr transId

variable {p : Platform} {ice ice' middle : IoStream} {e : Event} {out sent : List Output}
  {past later : List (Event × List Output)} {i : Nat} {raddr : SockAddr} {transId : List Byte}
  {pair pair' : CandidatePair} {r : Received} {o : Observed} {name : Text} {attrs : AttrList}

theorem Requested.append (requested : Requested past i raddr transId) :
    Requested (past ++ later) i raddr transId := by
  rcases requested with ⟨entry, member, rest⟩
  exact ⟨entry, List.mem_append_left _ member, rest⟩

theorem Answered.append (answered : Answered past i raddr) :
    Answered (past ++ later) i raddr := by
  rcases answered with ⟨before, ctl, r, out, after, rfl, rest⟩
  refine ⟨before, ctl, r, out, after ++ later, ?_, rest⟩
  rw [List.append_assoc, List.cons_append]

/-! ## The flag -/

theorem rtpSucceeded_or (cr extra : UInt32) :
    ((cr ||| extra) &&& iceFlagRtpSucceeded ≠ 0) ↔
      cr &&& iceFlagRtpSucceeded ≠ 0 ∨ extra &&& iceFlagRtpSucceeded ≠ 0 := by
  have split : (cr ||| extra) &&& iceFlagRtpSucceeded =
      (cr &&& iceFlagRtpSucceeded) ||| (extra &&& iceFlagRtpSucceeded) := by
    apply UInt32.toBitVec_inj.mp
    simp only [UInt32.toBitVec_and, UInt32.toBitVec_or]
    exact BitVec.and_or_distrib_right
  rw [split, ne_eq, UInt32.or_eq_zero_iff, not_and_or]

/-! ## What the events do to the pairs -/

/-- The arrows between the states of a pair. -/
inductive CheckState.Advances : CheckState → CheckState → Prop where
  | same (state : CheckState) : Advances state state
  | request : Advances .waiting .inProgress
  | response : Advances .inProgress .succeeded

namespace IoStream

/-- Pairs are added, waiting, and the rest stays. -/
structure Extends (ice ice' : IoStream) : Prop where
  lastSuccess : ice'.cPairLastSuccess = ice.cPairLastSuccess
  flag : rtpSucceeded ice' = rtpSucceeded ice
  pairs : ∃ added, ice'.cPairs.items = ice.cPairs.items ++ added ∧
    ∀ pair ∈ added, pair.state = .waiting

theorem Extends.refl (ice : IoStream) : Extends ice ice :=
  ⟨rfl, rfl, [], (List.append_nil _).symm, by simp⟩

theorem rtpSucceeded_linkChild : rtpSucceeded (ice.linkChild name attrs) = rtpSucceeded ice := by
  have same := rtpSucceeded_or ice.cr xobjCrDirty
  rw [show (xobjCrDirty &&& iceFlagRtpSucceeded ≠ 0) = False by decide, or_false] at same
  unfold rtpSucceeded linkChild
  exact decide_eq_decide.mpr same

theorem extends_appendChild (result : appendChild p ice name attrs = .ok (ice', out)) :
    Extends ice ice' := by
  have linked := @rtpSucceeded_linkChild ice name attrs
  unfold appendChild onChildAppend at result
  split at result
  · rcases onLocalCandidate_eq_ok_iff.mp result with
      ⟨-, rfl, -⟩ | ⟨addr, -, middle, inserted, rfl, -⟩
    · exact ⟨rfl, linked, [], (List.append_nil _).symm, by simp⟩
    · rcases insertLocalCandidate_eq_ok_iff.mp inserted with
        ⟨-, rfl⟩ | ⟨-, locals, cPairs, -, paired, rfl⟩
      · exact ⟨rfl, linked, [], (List.append_nil _).symm, by simp⟩
      · refine ⟨rfl, linked, _, paired, fun pair member => ?_⟩
        rcases List.mem_mapIdx.mp member with ⟨i, inside, rfl⟩
        rfl
  · split at result
    · rcases (onRemoteCandidate_eq_ok_iff.mp result).2 with
        ⟨-, rfl⟩ | ⟨addr, -, username, password, inserted, -⟩
      · exact ⟨rfl, linked, [], (List.append_nil _).symm, by simp⟩
      · rcases insertRemoteCandidate_eq_ok_iff.mp inserted with
          ⟨-, rfl⟩ | ⟨-, remotes, cPairs, -, paired, rfl⟩
        · exact ⟨rfl, linked, [], (List.append_nil _).symm, by simp⟩
        · refine ⟨rfl, linked, _, paired, fun pair member => ?_⟩
          rw [List.mem_singleton.mp member]
          rfl
    · cases result
      exact ⟨rfl, linked, [], (List.append_nil _).symm, by simp⟩

theorem extends_addMapped {mapped : Option SockAddr}
    (result : addMapped p ice mapped = .ok (ice', out)) : Extends ice ice' := by
  unfold addMapped at result
  split at result
  · cases result
    exact .refl ice
  · split at result
    · cases result
      exact .refl ice
    · exact extends_appendChild result

theorem extends_routeRtpPacketIn (result : routeRtpPacketIn ice r = .ok (ice', out)) :
    Extends ice ice' := by
  unfold routeRtpPacketIn at result
  dsimp only at result
  split at result
  · split at result
    · cases result
      exact .refl ice
    · split at result
      · cases result
        exact .refl ice
      · cases result
        exact ⟨rfl, rfl, [], (List.append_nil _).symm, by simp⟩
  · cases result

/-- A datagram adds pairs at most, after a response has succeeded its pair. -/
theorem extends_onChannelEvent {ctl : Bool}
    (result : onChannelEvent p ice ctl r = .ok (ice', out)) :
    r.IsResponse ∧ Extends (succeedPair ice r.peer) ice' ∨
      ¬r.IsResponse ∧ Extends ice ice' := by
  rcases onChannelEvent_cases result with ⟨response, handled⟩ | ⟨other, same | ⟨sent, passed⟩⟩
  · rcases bind_eq_ok_iff.mp handled with ⟨pkt, -, later⟩
    rcases bind_eq_ok_iff.mp later with ⟨mapped, -, added⟩
    have grown := extends_addMapped added
    split at grown
    · rename_i cookie
      exact .inl ⟨⟨response, cookie⟩, grown⟩
    · rename_i classic
      exact .inr ⟨fun modern => classic modern.2, grown⟩
  · rw [same]
    exact .inr ⟨fun response => other response.1, .refl ice⟩
  · exact .inr ⟨fun response => other response.1, extends_routeRtpPacketIn passed⟩

theorem resendPair_eq_ok {draws draws' : Nat}
    (result : resendPair p ice i draws pair = .ok (sent, draws')) (waits : pending pair = true) :
    ∃ sock msg, sent = [.request i sock pair.remote.addr msg] := by
  unfold resendPair at result
  rw [if_pos waits] at result
  rcases bind_eq_ok_iff.mp result with ⟨stunmsg, -, result⟩
  cases stunmsg with
  | none => cases result
  | some stunmsg =>
      cases result
      exact ⟨_, stunmsg, rfl⟩

/-- Every pair that is not done gets a request. -/
theorem resendPairs_requests {pairs : List CandidatePair} {draws draws' : Nat}
    (result : resendPairs p ice i draws pairs = .ok (sent, draws')) :
    ∀ (j : Nat) (pair : CandidatePair), pairs[j]? = some pair → pending pair = true →
      ∃ sock msg, .request (i + j) sock pair.remote.addr msg ∈ sent := by
  induction pairs generalizing i draws sent with
  | nil =>
      intro j pair here
      rw [List.getElem?_nil] at here
      cases here
  | cons first rest ih =>
      rw [resendPairs] at result
      rcases bind_eq_ok_iff.mp result with ⟨⟨sent', draws''⟩, here, result⟩
      rcases bind_eq_ok_iff.mp result with ⟨⟨more, draws'''⟩, later, result⟩
      cases result
      intro j pair found waits
      cases j with
      | zero =>
          cases found
          rcases resendPair_eq_ok here waits with ⟨sock, msg, rfl⟩
          exact ⟨sock, msg, List.mem_append_left _ List.mem_cons_self⟩
      | succ j =>
          rcases ih later j pair found waits with ⟨sock, msg, member⟩
          rw [Nat.add_right_comm, Nat.add_assoc] at member
          exact ⟨sock, msg, List.mem_append_right _ member⟩

theorem resendPairs_succeeds_iff {pairs : List CandidatePair} {draws : Nat} :
    Succeeds (resendPairs p ice i draws pairs) ↔ ∀ pair ∈ pairs, pending pair = true →
      Requestable (getenv p ice (lit "ufrag")) pair.remote.username pair.remote.password := by
  induction pairs generalizing i draws with
  | nil => simp [resendPairs]
  | cons first rest ih =>
      have one : Succeeds (resendPair p ice i draws first) ↔ (pending first = true →
          Requestable (getenv p ice (lit "ufrag")) first.remote.username
            first.remote.password) := by
        unfold resendPair
        split
        · rename_i waits
          simp only [waits, true_implies]
          rw [← @getStunFullRequest_isSome_iff p draws, succeeds_bind_iff]
          constructor
          · rintro ⟨stunmsg, built, later⟩
            cases stunmsg with
            | none => exact absurd later (not_succeeds_error _)
            | some stunmsg => exact ⟨stunmsg, built⟩
          · rintro ⟨stunmsg, built⟩
            exact ⟨some stunmsg, built, succeeds_ok _⟩
        · rename_i done
          simp [done]
      rw [resendPairs, succeeds_bind_iff, List.forall_mem_cons, ← one]
      constructor
      · rintro ⟨⟨sent, draws'⟩, here, later⟩
        rcases succeeds_bind_iff.mp later with ⟨more, result, -⟩
        exact ⟨⟨_, here⟩, ih.mp ⟨more, result⟩⟩
      · rintro ⟨⟨⟨sent, draws'⟩, here⟩, all⟩
        rcases (@ih (i + 1) draws').mpr all with ⟨⟨more, draws''⟩, result⟩
        exact ⟨_, here, succeeds_bind_iff.mpr ⟨_, result, succeeds_ok _⟩⟩

theorem of_awaiting : awaiting ice raddr = some i → ∃ pair,
    ice.cPairs.items[i]? = some pair ∧ pair.state = .inProgress ∧ pair.remote.addr = raddr := by
  intro found
  rcases List.findIdx?_eq_some_iff_getElem.mp found with ⟨inside, here, -⟩
  simp only [netaddrEquals, Bool.and_eq_true, decide_eq_true_eq] at here
  rcases here with ⟨state, port, addr⟩
  refine ⟨_, List.getElem?_eq_getElem inside, state, ?_⟩
  cases remote : ice.cPairs.items[i].remote.addr
  cases raddr
  rw [remote] at port addr
  cases port
  cases addr
  rfl

/-- The pair that waits for a response succeeds, and is remembered if it is the first one. -/
theorem succeedPair_of_awaiting (found : awaiting ice raddr = some i) :
    (succeedPair ice raddr).cPairs =
        ice.cPairs.modify i (fun pair => { pair with state := .succeeded }) ∧
      rtpSucceeded (succeedPair ice raddr) = true ∧
      (succeedPair ice raddr).cPairLastSuccess =
        if rtpSucceeded ice then ice.cPairLastSuccess else ice.cPairLastSuccess.or (some i) := by
  unfold succeedPair
  rw [found]
  dsimp only
  split
  · rename_i already
    have flag : rtpSucceeded ice = true := already
    rw [if_pos flag]
    exact ⟨rfl, already, rfl⟩
  · rename_i first
    have flag : ¬rtpSucceeded ice = true := first
    rw [if_neg flag]
    refine ⟨rfl, ?_, rfl⟩
    unfold rtpSucceeded
    exact decide_eq_true ((rtpSucceeded_or _ _).mpr (.inr (by decide)))

/-- All other pairs stay as they are. -/
theorem getElem?_succeedPair (found : awaiting ice raddr = some i) (j : Nat) :
    (succeedPair ice raddr).cPairs.items[j]? =
      if i = j then ice.cPairs.items[j]?.map (fun pair => { pair with state := .succeeded })
      else ice.cPairs.items[j]? := by
  rw [(succeedPair_of_awaiting found).1, Slots.modify, List.getElem?_modify]
  split
  · rfl
  · rw [id_map']

theorem succeedPair_of_not_awaiting (none : awaiting ice raddr = none) :
    succeedPair ice raddr = ice := by
  unfold succeedPair
  rw [none]

/-! ## The invariant -/

/-- What holds of a stream and of what happened to it. -/
structure Checked (ice : IoStream) (past : List (Event × List Output)) : Prop where
  states : ∀ pair ∈ ice.cPairs.items,
    pair.state = .waiting ∨ pair.state = .inProgress ∨ pair.state = .succeeded
  requested : ∀ i pair, ice.cPairs.items[i]? = some pair → pair.state = .inProgress →
    ∃ transId, Requested past i pair.remote.addr transId
  answered : ∀ i pair, ice.cPairs.items[i]? = some pair → pair.state = .succeeded →
    Answered past i pair.remote.addr
  flag : rtpSucceeded ice = true → ∃ i pair, ice.cPairLastSuccess = some i ∧
    ice.cPairs.items[i]? = some pair ∧ pair.state = .succeeded
  idle : rtpSucceeded ice = false → ice.cPairLastSuccess = none
  first : ∀ pair ∈ ice.cPairs.items, pair.state = .succeeded → rtpSucceeded ice = true

theorem checked_created (attrs : AttrList) (sockv4 sockv4Ctl : Nat) :
    Checked (created attrs sockv4 sockv4Ctl) [] where
  states := by simp [created, Slots.empty]
  requested := by simp [created, Slots.empty]
  answered := by simp [created, Slots.empty]
  flag := by
    intro flag
    have clear : rtpSucceeded (created attrs sockv4 sockv4Ctl) = false := by
      show decide ((1 : UInt32) &&& iceFlagRtpSucceeded ≠ 0) = false
      decide
    rw [clear] at flag
    cases flag
  idle := fun _ => rfl
  first := by simp [created, Slots.empty]

theorem Checked.append (checked : Checked ice past) : Checked ice (past ++ later) where
  states := checked.states
  requested := fun i pair here state =>
    (checked.requested i pair here state).imp fun _ requested => requested.append
  answered := fun i pair here state => (checked.answered i pair here state).append
  flag := checked.flag
  idle := checked.idle
  first := checked.first

/-- Additional pairs are waiting, so nothing is claimed of them. -/
theorem Checked.extend (checked : Checked ice past) (extended : Extends ice ice') :
    Checked ice' past := by
  rcases extended with ⟨lastSuccess, flag, added, pairs, fresh⟩
  have earlier : ∀ (i : Nat) (pair : CandidatePair), ice'.cPairs.items[i]? = some pair →
      pair.state ≠ .waiting → ice.cPairs.items[i]? = some pair := by
    intro i pair here busy
    rw [pairs] at here
    by_cases inside : i < ice.cPairs.items.length
    · rwa [List.getElem?_append_left inside] at here
    · rw [List.getElem?_append_right (Nat.not_lt.mp inside)] at here
      exact absurd (fresh pair (List.mem_of_getElem? here)) busy
  constructor
  · intro pair member
    rw [pairs] at member
    rcases List.mem_append.mp member with before | new
    · exact checked.states pair before
    · exact .inl (fresh pair new)
  · intro i pair here state
    exact checked.requested i pair (earlier i pair here (by rw [state]; decide)) state
  · intro i pair here state
    exact checked.answered i pair (earlier i pair here (by rw [state]; decide)) state
  · intro set
    rw [flag] at set
    rcases checked.flag set with ⟨i, pair, last, here, state⟩
    refine ⟨i, pair, lastSuccess.trans last, ?_, state⟩
    rw [pairs]
    exact (List.getElem?_append_left (List.getElem?_eq_some_iff.mp here).1).trans here
  · intro clear
    rw [flag] at clear
    rw [lastSuccess]
    exact checked.idle clear
  · intro pair member state
    rw [pairs] at member
    rcases List.mem_append.mp member with before | new
    · rw [flag]
      exact checked.first pair before state
    · rw [fresh pair new] at state
      cases state

/-- The sent requests are written down. -/
theorem Checked.resend (checked : Checked ice past)
    (result : IoStream.resendCandidates p ice = .ok (ice', sent)) :
    Checked ice' (past ++ [(.resendCandidates, sent)]) := by
  rcases bind_eq_ok_iff.mp result with ⟨⟨sent', draws⟩, requests, same⟩
  cases same
  have earlier : ∀ (i : Nat) (pair' : CandidatePair),
      (ice.cPairs.map IoStream.checked).items[i]? = some pair' →
        ∃ pair, ice.cPairs.items[i]? = some pair ∧ IoStream.checked pair = pair' := by
    intro i pair' here
    rw [Slots.map, List.getElem?_map] at here
    exact Option.map_eq_some_iff.mp here
  have done : ∀ pair ∈ ice.cPairs.items, pending pair = false → pair.state = .succeeded := by
    intro pair member waits
    rcases checked.states pair member with state | state | state
    · simp [pending, state] at waits
    · simp [pending, state] at waits
    · exact state
  constructor
  · intro pair' member
    rcases List.mem_map.mp member with ⟨pair, listed, rfl⟩
    unfold IoStream.checked
    split
    · exact .inr (.inl rfl)
    · exact checked.states pair listed
  · intro i pair' there state
    rcases earlier i pair' there with ⟨pair, here, rfl⟩
    have remote : (IoStream.checked pair).remote = pair.remote := by
      unfold IoStream.checked
      split <;> rfl
    rw [remote]
    cases waits : pending pair with
    | true =>
        rcases resendPairs_requests requests i pair here waits with ⟨sock, msg, member⟩
        rw [Nat.zero_add] at member
        exact ⟨msg.transId, _, List.mem_concat_self, sock, msg, member, rfl⟩
    | false =>
        have ended := done pair (List.mem_of_getElem? here) waits
        rw [IoStream.checked, waits, if_neg Bool.false_ne_true, ended] at state
        cases state
  · intro i pair' there state
    rcases earlier i pair' there with ⟨pair, here, rfl⟩
    unfold IoStream.checked at state ⊢
    split at state
    · cases state
    · rename_i waits
      rw [if_neg waits]
      exact (checked.answered i pair here state).append
  · intro flag
    rcases checked.flag flag with ⟨i, pair, last, here, state⟩
    refine ⟨i, pair, last, ?_, state⟩
    show (ice.cPairs.items.map IoStream.checked)[i]? = some pair
    rw [List.getElem?_map, here, Option.map_some, IoStream.checked]
    simp [pending, state]
  · exact checked.idle
  · intro pair' member state
    rcases List.mem_map.mp member with ⟨pair, listed, rfl⟩
    unfold IoStream.checked at state
    split at state
    · cases state
    · exact checked.first pair listed state

/-- The response is written down for the pair that waited for it. -/
theorem Checked.succeed (checked : Checked ice past) (response : r.IsResponse) (ctl : Bool)
    (out : List Output) :
    Checked (succeedPair ice r.peer) (past ++ [(.channelEvent ctl r, out)]) := by
  cases found : awaiting ice r.peer with
  | none =>
      rw [succeedPair_of_not_awaiting found]
      exact checked.append
  | some i =>
      rcases of_awaiting found with ⟨waits, here, state, addr⟩
      rcases succeedPair_of_awaiting found with ⟨pairs, flag, last⟩
      have items := getElem?_succeedPair found
      have answered : Answered (past ++ [(.channelEvent ctl r, out)]) i waits.remote.addr :=
        ⟨past, ctl, r, out, [], rfl, response, addr.symm, checked.requested i waits here state⟩
      have changed : (succeedPair ice r.peer).cPairs.items[i]? =
          some { waits with state := .succeeded } := by
        rw [items, if_pos rfl, here]
        rfl
      constructor
      · intro pair member
        rcases List.mem_iff_getElem?.mp member with ⟨j, there⟩
        by_cases same : i = j
        · subst same
          rw [changed] at there
          cases there
          exact .inr (.inr rfl)
        · rw [items, if_neg same] at there
          exact checked.states pair (List.mem_of_getElem? there)
      · intro j pair there busy
        by_cases same : i = j
        · subst same
          rw [changed] at there
          cases there
          cases busy
        · rw [items, if_neg same] at there
          exact (checked.requested j pair there busy).imp fun _ requested => requested.append
      · intro j pair there ended
        by_cases same : i = j
        · subst same
          rw [changed] at there
          cases there
          exact answered
        · rw [items, if_neg same] at there
          exact (checked.answered j pair there ended).append
      · intro _
        rw [last]
        cases before : rtpSucceeded ice with
        | true =>
            rcases checked.flag before with ⟨j, pair, first, there, ended⟩
            refine ⟨j, pair, first, ?_, ended⟩
            by_cases same : i = j
            · subst same
              rw [here] at there
              cases there
              rw [state] at ended
              cases ended
            · rw [items, if_neg same]
              exact there
        | false =>
            refine ⟨i, _, ?_, changed, rfl⟩
            rw [checked.idle before]
            rfl
      · intro clear
        rw [flag] at clear
        cases clear
      · exact fun _ _ _ => flag

/-- Before the first response nothing is written; later it goes to the pair that was first. -/
theorem tryWrite_eq {buf : List Byte} {attr : Option AttrList} (checked : Checked ice past) :
    IoStream.tryWrite ice buf attr =
      match ice.cPairLastSuccess.bind fun i => ice.cPairs.items[i]? with
      | none => .ok (ice, [])
      | some pair => match pair.localCand with
        | none => .error .segv
        | some localCand => rtpHeader attr localCand.streamId >>= fun rtp =>
            .ok (ice, [.rtp (socket ice (isControl attr)) pair.remote.addr rtp buf]) := by
  unfold IoStream.tryWrite
  cases flag : rtpSucceeded ice with
  | false =>
      rw [checked.idle flag]
      rfl
  | true =>
      rcases checked.flag flag with ⟨i, pair, last, here, -⟩
      have same : { ice with cPairLastSuccess := some i } = ice := by
        rw [← last]
      rw [if_pos rfl, last]
      dsimp only
      rw [Option.bind_some, here]
      dsimp only
      rw [same]
      rfl

/-! ## What an event may change -/

/-- Pairs keep their ends and only advance, new ones are waiting, and what the first response
set stays. -/
structure Moves (ice ice' : IoStream) : Prop where
  kept : ∀ (i : Nat) (pair : CandidatePair), ice.cPairs.items[i]? = some pair →
    ∃ pair' : CandidatePair, ice'.cPairs.items[i]? = some pair' ∧
      pair'.localCand = pair.localCand ∧ pair'.remote = pair.remote ∧
      pair.state.Advances pair'.state
  added : ∀ (i : Nat) (pair' : CandidatePair), ice'.cPairs.items[i]? = some pair' →
    ice.cPairs.items.length ≤ i → pair'.state = .waiting
  flag : rtpSucceeded ice = true →
    rtpSucceeded ice' = true ∧ ice'.cPairLastSuccess = ice.cPairLastSuccess

theorem Moves.extend (moves : Moves ice middle) (extended : Extends middle ice') :
    Moves ice ice' := by
  rcases extended with ⟨lastSuccess, flag, added, pairs, fresh⟩
  constructor
  · intro i pair here
    rcases moves.kept i pair here with ⟨pair', there, rest⟩
    refine ⟨pair', ?_, rest⟩
    rw [pairs]
    exact (List.getElem?_append_left (List.getElem?_eq_some_iff.mp there).1).trans there
  · intro i pair' here behind
    rw [pairs] at here
    by_cases inside : i < middle.cPairs.items.length
    · rw [List.getElem?_append_left inside] at here
      exact moves.added i pair' here behind
    · rw [List.getElem?_append_right (Nat.not_lt.mp inside)] at here
      exact fresh pair' (List.mem_of_getElem? here)
  · intro set
    rcases moves.flag set with ⟨set', last⟩
    exact ⟨flag.trans set', lastSuccess.trans last⟩

theorem Moves.refl (ice : IoStream) : Moves ice ice where
  kept := fun _ pair here => ⟨pair, here, rfl, rfl, .same _⟩
  added := fun _ _ here behind =>
    absurd (List.getElem?_eq_some_iff.mp here).1 (Nat.not_lt.mpr behind)
  flag := fun set => ⟨set, rfl⟩

theorem moves_resendCandidates (result : IoStream.resendCandidates p ice = .ok (ice', sent)) :
    Moves ice ice' := by
  rcases bind_eq_ok_iff.mp result with ⟨⟨sent', draws⟩, requests, same⟩
  cases same
  constructor
  · intro i pair here
    refine ⟨IoStream.checked pair, ?_, ?_⟩
    · show (ice.cPairs.items.map IoStream.checked)[i]? = some (IoStream.checked pair)
      rw [List.getElem?_map, here]
      rfl
    · unfold IoStream.checked pending
      split
      · rename_i waits
        refine ⟨rfl, rfl, ?_⟩
        rcases (Bool.or_eq_true _ _).mp waits with state | state
        · rw [of_decide_eq_true state]
          exact .request
        · rw [of_decide_eq_true state]
          exact .same _
      · exact ⟨rfl, rfl, .same _⟩
  · intro i pair' here behind
    have inside := (List.getElem?_eq_some_iff.mp here).1
    have length : (ice.cPairs.map IoStream.checked).items.length = ice.cPairs.items.length :=
      List.length_map _
    exact absurd inside (Nat.not_lt.mpr (length ▸ behind))
  · exact fun set => ⟨set, rfl⟩

theorem moves_succeedPair (ice : IoStream) (raddr : SockAddr) :
    Moves ice (succeedPair ice raddr) := by
  cases found : awaiting ice raddr with
  | none =>
      rw [succeedPair_of_not_awaiting found]
      exact .refl ice
  | some i =>
      rcases of_awaiting found with ⟨waits, here, state, addr⟩
      rcases succeedPair_of_awaiting found with ⟨pairs, flag, last⟩
      constructor
      · intro j pair there
        rw [getElem?_succeedPair found, there]
        by_cases same : i = j
        · subst same
          rw [here] at there
          cases there
          rw [if_pos rfl]
          refine ⟨_, rfl, rfl, rfl, ?_⟩
          rw [state]
          exact .response
        · rw [if_neg same]
          exact ⟨pair, rfl, rfl, rfl, .same _⟩
      · intro j pair' there behind
        have inside := (List.getElem?_eq_some_iff.mp there).1
        rw [pairs, Slots.modify, List.length_modify] at inside
        exact absurd inside (Nat.not_lt.mpr behind)
      · intro set
        rw [last, if_pos set]
        exact ⟨flag, rfl⟩

/-- An event keeps the invariant and changes no more than it may. -/
theorem handle_moves (checked : Checked ice past) (result : handle p ice e = .ok (ice', out)) :
    Moves ice ice' ∧ Checked ice' (past ++ [(e, out)]) := by
  cases e with
  | childAppend name attrs =>
      have grown := extends_appendChild result
      exact ⟨(Moves.refl ice).extend grown, (checked.extend grown).append⟩
  | resendCandidates => exact ⟨moves_resendCandidates result, checked.resend result⟩
  | channelEvent ctl r =>
      rcases extends_onChannelEvent result with ⟨response, grown⟩ | ⟨-, grown⟩
      · exact ⟨(moves_succeedPair ice r.peer).extend grown,
          (checked.succeed response ctl out).extend grown⟩
      · exact ⟨(Moves.refl ice).extend grown, (checked.extend grown).append⟩
  | tryWrite buf attr =>
      have same : ice' = ice := by
        have written : tryWrite ice buf attr = .ok (ice', out) := result
        rw [tryWrite_eq checked] at written
        split at written
        · cases written
          rfl
        · split at written
          · cases written
          · rcases bind_eq_ok_iff.mp written with ⟨rtp, -, sent⟩
            cases sent
            rfl
      subst same
      exact ⟨.refl _, checked.append⟩

/-- The events that the plugin gets through with.  A check needs credentials, media a pair with
a local end and a payload type. -/
def Handleable (p : Platform) (ice : IoStream) : Event → Prop
  | .childAppend name attrs => Insertable p ice name attrs
  | .resendCandidates => ∀ pair ∈ ice.cPairs.items, pending pair = true →
      Requestable (getenv p ice (lit "ufrag")) pair.remote.username pair.remote.password
  | .channelEvent _ r => Receivable p ice r
  | .tryWrite _ attr => ∀ pair, (ice.cPairLastSuccess.bind fun i => ice.cPairs.items[i]?) =
      some pair → pair.localCand.isSome ∧ (attr.bind (getattr (lit "pt"))).isSome

theorem handle_succeeds_iff (checked : Checked ice past) :
    Succeeds (handle p ice e) ↔ Handleable p ice e := by
  cases e with
  | childAppend name attrs => exact appendChild_succeeds_iff
  | resendCandidates =>
      have requests := @resendPairs_succeeds_iff p ice 0 ice.cPairs.items ice.draws
      unfold Handleable
      rw [← requests]
      constructor
      · rintro ⟨result, resent⟩
        rcases bind_eq_ok_iff.mp resent with ⟨sent, all, -⟩
        exact ⟨sent, all⟩
      · rintro ⟨sent, all⟩
        exact ⟨_, bind_eq_ok_iff.mpr ⟨sent, all, rfl⟩⟩
  | channelEvent ctl r =>
      have same : handle p ice (.channelEvent ctl r) = onPacketIn p ice 0 r :=
        onChannelEvent_eq ctl
      rw [same]
      exact onPacketIn_succeeds_iff
  | tryWrite buf attr =>
      have same : handle p ice (.tryWrite buf attr) = tryWrite ice buf attr := rfl
      rw [same, tryWrite_eq checked]
      unfold Handleable
      split
      · rename_i silent
        simp [silent]
      · rename_i pair here
        simp only [here, Option.some.injEq, forall_eq']
        cases pair.localCand with
        | none => simp
        | some localCand =>
            cases found : attr.bind (getattr (lit "pt")) with
            | none => simp [rtpHeader, found]
            | some pt => simp [rtpHeader, found]

end IoStream

/-! ## The state machine -/

/-- One event of a run: it is handled, no pair goes astray, a pair that succeeded had been
answered, the flag stands for a remembered pair that succeeded, both stay, and nothing is
written while the flag is clear. -/
structure Keeps (o : Observed) (e : Event) (ice' : IoStream) (out : List Output) : Prop where
  moves : Moves o.ice ice'
  answered : ∀ i pair, ice'.cPairs.items[i]? = some pair → pair.state = .succeeded →
    Answered (o.past ++ [(e, out)]) i pair.remote.addr
  flag : rtpSucceeded ice' = true → ∃ i pair, ice'.cPairLastSuccess = some i ∧
    ice'.cPairs.items[i]? = some pair ∧ pair.state = .succeeded
  silent : ∀ buf attr, e = .tryWrite buf attr → rtpSucceeded o.ice = false → out = []

theorem keeps_of_checked (checked : Checked o.ice o.past)
    (result : handle p o.ice e = .ok (ice', out)) : Keeps o e ice' out := by
  rcases handle_moves checked result with ⟨moves, checked'⟩
  refine ⟨moves, checked'.answered, checked'.flag, ?_⟩
  rintro buf attr rfl clear
  have written : tryWrite o.ice buf attr = .ok (ice', out) := result
  rw [tryWrite_eq checked, checked.idle clear] at written
  cases written
  rfl

/-- The invariant of a run. -/
theorem checked_observe {o' : Observed} (checked : Checked o.ice o.past)
    (result : observe p o e = .ok o') : Checked o'.ice o'.past := by
  rcases map_eq_ok_iff.mp result with ⟨⟨ice', out⟩, handled, rfl⟩
  exact (handle_moves checked handled).2

theorem succeeds_observe_iff (checked : Checked o.ice o.past) :
    Succeeds (observe p o e) ↔ Handleable p o.ice e := by
  rw [← handle_succeeds_iff checked]
  constructor
  · rintro ⟨o', result⟩
    rcases map_eq_ok_iff.mp result with ⟨result, handled, -⟩
    exact ⟨result, handled⟩
  · rintro ⟨result, handled⟩
    exact ⟨_, map_eq_ok_iff.mpr ⟨result, handled, rfl⟩⟩

theorem checked_run {sockv4 sockv4Ctl : Nat} {events : List Event}
    (result : run (observe p) (Observed.fresh attrs sockv4 sockv4Ctl) events = .ok o) :
    Checked o.ice o.past :=
  run_invariant (fun o => Checked o.ice o.past) (fun _ _ _ checked => checked_observe checked)
    (checked_created attrs sockv4 sockv4Ctl) result

/-- **Connectivity checks.**  In a run every event keeps the state machine exactly if the plugin
gets through with every event. -/
theorem along_keeps_iff {sockv4 sockv4Ctl : Nat} {events : List Event} :
    Along (observe p)
        (fun o e => ∃ ice' out, handle p o.ice e = .ok (ice', out) ∧ Keeps o e ice' out)
        (Observed.fresh attrs sockv4 sockv4Ctl) events ↔
      Along (observe p) (fun o e => Handleable p o.ice e)
        (Observed.fresh attrs sockv4 sockv4Ctl) events := by
  apply along_congr fun o => Checked o.ice o.past
  · intro o e o' checked _ result
    exact checked_observe checked result
  · intro o e checked
    rw [← handle_succeeds_iff checked]
    constructor
    · rintro ⟨ice', out, result, -⟩
      exact ⟨_, result⟩
    · rintro ⟨⟨ice', out⟩, result⟩
      exact ⟨ice', out, result, keeps_of_checked checked result⟩
  · exact checked_created attrs sockv4 sockv4Ctl

/-- The event that appends a child. -/
def appended (child : Text × AttrList) : Event :=
  .childAppend child.1 child.2

/-- Two local candidates around 256 remote ones: the pairs of the last candidate would go behind
the array. -/
theorem not_along_keeps_many :
    ¬Along (observe host)
      (fun o e => ∃ ice' out, handle host o.ice e = .ok (ice', out) ∧ Keeps o e ice' out)
      (Observed.fresh [] 5 6)
      (appended (candidateAt "local-candidate" "4000") ::
        (List.replicate 256 (appended (candidateAt "candidate" "5000")) ++
          [appended (candidateAt "local-candidate" "4001")])) := by
  intro along
  have succeeds : ∀ (o : Observed) (e : Event),
      (∃ ice' out, handle host o.ice e = .ok (ice', out) ∧ Keeps o e ice' out) →
        Succeeds (observe host o e) := by
    rintro o e ⟨ice', out, result, -⟩
    exact ⟨_, map_eq_ok_iff.mpr ⟨_, result, rfl⟩⟩
  have each := along.mono succeeds
  revert each
  decide +kernel

/-! ## Responses and requests -/

namespace IoStream

/-- A pair that succeeded had done so already, or awaited the response that arrived. -/
theorem succeeded_of_handle (checked : Checked ice past)
    (result : handle p ice e = .ok (ice', out)) (here : ice'.cPairs.items[i]? = some pair')
    (state : pair'.state = .succeeded) :
    (∃ pair, ice.cPairs.items[i]? = some pair ∧ pair.state = .succeeded) ∨
      ∃ ctl r, e = .channelEvent ctl r ∧ r.IsResponse ∧ awaiting ice r.peer = some i ∧
        pair'.remote.addr = r.peer := by
  have of_extends : ∀ middle, Extends middle ice' → middle.cPairs.items[i]? = some pair' := by
    rintro middle ⟨-, -, added, pairs, fresh⟩
    rw [pairs] at here
    by_cases inside : i < middle.cPairs.items.length
    · rwa [List.getElem?_append_left inside] at here
    · rw [List.getElem?_append_right (Nat.not_lt.mp inside)] at here
      rw [fresh pair' (List.mem_of_getElem? here)] at state
      cases state
  cases e with
  | childAppend name attrs =>
      exact .inl ⟨pair', of_extends ice (extends_appendChild result), state⟩
  | resendCandidates =>
      rcases bind_eq_ok_iff.mp result with ⟨⟨sent, draws⟩, -, same⟩
      cases same
      have there : (ice.cPairs.items.map IoStream.checked)[i]? = some pair' := here
      rw [List.getElem?_map] at there
      rcases Option.map_eq_some_iff.mp there with ⟨pair, before, rfl⟩
      refine .inl ⟨pair, before, ?_⟩
      unfold IoStream.checked at state
      split at state
      · cases state
      · exact state
  | channelEvent ctl r =>
      rcases extends_onChannelEvent result with ⟨response, grown⟩ | ⟨-, grown⟩
      · have there := of_extends _ grown
        cases found : awaiting ice r.peer with
        | none =>
            rw [succeedPair_of_not_awaiting found] at there
            exact .inl ⟨pair', there, state⟩
        | some j =>
            rw [getElem?_succeedPair found] at there
            split at there
            · rename_i same
              subst same
              rcases Option.map_eq_some_iff.mp there with ⟨pair, before, rfl⟩
              rcases of_awaiting found with ⟨waits, before', -, addr⟩
              cases before.symm.trans before'
              exact .inr ⟨ctl, r, rfl, response, found, addr⟩
            · exact .inl ⟨pair', there, state⟩
      · exact .inl ⟨pair', of_extends ice grown, state⟩
  | tryWrite buf attr =>
      rcases (handle_moves checked result).1 with ⟨kept, -, -⟩
      have written : tryWrite ice buf attr = .ok (ice', out) := result
      rw [tryWrite_eq checked] at written
      split at written
      · cases written
        exact .inl ⟨pair', here, state⟩
      · split at written
        · cases written
        · rcases bind_eq_ok_iff.mp written with ⟨rtp, -, sent⟩
          cases sent
          exact .inl ⟨pair', here, state⟩

/-- The pair that awaited a response succeeds with it. -/
theorem succeeds_of_response {ctl : Bool} (response : r.IsResponse)
    (found : awaiting ice r.peer = some i)
    (result : handle p ice (.channelEvent ctl r) = .ok (ice', out)) :
    ∃ pair', ice'.cPairs.items[i]? = some pair' ∧ pair'.state = .succeeded ∧
      pair'.remote.addr = r.peer := by
  rcases of_awaiting found with ⟨waits, before, -, addr⟩
  rcases extends_onChannelEvent result with ⟨-, grown⟩ | ⟨other, -⟩
  · rcases grown.pairs with ⟨added, pairs, -⟩
    have there : (succeedPair ice r.peer).cPairs.items[i]? =
        some { waits with state := .succeeded } := by
      rw [getElem?_succeedPair found, if_pos rfl, before]
      rfl
    refine ⟨{ waits with state := .succeeded }, ?_, rfl, addr⟩
    rw [pairs]
    exact (List.getElem?_append_left (List.getElem?_eq_some_iff.mp there).1).trans there
  · exact absurd response other

end IoStream

/-- Each pair that has succeeded behind an event had done so before it, or the event brought a
response to a request for the pair. -/
def Binds (o : Observed) (e : Event) (ice' : IoStream) : Prop :=
  ∀ (i : Nat) (pair' : CandidatePair), ice'.cPairs.items[i]? = some pair' →
    pair'.state = .succeeded →
    (∃ pair, o.ice.cPairs.items[i]? = some pair ∧ pair.state = .succeeded) ∨
      ∃ ctl r, e = .channelEvent ctl r ∧ r.IsResponse ∧
        Requested o.past i pair'.remote.addr r.transId

/-- A response from the address of a pair that awaits one has the transaction number of a
request for the pair. -/
def Solicited (o : Observed) (e : Event) : Prop :=
  ∀ ctl r, e = .channelEvent ctl r → r.IsResponse → ∀ i, awaiting o.ice r.peer = some i →
    Requested o.past i r.peer r.transId

theorem binds_iff (checked : Checked o.ice o.past)
    (result : handle p o.ice e = .ok (ice', out)) : Binds o e ice' ↔ Solicited o e := by
  constructor
  · rintro binds ctl r rfl response i found
    rcases succeeds_of_response response found result with ⟨pair', here, state, addr⟩
    rcases binds i pair' here state with ⟨pair, before, already⟩ | ⟨ctl', r', same, -, requested⟩
    · rcases of_awaiting found with ⟨waits, before', busy, -⟩
      cases before.symm.trans before'
      rw [busy] at already
      cases already
    · cases same
      rw [← addr]
      exact requested
  · intro solicited i pair' here state
    rcases succeeded_of_handle checked result here state with
      already | ⟨ctl, r, rfl, response, found, addr⟩
    · exact .inl already
    · refine .inr ⟨ctl, r, rfl, response, ?_⟩
      rw [addr]
      exact solicited ctl r rfl response i found

/-- **Binding of responses.**  In a run pairs succeed only with responses to their own requests
exactly if each response from the address of a pair that awaits one is such a response: the
plugin does not compare transaction numbers. -/
theorem along_binds_iff {sockv4 sockv4Ctl : Nat} {events : List Event} :
    Along (observe p)
        (fun o e => ∃ ice' out, handle p o.ice e = .ok (ice', out) ∧ Binds o e ice')
        (Observed.fresh attrs sockv4 sockv4Ctl) events ↔
      Along (observe p) (fun o e => Handleable p o.ice e ∧ Solicited o e)
        (Observed.fresh attrs sockv4 sockv4Ctl) events := by
  apply along_congr fun o => Checked o.ice o.past
  · intro o e o' checked _ result
    exact checked_observe checked result
  · intro o e checked
    rw [← handle_succeeds_iff checked]
    constructor
    · rintro ⟨ice', out, result, binds⟩
      exact ⟨⟨_, result⟩, (binds_iff checked result).mp binds⟩
    · rintro ⟨⟨⟨ice', out⟩, result⟩, solicited⟩
      exact ⟨ice', out, result, (binds_iff checked result).mpr solicited⟩
  · exact checked_created attrs sockv4 sockv4Ctl

/-- A local candidate, a remote one on port 5000 or 5001, and a check. -/
def exchange (port : String) : List Event :=
  [appended (candidateAt "local-candidate" "4000"), appended (candidateAt "candidate" port),
    .resendCandidates]

/-- The credentials of a stream. -/
def credentials : AttrList :=
  [(lit "ufrag", lit "u"), (lit "pwd", lit "p")]

/-- A response without attributes. -/
def response (port : UInt16) : Received :=
  arrived ⟨port, 0x0A000001⟩
    ([0x01, 0x01, 0, 0, 0x21, 0x12, 0xA4, 0x42] ++ List.replicate 12 0) (by simp)

/-- Whether an output is a request with a transaction number. -/
def Output.isRequest (transId : List Byte) : Output → Bool
  | .request _ _ _ msg => msg.transId = transId
  | _ => false

/-- A response to no request makes a pair succeed. -/
theorem not_along_binds_forged :
    ¬Along (observe host)
      (fun o e => ∃ ice' out, handle host o.ice e = .ok (ice', out) ∧ Binds o e ice')
      (Observed.fresh credentials 5 6)
      (exchange "5000" ++ [.channelEvent false (response 5000)]) := by
  intro along
  have asked : ∃ o, run (observe host) (Observed.fresh credentials 5 6) (exchange "5000") =
      .ok o ∧ awaiting o.ice (response 5000).peer = some 0 ∧
        ∀ entry ∈ o.past, ∀ sent ∈ entry.2, sent.isRequest (response 5000).transId = false := by
    rw [← lands_false_iff]
    decide +kernel
  rcases asked with ⟨o, reached, found, unsent⟩
  rcases along_iff.mp along (exchange "5000") _ [] rfl o reached with ⟨ice', out, result, binds⟩
  have modern : (response 5000).IsResponse := by
    constructor
    · decide +kernel
    · decide +kernel
  rcases (binds_iff (checked_run reached) result).mp binds false _ rfl modern 0 found with
    ⟨entry, member, sock, msg, sent, same⟩
  have none := unsent entry member _ sent
  exact of_decide_eq_false none same

end Xwbot.Ice
