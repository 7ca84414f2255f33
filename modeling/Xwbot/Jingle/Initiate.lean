import Xwbot.Jingle.Handlers

/-!
# Receiving a session-initiate

The handler opens a session and then goes twice through the contents: first it
opens the channels and notes their names, then it takes the transports, the
candidates and the payloads.  `visitPending` and `visitInitiate` are the turns
of the two loops on outlines.
-/

namespace Xwbot.Jingle

open Runs

namespace Outline

/-- A turn of the first loop; a name that is missing can only be noted before any other. -/
def visitPending (xcs : Nat) (s : Outline × Bool) (chan : Content) : Option (Outline × Bool) :=
  (s.1.place xcs chan.name).bind fun placed =>
    match chan.name with
    | some _ => some (placed.1, false)
    | none => if s.2 then some (placed.1, true) else none

/-- The channel that a name stands for gets a transport. -/
def equip (o : Outline) (xcs : Nat) (name : Option Text) : Outline :=
  Function.update o xcs
    (match (o xcs).findIdx? fun channel => answersTo name channel.1 with
    | some k => (o xcs).modify k fun channel => (channel.1, true)
    | none => o xcs)

end Outline

/-- A transport class is found for the `transport`. -/
def Transport.accepted (c : Config) (transport : Transport) : Bool :=
  match Agent.profileOf (getattr (lit "xmlns") transport.attrs) with
  | some ns => c.icectl ns transport.attrs
  | none => false

/-- The payloads of a description can be added if they are looked at. -/
def Description.fits (c : Config) (descr : Description) : Bool :=
  !descr.isRtp || decide (∀ payload ∈ descr.payloads, payload.Fits c)

/-- A turn of the second loop, which also notes whether a candidate was delivered. -/
def Outline.visitInitiate (c : Config) (xcs : Nat) (s : Outline × Bool) (chan : Content) :
    Option (Outline × Bool) :=
  (s.1.place xcs chan.name).bind fun placed =>
    match chan.transport, chan.description with
    | some transport, some descr =>
        if descr.fits c then
          some (if transport.accepted c then placed.1.equip xcs chan.name else placed.1,
            s.2 || ((placed.2 || transport.accepted c) && chan.delivers))
        else none
    | _, _ => none

namespace Agent

variable {c : Config} {a b : Agent} {i xcs k : Nat}

/-! ## The first loop -/

theorem isEmpty_setattr (k v : Text) (l : AttrList) : (setattr k (some v) l).isEmpty = false := by
  cases l with
  | nil => rfl
  | cons attr rest =>
      rw [setattr]
      split
      · rcases attr with ⟨key, val⟩
        rw [changeattr]
        split
        · rfl
        · rfl
      · rfl

/-- What the first loop changes: it opens channels of the session and notes names. -/
structure Pends (i : Nat) (a b : Agent) : Prop where
  store : b.store = a.store
  top : b.top = a.top
  listener : b.listener = a.listener
  count : b.count = a.count
  object : ∃ pending, b.object =
    Function.update a.object i { a.object i with pendingChannels := pending }
  log : b.log = a.log

theorem Pends.refl (i : Nat) (a : Agent) : Pends i a a :=
  ⟨rfl, rfl, rfl, rfl,
    ⟨(a.object i).pendingChannels, (Function.update_eq_self i a.object).symm⟩, rfl⟩

theorem Pends.trans {d : Agent} (first : Pends i a b) (second : Pends i b d) : Pends i a d where
  store := second.store.trans first.store
  top := second.top.trans first.top
  listener := second.listener.trans first.listener
  count := second.count.trans first.count
  object := by
    rcases first.object with ⟨_, first⟩
    rcases second.object with ⟨pending, second⟩
    refine ⟨pending, ?_⟩
    rw [second, first, Function.update_idem, Function.update_self]
  log := second.log.trans first.log

theorem openPending_agrees (xcs : Nat) (chan : Content) :
    Agrees (fun b => (b.outline, (b.object i).pendingChannels.isEmpty)) (Pends i a)
      (Outline.visitPending xcs (a.outline, (a.object i).pendingChannels.isEmpty) chan)
      (openPending i xcs a chan) := by
  unfold openPending
  rw [Outline.visitPending]
  refine (channelOpen2_agrees a xcs chan.name).bind fun p only => ?_
  rcases p with ⟨b, k⟩
  rcases only with ⟨channels, only⟩
  simp only at only
  subst only
  have pends (pending : AttrList) : Pends i a
      { a with
        channels := channels
        object := Function.update a.object i
          { a.object i with pendingChannels := pending } } :=
    ⟨rfl, rfl, rfl, rfl, ⟨pending, rfl⟩, rfl⟩
  cases given : chan.name with
  | some name =>
      refine ⟨Prod.ext rfl ?_, pends (setattr name (some name) (a.object i).pendingChannels)⟩
      simp [isEmpty_setattr]
  | none =>
      simp only [setattrPtr, true_and]
      cases pending : (a.object i).pendingChannels with
      | nil => exact ⟨Prod.ext rfl (by simp), pends []⟩
      | cons attr rest => trivial

theorem pendingContents_agrees (xcs : Nat) (contents : List Content) :
    Agrees (fun b => (b.outline, (b.object i).pendingChannels.isEmpty)) (Pends i a)
      (contents.foldlM (Outline.visitPending xcs)
        (a.outline, (a.object i).pendingChannels.isEmpty))
      (run (openPending i xcs) a contents) := by
  refine agrees_run (fun b chan pends => ?_) (Pends.refl i a)
  exact (openPending_agrees xcs chan).mono fun d second => pends.trans second

/-! ## The second loop -/

/-- The channel that is opened is the one that its name stands for. -/
theorem channelIndex_of_channelOpen2 {name : Option Text}
    (result : a.channelOpen2 xcs name = .ok (b, k)) : b.channelIndex xcs name = some k := by
  unfold channelOpen2 at result
  cases index : a.channelIndex xcs name with
  | some k' =>
      rw [index] at result
      cases result
      exact index
  | none =>
      rw [index] at result
      cases name with
      | none => cases result
      | some name =>
          dsimp only at result
          split at result
          case isFalse => cases result
          cases result
          rw [channelIndex] at index ⊢
          simp only [Function.update_self]
          rw [List.findIdx?_append, index]
          simp [answersTo, eqnText_refl]

theorem findIdx?_outline (name : Option Text) (a : Agent) (xcs : Nat) :
    ((a.channels xcs).map Channel.outline).findIdx? (fun channel => answersTo name channel.1) =
      a.channelIndex xcs name := by
  rw [List.findIdx?_map]
  rfl

/-- A channel that is given a transport is equipped. -/
theorem outline_setTransport_eq {name : Option Text} {candidates : List AttrList}
    (index : a.channelIndex xcs name = some k) :
    (a.setTransport xcs k candidates).outline = a.outline.equip xcs name := by
  funext ycs
  rw [Outline.equip]
  by_cases same : ycs = xcs
  · subst same
    rw [Function.update_self]
    simp only [outline, setTransport, Function.update_self, findIdx?_outline, index]
    refine List.ext_getElem? fun n => ?_
    rw [List.getElem?_map, List.getElem?_modify, List.getElem?_modify, List.getElem?_map]
    cases (a.channels ycs)[n]? with
    | none => rfl
    | some channel => by_cases here : k = n <;> simp [here, Channel.outline]
  · rw [Function.update_of_ne same]
    simp [outline, setTransport, same]

theorem addProfile_spec (c : Config) {name : Option Text} (transport : Transport)
    (index : a.channelIndex xcs name = some k) :
    (a.addProfile c xcs k transport).outline =
        (if transport.accepted c then a.outline.equip xcs name else a.outline) ∧
      ((a.addProfile c xcs k transport).transport xcs k).isSome =
        ((a.transport xcs k).isSome || transport.accepted c) ∧
      ∃ channels, a.addProfile c xcs k transport = { a with channels := channels } := by
  unfold addProfile Transport.accepted
  cases profileOf (getattr (lit "xmlns") transport.attrs) with
  | none => exact ⟨rfl, by simp, a.channels, rfl⟩
  | some ns =>
      simp only [setTransportProfile]
      by_cases accepted : c.icectl ns transport.attrs = true
      · simp only [accepted, if_true, Bool.or_true]
        refine ⟨outline_setTransport_eq index, ?_, _, rfl⟩
        rcases List.findIdx?_eq_some_iff_getElem.mp index with ⟨bound, -⟩
        simp [Agent.transport, setTransport, bound]
      · simp only [accepted, Bool.false_eq_true, if_false, Bool.or_false]
        exact ⟨trivial, trivial, a.channels, rfl⟩

/-- The candidates of a transport go to the channel if that has a transport. -/
theorem takeCandidates_spec (a : Agent) (i xcs k : Nat) (transport : Transport) (chan : Content) :
    (a.takeCandidates i xcs k transport chan).outline = a.outline ∧
      Loops i (if (a.transport xcs k).isSome then transport.candidates.length else 0)
        (a.object i).regs.remoteCandidate a (a.takeCandidates i xcs k transport chan) := by
  unfold takeCandidates
  cases here : a.transport xcs k with
  | none => exact ⟨rfl, .refl i a⟩
  | some candidates =>
      have present : (a.transport xcs k).isSome = true := by rw [here]; rfl
      rcases loops_addCandidates i _ present with ⟨loops, same⟩
      refine ⟨same, ?_⟩
      simpa using loops

/-- Taking the payloads changes nothing here, and ends if they fit. -/
theorem takePayloads_spec (descr : Description) (d : Agent) :
    (descr.fits c = true → (if descr.isRtp then do
        d.checked (handlePayloads c descr.payloads)
        .ok d
      else .ok d : Except Crash Agent) = .ok d) ∧
      (descr.fits c = false → ∃ crash, (if descr.isRtp then do
        d.checked (handlePayloads c descr.payloads)
        .ok d
      else .ok d : Except Crash Agent) = .error crash) := by
  have handled := succeeds_handlePayloads c descr.payloads
  unfold Description.fits
  cases descr.isRtp with
  | false => exact ⟨fun _ => rfl, fun impossible => by cases impossible⟩
  | true =>
      simp only [Bool.not_true, Bool.false_or, decide_eq_true_eq, decide_eq_false_iff_not,
        if_true, ← handled]
      cases handlePayloads c descr.payloads with
      | error fault => exact ⟨by simp, fun _ => ⟨⟨fault, d⟩, rfl⟩⟩
      | ok u => exact ⟨fun _ => rfl, by simp⟩

/-- A turn of the second loop; `n` is how long the log was when the loop began. -/
theorem initiateContent_agrees {n : Nat} (grown : n ≤ a.log.length) (xcs : Nat) (chan : Content) :
    Agrees (fun b => (b.outline, decide (n < b.log.length)))
      (fun b => ∃ m, Loops i m (a.object i).regs.remoteCandidate a b)
      (Outline.visitInitiate c xcs (a.outline, decide (n < a.log.length)) chan)
      (initiateContent c i xcs a chan) := by
  unfold initiateContent
  rw [Outline.visitInitiate]
  cases opened : a.channelOpen2 xcs chan.name with
  | error fault =>
      have opens := channelOpen2_agrees a xcs chan.name
      rw [opened] at opens
      cases placed : a.outline.place xcs chan.name with
      | none => trivial
      | some p =>
          rw [placed] at opens
          cases opens
  | ok p =>
      rcases p with ⟨b, k⟩
      have opens := channelOpen2_agrees a xcs chan.name
      rw [opened] at opens
      rcases opens.of_ok with ⟨foretold, channels, only⟩
      have index := channelIndex_of_channelOpen2 opened
      rw [foretold]
      simp only [Option.bind_some, ok_bind]
      cases given : chan.transport with
      | none => cases chan.description <;> trivial
      | some transport =>
          cases chan.description with
          | none => trivial
          | some descr =>
              rcases addProfile_spec c transport index with
                ⟨equipped, present, channels', added⟩
              rcases takeCandidates_spec (b.addProfile c xcs k transport) i xcs k transport chan
                with ⟨same, taken⟩
              have delivers : chan.delivers = decide (0 < transport.candidates.length) := by
                rw [Content.delivers, given, Option.map_some, Option.getD_some]
                cases transport.candidates <;> rfl
              have opens : Loops i 0 (a.object i).regs.remoteCandidate a b := .of_channels i only
              have profiled := Loops.of_channels i added
              rw [opens.bit_eq] at profiled
              rw [profiled.bit_eq] at taken
              have loops := (opens.trans profiled).trans taken
              rw [present] at loops
              rw [equipped] at same
              have length_eq := congrArg List.length loops.log
              simp only [zero_add, List.length_append, List.length_replicate] at length_eq loops
              simp only [delivers]
              generalize (b.addProfile c xcs k transport).takeCandidates i xcs k transport chan = d
                at loops same length_eq ⊢
              cases fits : descr.fits c with
              | false =>
                  rcases (takePayloads_spec descr d).2 fits with ⟨crash, stuck⟩
                  rw [stuck]
                  trivial
              | true =>
                  rw [(takePayloads_spec descr d).1 fits]
                  refine ⟨Prod.ext same ?_, _, loops⟩
                  simp only [length_eq]
                  cases (b.transport xcs k).isSome || transport.accepted c with
                  | false => simp
                  | true =>
                      simp only [if_true, Bool.true_and]
                      rw [← Bool.decide_or, decide_eq_decide]
                      omega

theorem initiateContents_agrees (xcs : Nat) (contents : List Content) :
    Agrees (fun b => (b.outline, decide (a.log.length < b.log.length)))
      (fun b => ∃ m, Loops i m (a.object i).regs.remoteCandidate a b)
      (contents.foldlM (Outline.visitInitiate c xcs) (a.outline, false))
      (run (initiateContent c i xcs) a contents) := by
  have start : (a.outline, false) = (a.outline, decide (a.log.length < a.log.length)) := by simp
  rw [start]
  refine agrees_run (fun b chan kept => ?_) ⟨0, Loops.refl i a⟩
  rcases kept with ⟨n, loops⟩
  have grown : a.log.length ≤ b.log.length := by simp [loops.log]
  have once := initiateContent_agrees (c := c) (a := b) (i := i) grown xcs chan
  rw [loops.bit_eq] at once
  apply once.mono
  rintro d ⟨m, second⟩
  exact ⟨n + m, loops.trans second⟩

/-! ## The handler -/

/-- The object that is found is there, and its `iq` is from the sender. -/
theorem of_find {sender sid : Option Text} (found : a.find sender sid = some k) :
    k < a.count ∧ attrMatch (getattr (lit "from") (a.object k).iq) sender = true ∧
      attrMatch (getattr (lit "sid") (a.object k).attrs) sid = true := by
  have answers := List.find?_some found
  simp only [Bool.and_eq_true] at answers
  exact ⟨List.mem_range.mp (List.mem_of_find?_eq_some found), answers⟩

theorem isSome_of_attrMatch {s₁ s₂ : Option Text} (same : attrMatch s₁ s₂ = true) :
    s₁.isSome = s₂.isSome := by
  cases s₁ <;> cases s₂ <;> simp_all [attrMatch]

/-- Announcing a session says nothing to the store. -/
theorem onSessionNew_store (a : Agent) (xcs : Nat) (remote sid : Text) :
    (a.onSessionNew xcs remote sid).store = a.store := by
  unfold onSessionNew
  split
  · rfl
  · rfl

theorem onSessionNew_of_some {remote sid : Text} {j : Nat}
    (found : a.find (some remote) (some sid) = some j) : a.onSessionNew xcs remote sid =
      { a with
        listener := Function.update a.listener xcs j
        object := Function.update a.object j { a.object j with
          regs := { (a.object j).regs with state := .incoming } } } := by
  unfold onSessionNew
  rw [found]
  rfl

theorem onSessionNew_of_none {remote sid : Text}
    (missing : a.find (some remote) (some sid) = none) :
    a.onSessionNew xcs remote sid =
      { a with
        listener := Function.update a.listener xcs a.count
        count := a.count + 1
        object := Function.update a.object a.count
          ⟨[(lit "from", remote)], [], [(lit "sid", sid)], [], [], { state := .outcoming }⟩ } := by
  unfold onSessionNew
  rw [missing]
  rfl

/-- A listener that is there for the session that is added, and the old ones for the others. -/
theorem heard_concat {store : Store} {session : Session} {listener : Nat → Nat} {count : Nat}
    {object : Nat → JingleObject} (sessions_eq : store.sessions = a.store.sessions ++ [session])
    (older : ∀ session ∈ a.store.sessions, listener session.addr < count ∧
      (object (listener session.addr)).regs.state ≠ .gnew) {j : Nat} (present : j < count)
    (left : (object j).regs.state ≠ .gnew) : ∀ session' ∈ store.sessions,
      Function.update listener session.addr j session'.addr < count ∧
        (object (Function.update listener session.addr j session'.addr)).regs.state ≠ .gnew := by
  intro session' member
  by_cases there : session'.addr = session.addr
  · rw [there, Function.update_self]
    exact ⟨present, left⟩
  · rw [Function.update_of_ne there]
    apply older
    rw [sessions_eq] at member
    apply (List.mem_append.mp member).resolve_right
    exact fun last => there (congrArg Session.addr (List.mem_singleton.mp last))

/-- The object that a new session is announced to. -/
theorem onSessionNew_spec {busy : Nat → Prop} (tidy : Tidy busy a) (present : i < a.count)
    {store : Store} {session : Session} {top : Nat} {channels : Nat → List Channel}
    (housed : store.Housed) (sessions_eq : store.sessions = a.store.sessions ++ [session])
    (remote sid : Text) {d : Agent}
    (same : d = { a with store := store, top := top, channels := channels }) :
    Tidy busy (d.onSessionNew session.addr remote sid) ∧
      i < (d.onSessionNew session.addr remote sid).count ∧
      ((d.onSessionNew session.addr remote sid).object i).contents = (a.object i).contents := by
  cases found : d.find (some remote) (some sid) with
  | some j =>
      rcases of_find found with ⟨bound, alike, -⟩
      have known := isSome_of_attrMatch alike
      rw [onSessionNew_of_some found]
      subst same
      have old (k : Nat) (left : (a.object k).regs.state ≠ .gnew) :
          (Function.update a.object j { a.object j with
            regs := { (a.object j).regs with state := .incoming } } k).regs.state ≠ .gnew := by
        by_cases here : k = j
        · simp [here]
        · simpa [here] using left
      refine ⟨⟨housed, fun k idle => ?_, fun k => ?_, ?_⟩, present, ?_⟩
      · by_cases here : k = j
        · subst here
          simpa using tidy.cleared k idle
        · simpa [here] using tidy.cleared k idle
      · by_cases here : k = j
        · subst here
          simpa using known
        · simpa [here] using tidy.named k
      · apply heard_concat (a := a) sessions_eq _ bound
        · simp
        · intro session' member
          rcases tidy.heard session' member with ⟨bound', left⟩
          exact ⟨bound', old _ left⟩
      · by_cases here : i = j
        · simp [here]
        · simp [here]
  | none =>
      rw [onSessionNew_of_none found]
      subst same
      refine ⟨⟨housed, fun k idle => ?_, fun k => ?_, ?_⟩,
        present.trans (Nat.lt_succ_self _), ?_⟩
      · by_cases here : k = a.count
        · simp [here]
        · simpa [here] using tidy.cleared k idle
      · by_cases here : k = a.count
        · simp [here, getattr]
        · simpa [here] using tidy.named k
      · apply heard_concat (a := a) sessions_eq _ (Nat.lt_succ_self _)
        · simp
        · intro session' member
          rcases tidy.heard session' member with ⟨bound', left⟩
          refine ⟨bound'.trans (Nat.lt_succ_self _), ?_⟩
          simpa [bound'.ne] using left
      · simp [present.ne]

/-- Opening a session, also one that is created, leaves the contents of the objects alone. -/
theorem openSession_spec {busy : Nat → Prop} (tidy : Tidy busy a) (present : i < a.count)
    (jid : Text) (sid : Option Text) :
    ∃ b xcs, a.openSession c jid sid true = (b, some xcs) ∧ Tidy busy b ∧ i < b.count ∧
      (b.object i).contents = (a.object i).contents ∧
      ∃ session ∈ b.store.sessions, session.addr = xcs := by
  cases found : a.store.lookup jid sid with
  | some xcs =>
      exact ⟨a, xcs.addr, openSession_of_lookup found, tidy, present, rfl, xcs,
        Store.mem_of_lookup found, rfl⟩
  | none =>
      have housed : (a.store.xSessionOpen jid sid true (c.random a.top) a.top).1.Housed :=
        Store.housed_xSessionOpen tidy.housed
      have created : (a.store.xSessionOpen jid sid true (c.random a.top) a.top).2 = some a.top := by
        simp [Store.xSessionOpen, found]
      have sessions_eq : (a.store.xSessionOpen jid sid true (c.random a.top) a.top).1.sessions =
          a.store.sessions ++ [⟨a.top, (a.store.peerOf jid).getD (jidToSid jid),
            sid.getD (c.random a.top), jid, true⟩] := by
        simp [Store.xSessionOpen, found]
      simp only [openSession, found, and_self, if_true, created]
      rcases onSessionNew_spec tidy present housed sessions_eq jid (sid.getD (c.random a.top)) rfl
        with ⟨tidy', present', contents_eq⟩
      refine ⟨_, a.top, rfl, tidy', present', contents_eq, ?_⟩
      rw [onSessionNew_store, sessions_eq]
      exact ⟨_, List.mem_append_right _ List.mem_cons_self, rfl⟩

/-- What the handler of `session-initiate` needs: the element knows its peer, for which there is a
node or room for one, and is the first or comes from the agent itself, and with the session opened
its contents pass both loops and the object that is subscribed to the session can be activated. -/
def InitiateFits (c : Config) (a : Agent) (i : Nat) : Prop :=
  ∃ sender, (a.object i).env (lit "from") = some sender ∧ a.store.Hosts sender ∧
    ((a.object i).regs.state = .gnew ∨
      ∃ jid, (a.object i).env (lit "jid") = some jid ∧ eqText sender jid = true) ∧
    ∃ b xcs, a.openSession c sender (getattr (lit "sid") (a.object i).attrs) true = (b, some xcs) ∧
      ((((a.object i).contents.foldlM (Outline.visitPending xcs)
          (b.outline, (b.object i).pendingChannels.isEmpty)).bind fun s =>
        (a.object i).contents.foldlM (Outline.visitInitiate c xcs) (s.1, false)).isSome = true) ∧
      b.Callable (b.listener xcs)

theorem Pends.tidy {busy : Nat → Prop} (pends : Pends i a b) (tidy : Tidy busy a) :
    Tidy busy b := by
  rcases pends.object with ⟨pending, same⟩
  exact tidy.update (by rw [pends.store]; exact tidy.housed) (by rw [pends.store]) same
    pends.listener pends.count rfl rfl rfl

theorem Pends.env_eq (pends : Pends i a b) (j : Nat) (key : Text) :
    (b.object j).env key = (a.object j).env key := by
  rcases pends.object with ⟨pending, same⟩
  rw [same]
  by_cases here : j = i
  · subst here
    rw [Function.update_self]
    rfl
  · rw [Function.update_of_ne here]

/-- What both loops come to. -/
theorem takeContents_agrees (xcs : Nat) (contents : List Content) :
    Agrees (fun d => (d.outline, decide (a.log.length < d.log.length)))
      (fun d => ∃ b n, Pends i a b ∧ Loops i n (b.object i).regs.remoteCandidate b d)
      ((contents.foldlM (Outline.visitPending xcs)
          (a.outline, (a.object i).pendingChannels.isEmpty)).bind fun s =>
        contents.foldlM (Outline.visitInitiate c xcs) (s.1, false))
      (a.takeContents c i xcs contents) := by
  unfold takeContents
  refine (pendingContents_agrees xcs contents).bind fun b pends => ?_
  rw [← pends.log]
  apply (initiateContents_agrees xcs contents).mono
  rintro d ⟨n, loops⟩
  exact ⟨b, n, pends, loops⟩

theorem admits_iff (sender : Text) : a.admits i sender = .ok true ↔
    (a.object i).regs.state = .gnew ∨
      ∃ jid, (a.object i).env (lit "jid") = some jid ∧ eqText sender jid = true := by
  unfold admits
  by_cases new : (a.object i).regs.state = .gnew
  · simp [new]
  · cases known : (a.object i).env (lit "jid") with
    | none => simp [new, known]
    | some jid => simp [new, known]

/-- Starting a session behind the loops activates the object that is subscribed to it. -/
theorem sessionStart_spec (tidy : Tidy (· = i) a) {session : Session}
    (member : session ∈ a.store.sessions) (addr : session.addr = xcs)
    (waits : (a.object i).regs.remoteCandidate = false) :
    (Succeeds (a.sessionStart c xcs) ↔ a.Callable (a.listener xcs)) ∧
      ∀ b, a.sessionStart c xcs = .ok b → Tidy (· = i) b := by
  unfold sessionStart
  have left := (tidy.heard session member).2
  rw [addr] at left
  have idle : (a.object (a.listener xcs)).contents = [] ∨
      (a.object (a.listener xcs)).regs.remoteCandidate = false := by
    by_cases same : a.listener xcs = i
    · exact .inr (same ▸ waits)
    · exact .inl (tidy.cleared _ same)
  rcases sessionActivate_spec (c := c) tidy left idle with ⟨succeeds, sent⟩
  refine ⟨succeeds, fun b result => ?_⟩
  rcases sent b result with ⟨regs, events, state, sends⟩
  exact sends.tidy tidy state

/-- What the handler does with the session open. -/
theorem negotiate_spec (tidy : Tidy (· = i) a) {session : Session}
    (member : session ∈ a.store.sessions) (addr : session.addr = xcs) (contents : List Content) :
    (Succeeds (do
        let a ← a.takeContents c i xcs contents
        (a.setRegs i (a.object i).regs.turnPending).sessionStart c xcs) ↔
      ((contents.foldlM (Outline.visitPending xcs)
          (a.outline, (a.object i).pendingChannels.isEmpty)).bind fun s =>
        contents.foldlM (Outline.visitInitiate c xcs) (s.1, false)).isSome = true ∧
      a.Callable (a.listener xcs)) ∧
    ∀ b, (do
        let a ← a.takeContents c i xcs contents
        (a.setRegs i (a.object i).regs.turnPending).sessionStart c xcs) = .ok b →
      Tidy (· = i) b := by
  have agrees := takeContents_agrees (c := c) (a := a) (i := i) xcs contents
  have foretold := agrees.succeeds_iff
  rw [← foretold, succeeds_bind_iff]
  cases taken : a.takeContents c i xcs contents with
  | error fault => exact ⟨by simp, fun b result => by cases result⟩
  | ok d =>
      rw [taken] at agrees
      rcases agrees.of_ok.2 with ⟨b, n, pends, loops⟩
      have tidy' : Tidy (· = i) (d.setRegs i (d.object i).regs.turnPending) :=
        ((pends.tidy tidy).loops loops).setRegs rfl
      have waits : ((d.setRegs i (d.object i).regs.turnPending).object i).regs.remoteCandidate =
          false := by
        simp [setRegs, Regs.turnPending]
      have store_eq : (d.setRegs i (d.object i).regs.turnPending).store = a.store :=
        loops.store.trans pends.store
      rcases sessionStart_spec (c := c) tidy' (by rw [store_eq]; exact member) addr waits with
        ⟨starts, kept⟩
      have callable (j : Nat) :
          (d.setRegs i (d.object i).regs.turnPending).Callable j ↔ a.Callable j := by
        refine Callable.congr store_eq fun key => ?_
        rw [← pends.env_eq, ← loops.env_eq]
        by_cases here : j = i
        · subst here
          simp [setRegs, JingleObject.env]
        · simp [setRegs, here]
      have listener_eq : (d.setRegs i (d.object i).regs.turnPending).listener = a.listener :=
        loops.listener.trans pends.listener
      rw [listener_eq, callable] at starts
      exact ⟨by simpa using starts, fun b result => kept b result⟩

theorem onInitiate_spec (tidy : Tidy (· = i) a) (present : i < a.count) :
    (Succeeds (a.onInitiate c i) ↔ a.InitiateFits c i) ∧
      ∀ b, a.onInitiate c i = .ok b → Tidy (· = i) b := by
  simp only [onInitiate, InitiateFits]
  cases known : (a.object i).env (lit "from") with
  | none => exact ⟨by simp, fun b result => by cases result⟩
  | some sender =>
      rcases openSession_spec (c := c) tidy present sender (getattr (lit "sid") (a.object i).attrs)
        with ⟨b, xcs, opened, tidy', present', contents_eq, session, member, addr⟩
      rcases negotiate_spec (c := c) tidy' member addr (a.object i).contents with
        ⟨negotiates, kept⟩
      have admitted := admits_iff (a := a) (i := i) sender
      simp only [sessionOpen, opened]
      cases admits : a.admits i sender with
      | error fault =>
          rw [admits] at admitted
          refine ⟨?_, fun b result => by cases result⟩
          simp only [checked_error, error_bind, not_succeeds_error, false_iff]
          rintro ⟨_, same, -, goes, -⟩
          cases same
          cases admitted.mpr goes
      | ok admission =>
          rw [admits] at admitted
          cases admission with
          | false =>
              refine ⟨?_, fun b result => by cases result⟩
              simp only [checked_ok, ok_bind, Bool.false_eq_true, if_false, not_succeeds_error,
                false_iff]
              rintro ⟨_, same, -, goes, -⟩
              cases same
              cases admitted.mpr goes
          | true =>
              have goes := admitted.mp rfl
              simp only [checked_ok, ok_bind, if_true]
              by_cases hosts : a.store.Hosts sender
              · simp only [if_pos hosts, ok_bind]
                refine ⟨negotiates.trans ?_, kept⟩
                constructor
                · rintro ⟨passes, callable⟩
                  exact ⟨sender, rfl, hosts, goes, b, xcs, opened, passes, callable⟩
                · rintro ⟨_, same, -, _, b', xcs', opened', passes, callable⟩
                  cases same
                  rw [opened] at opened'
                  cases opened'
                  exact ⟨passes, callable⟩
              · simp only [if_neg hosts, error_bind]
                refine ⟨?_, fun b result => by cases result⟩
                simp only [not_succeeds_error, false_iff]
                rintro ⟨_, same, hosts', -⟩
                cases same
                exact hosts hosts'

end Agent

end Xwbot.Jingle
