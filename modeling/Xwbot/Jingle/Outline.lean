import Xwbot.Jingle.Core

/-!
# Outlines of sessions

Whether the loops over the contents of an element succeed depends only on which
channels the sessions have and which of these have a transport.  An `Outline` is
this information, and `Outline.place` and `Outline.visit` say what a turn of a
loop makes of it.  The loops of the plugin agree with the iteration of `visit`.
-/

namespace Xwbot.Jingle

open Runs

/-! ## Outlines -/

/-- The channels of each session, with their names and whether they have a transport. -/
abbrev Outline := Nat → List (Text × Bool)

namespace Outline

/-- What `x_session_channel_open2` makes of an outline, and whether the channel that it gives has
a transport. -/
def place (o : Outline) (xcs : Nat) (name : Option Text) : Option (Outline × Bool) :=
  match (o xcs).find? fun channel => answersTo name channel.1, name with
  | some channel, _ => some (o, channel.2)
  | none, some name =>
      if NameFits name then some (Function.update o xcs (o xcs ++ [(name, false)]), false) else none
  | none, none => none

/-- A turn of a loop that opens the channel of a content and takes its transport to the transport
of the channel, if that has one. -/
def visit (session : Content → Option Nat) (fits : Content → Bool) (o : Outline)
    (chan : Content) : Option (Outline × Bool) :=
  (session chan).bind fun xcs =>
    (o.place xcs chan.name).bind fun placed =>
      if placed.2 && !(chan.transport.isSome && fits chan) then none else some placed

/-- The iteration of `visit`. -/
def walk (session : Content → Option Nat) (fits : Content → Bool) (o : Outline)
    (contents : List Content) : Option Outline :=
  contents.foldlM (fun o chan => (o.visit session fits chan).map Prod.fst) o

end Outline

/-- The content has a candidate. -/
def Content.delivers (chan : Content) : Bool :=
  (chan.transport.map fun transport => !transport.candidates.isEmpty).getD false

/-- A turn of the loop of `transport-info`, which also notes whether a candidate was delivered. -/
def Outline.visitInfo (session : Content → Option Nat) (s : Outline × Bool) (chan : Content) :
    Option (Outline × Bool) :=
  (s.1.visit session (fun _ => true) chan).map fun visited =>
    (visited.1, s.2 || (visited.2 && chan.delivers))

namespace Channel

/-- What an outline says about a channel. -/
def outline (channel : Channel) : Text × Bool :=
  (channel.name, channel.transport.isSome)

end Channel

namespace Agent

/-- The outline of the sessions. -/
def outline (a : Agent) : Outline := fun xcs =>
  (a.channels xcs).map Channel.outline

variable {c : Config} {a b : Agent} {i xcs k : Nat}

theorem transport_eq_of_getElem? {channel : Channel} (found : (a.channels xcs)[k]? = some channel) :
    a.transport xcs k = channel.transport := by
  rw [transport, found, Option.bind_some]

/-- A transport that is changed stays a transport. -/
theorem outline_setTransport {candidates : List AttrList}
    (present : (a.transport xcs k).isSome = true) :
    (a.setTransport xcs k candidates).outline = a.outline := by
  funext ycs
  rw [outline, outline]
  by_cases same : ycs = xcs
  · subst same
    simp only [setTransport, Function.update_self]
    apply List.ext_getElem?
    intro n
    rw [List.getElem?_map, List.getElem?_map, List.getElem?_modify]
    by_cases here : k = n
    · subst here
      cases found : (a.channels ycs)[k]? with
      | none => simp
      | some channel =>
          rw [transport_eq_of_getElem? found] at present
          simp [Channel.outline, present]
    · simp [here]
  · simp [setTransport, same]

theorem transport_setTransport {candidates : List AttrList}
    (present : (a.transport xcs k).isSome = true) :
    (a.setTransport xcs k candidates).transport xcs k = some candidates := by
  cases found : (a.channels xcs)[k]? with
  | none =>
      rw [transport, found] at present
      cases present
  | some channel => simp [transport, setTransport, found]

/-- The channel that is found, in terms of the outline. -/
theorem find?_outline (name : Option Text) (a : Agent) (xcs : Nat) :
    ((a.channels xcs).map Channel.outline).find? (fun channel => answersTo name channel.1) =
      (a.channelIndex xcs name).bind fun k => (a.channels xcs)[k]?.map Channel.outline := by
  rw [List.find?_map, channelIndex]
  cases index : (a.channels xcs).findIdx? fun channel => answersTo name channel.name with
  | none =>
      rw [List.findIdx?_eq_none_iff] at index
      rw [List.find?_eq_none.mpr]
      · rfl
      · exact fun channel member => Bool.eq_false_iff.mp (index channel member)
  | some k =>
      rcases List.findIdx?_eq_some_iff_getElem.mp index with ⟨bound, answers, earlier⟩
      have found : (a.channels xcs).find? ((fun channel => answersTo name channel.1) ∘
          Channel.outline) = some (a.channels xcs)[k] := by
        refine List.find?_eq_some_iff_getElem.mpr ⟨answers, k, bound, rfl, fun j before => ?_⟩
        simpa [Channel.outline] using earlier j before
      rw [found, Option.bind_some, List.getElem?_eq_getElem bound]

theorem channelOpen2_of_some {name : Option Text} (index : a.channelIndex xcs name = some k) :
    a.channelOpen2 xcs name = .ok (a, k) := by
  unfold channelOpen2
  rw [index]

theorem channelOpen2_of_none {name : Text} (fits : NameFits name)
    (index : a.channelIndex xcs (some name) = none) : a.channelOpen2 xcs (some name) =
      .ok ({ a with channels := Function.update a.channels xcs (a.channels xcs ++ [⟨name, none⟩]) },
        (a.channels xcs).length) := by
  unfold channelOpen2
  rw [index]
  exact if_pos fits

/-- Opening a channel only adds channels, and agrees with its outline. -/
theorem channelOpen2_agrees (a : Agent) (xcs : Nat) (name : Option Text) :
    Agrees (fun p : Agent × Nat => (p.1.outline, (p.1.transport xcs p.2).isSome))
      (fun p => ∃ channels, p.1 = { a with channels := channels })
      (a.outline.place xcs name) (a.channelOpen2 xcs name) := by
  have here : a.outline xcs = (a.channels xcs).map Channel.outline := rfl
  unfold Outline.place
  rw [here, find?_outline]
  cases index : a.channelIndex xcs name with
  | some k =>
      rcases List.findIdx?_eq_some_iff_getElem.mp index with ⟨bound, -⟩
      have found := List.getElem?_eq_getElem bound
      rw [channelOpen2_of_some index, Option.bind_some, found]
      refine ⟨Prod.ext rfl ?_, _, rfl⟩
      exact congrArg Option.isSome (transport_eq_of_getElem? found)
  | none =>
      cases name with
      | none =>
          unfold channelOpen2
          rw [index]
          trivial
      | some name =>
          rw [Option.bind_none]
          dsimp only
          by_cases fits : NameFits name
          · rw [if_pos fits, channelOpen2_of_none fits index]
            refine ⟨Prod.ext ?_ ?_, _, rfl⟩
            · funext ycs
              by_cases same : ycs = xcs
              · subst same
                simp [outline, Channel.outline]
              · simp [outline, same]
            · simp [transport]
          · unfold channelOpen2
            rw [if_neg fits, index]
            dsimp only
            rw [if_neg fits]
            trivial

/-- The session that `x_session_channel_open` takes for a peer and an identifier. -/
def sessionOf (a : Agent) (rjid sid : Option Text) : Option Nat :=
  rjid.bind fun jid => (a.store.lookup jid sid).map Session.addr

/-- The node above a session that is found is there. -/
theorem hosts_of_lookup {jid : Text} {sid : Option Text} {xcs : Session}
    (found : a.store.lookup jid sid = some xcs) : a.store.Hosts jid := by
  rcases Option.bind_eq_some_iff.mp found with ⟨peer, node, -⟩
  exact .inl (by rw [node]; rfl)

theorem channelOpen_agrees (rjid sid name : Option Text) :
    Agrees (fun p : Agent × Nat × Nat => (p.1.outline, (p.1.transport p.2.1 p.2.2).isSome))
      (fun p => ∃ channels, p.1 = { a with channels := channels })
      ((a.sessionOf rjid sid).bind fun xcs => a.outline.place xcs name)
      (a.channelOpen c rjid sid name) := by
  unfold channelOpen
  cases rjid with
  | none => trivial
  | some jid =>
      cases found : a.store.lookup jid sid with
      | none =>
          simp only [sessionOpen, sessionOf, found, Option.bind_some]
          split
          · rw [openSession_false, found]
            trivial
          · trivial
      | some xcs =>
          simp only [sessionOpen, if_pos (hosts_of_lookup found), openSession_of_lookup found,
            sessionOf, found, Option.bind_some, ok_bind, Option.map_some]
          exact (channelOpen2_agrees a xcs.addr name).map fun p inside => ⟨rfl, inside⟩

/-! ## Loops -/

/-- What a loop over the contents of the object `i` may change: it opens channels, delivers
`n` candidates and sets the bit for them. -/
structure Loops (i n : Nat) (bit : Bool) (a b : Agent) : Prop where
  store : b.store = a.store
  top : b.top = a.top
  listener : b.listener = a.listener
  count : b.count = a.count
  object : b.object = Function.update a.object i
    { a.object i with regs := { (a.object i).regs with remoteCandidate := bit } }
  log : b.log = a.log ++ List.replicate n (.candidate i)

namespace Loops

variable {d : Agent} {n m : Nat} {bit bit' : Bool}

theorem refl (i : Nat) (a : Agent) : Loops i 0 (a.object i).regs.remoteCandidate a a where
  store := rfl
  top := rfl
  listener := rfl
  count := rfl
  object := (Function.update_eq_self i a.object).symm
  log := (List.append_nil _).symm

theorem trans (first : Loops i n bit a b) (second : Loops i m bit' b d) :
    Loops i (n + m) bit' a d where
  store := second.store.trans first.store
  top := second.top.trans first.top
  listener := second.listener.trans first.listener
  count := second.count.trans first.count
  object := by
    rw [second.object, first.object, Function.update_idem, Function.update_self]
  log := by
    rw [second.log, first.log, List.append_assoc, List.replicate_append_replicate]

theorem of_channels (i : Nat) {channels : Nat → List Channel}
    (only : b = { a with channels := channels }) :
    Loops i 0 (a.object i).regs.remoteCandidate a b := by
  subst only
  exact ⟨rfl, rfl, rfl, rfl, (Function.update_eq_self i a.object).symm,
    (List.append_nil _).symm⟩

theorem sessionOf_eq (loops : Loops i n bit a b) (rjid sid : Option Text) :
    b.sessionOf rjid sid = a.sessionOf rjid sid := by
  rw [sessionOf, sessionOf, loops.store]

theorem env_eq (loops : Loops i n bit a b) (j : Nat) (key : Text) :
    (b.object j).env key = (a.object j).env key := by
  rw [loops.object]
  by_cases same : j = i
  · subst same
    rw [Function.update_self]
    rfl
  · rw [Function.update_of_ne same]

theorem bit_eq (loops : Loops i n bit a b) : (b.object i).regs.remoteCandidate = bit := by
  rw [loops.object, Function.update_self]

/-- Setting the bit behind a loop. -/
theorem setBit (loops : Loops i n bit a b) (bit' : Bool) :
    Loops i n bit' a (b.setRegs i { (b.object i).regs with remoteCandidate := bit' }) where
  store := loops.store
  top := loops.top
  listener := loops.listener
  count := loops.count
  object := by
    rw [setRegs, loops.object, Function.update_idem, Function.update_self]
  log := loops.log

end Loops

/-- The candidates go to a transport, which does not show in the outline. -/
theorem loops_addCandidates (i : Nat) (candidates : List AttrList)
    (present : (a.transport xcs k).isSome = true) :
    Loops i candidates.length (a.object i).regs.remoteCandidate a
        (a.addCandidates i xcs k candidates) ∧
      (a.addCandidates i xcs k candidates).outline = a.outline := by
  induction candidates generalizing a with
  | nil => exact ⟨.refl i a, rfl⟩
  | cons candidate rest ih =>
      cases before : a.transport xcs k with
      | none =>
          rw [before] at present
          cases present
      | some candidates =>
          have once : a.addTransportCandidate i xcs k candidate =
              (a.setTransport xcs k (candidates ++ [candidate])).note (.candidate i) := by
            rw [addTransportCandidate, before]
          have first : Loops i 1 (a.object i).regs.remoteCandidate a
              (a.addTransportCandidate i xcs k candidate) := by
            rw [once]
            exact ⟨rfl, rfl, rfl, rfl, (Function.update_eq_self i a.object).symm, rfl⟩
          have still : ((a.addTransportCandidate i xcs k candidate).transport xcs k).isSome =
              true := by
            rw [once]
            exact congrArg Option.isSome (transport_setTransport present)
          rcases ih still with ⟨later, same⟩
          constructor
          · rw [first.object, Function.update_self] at later
            rw [addCandidates, List.foldl_cons, List.length_cons, Nat.add_comm]
            exact first.trans later
          · apply same.trans
            rw [once]
            exact outline_setTransport present

/-- A turn of the loop of `session-accept`, which sends the contents back. -/
theorem copyContent_agrees (xcs : Nat) (chan : Content) :
    Agrees outline (Loops i 0 (a.object i).regs.remoteCandidate a)
      ((a.outline.visit (fun _ => some xcs) (fun _ => true) chan).map Prod.fst)
      (copyContent xcs a chan) := by
  unfold copyContent
  rw [Outline.visit, Option.bind_some, Option.map_bind]
  refine (channelOpen2_agrees a xcs chan.name).bind fun p only => ?_
  rcases p with ⟨b, k⟩
  rcases only with ⟨channels, only⟩
  have loops := Loops.of_channels i only
  cases given : chan.transport with
  | none => cases here : b.transport xcs k <;> simp [Agrees, here, loops]
  | some transport => cases here : b.transport xcs k <;> simp [Agrees, here, loops]

/-- What the loop of `transport-info` does to the object: the bit is set if a candidate is
delivered. -/
def Informs (i : Nat) (a b : Agent) : Prop :=
  ∃ n, Loops i n ((a.object i).regs.remoteCandidate || decide (0 < n)) a b

/-- The session of a content of the object. -/
def contentSession (a : Agent) (i : Nat) (chan : Content) : Option Nat :=
  a.sessionOf (chan.env (a.object i) (lit "from")) (chan.env (a.object i) (lit "sid"))

/-- A turn of the loop of `transport-info`. -/
theorem infoContent_agrees (chan : Content) :
    Agrees (fun b => (b.outline, (b.object i).regs.remoteCandidate)) (Informs i a)
      (Outline.visitInfo (a.contentSession i) (a.outline, (a.object i).regs.remoteCandidate) chan)
      (infoContent c i a chan) := by
  unfold infoContent
  rw [Outline.visitInfo, Outline.visit, contentSession, ← Option.bind_assoc, Option.map_bind]
  refine (channelOpen_agrees _ _ chan.name).bind fun p only => ?_
  rcases p with ⟨b, xcs, k⟩
  rcases only with ⟨channels, only⟩
  have opened : Loops i 0 (a.object i).regs.remoteCandidate a b := .of_channels i only
  simp only
  cases here : b.transport xcs k with
  | none =>
      have informs : Informs i a b := ⟨0, by simpa using opened⟩
      simp [Agrees, opened.bit_eq, informs]
  | some candidates =>
      cases given : chan.transport with
      | none => simp [Agrees]
      | some transport =>
          simp only [Agrees, Function.comp_apply, Option.isSome_some, Bool.true_and, Bool.not_true,
            Bool.and_false, Bool.false_eq_true, if_false, Option.map_some]
          generalize delivered : transport.candidates.map _ = candidates
          have present : (b.transport xcs k).isSome = true := by rw [here]; rfl
          rcases loops_addCandidates i candidates present with ⟨added, same⟩
          have length_eq : candidates.length = transport.candidates.length := by
            rw [← delivered, List.length_map]
          have delivers : (!transport.candidates.isEmpty) = decide (0 < candidates.length) := by
            rw [length_eq]
            cases transport.candidates <;> rfl
          have told : chan.delivers = decide (0 < candidates.length) := by
            rw [Content.delivers, given, ← delivers]
            rfl
          have after := (opened.trans added).setBit
            ((a.object i).regs.remoteCandidate || decide (0 < candidates.length))
          rw [added.bit_eq, opened.bit_eq, delivers, told]
          refine ⟨Prod.ext same ?_, candidates.length, by simpa using after⟩
          exact after.bit_eq

theorem Loops.contentSession_eq {n : Nat} {bit : Bool} (loops : Loops i n bit a b) :
    b.contentSession i = a.contentSession i := by
  funext chan
  rw [contentSession, contentSession, loops.sessionOf_eq, Content.env, Content.env, Content.env,
    Content.env, loops.env_eq, loops.env_eq]

theorem Informs.refl (i : Nat) (a : Agent) : Informs i a a :=
  ⟨0, by simpa using Loops.refl i a⟩

theorem Informs.trans {d : Agent} (first : Informs i a b) (second : Informs i b d) :
    Informs i a d := by
  rcases first with ⟨n, first⟩
  rcases second with ⟨m, second⟩
  refine ⟨n + m, ?_⟩
  have both := first.trans second
  rw [first.bit_eq, Bool.or_assoc] at both
  have positive : (decide (0 < n) || decide (0 < m)) = decide (0 < n + m) := by
    simp
  rwa [positive] at both

/-- The loop of `transport-info`. -/
theorem infoContents_agrees (contents : List Content) :
    Agrees (fun b => (b.outline, (b.object i).regs.remoteCandidate)) (Informs i a)
      (contents.foldlM (Outline.visitInfo (a.contentSession i))
        (a.outline, (a.object i).regs.remoteCandidate))
      (run (infoContent c i) a contents) := by
  refine agrees_run (fun b chan informs => ?_) (Informs.refl i a)
  have once := infoContent_agrees (c := c) (a := b) (i := i) chan
  rcases informs with ⟨n, loops⟩
  rw [loops.contentSession_eq] at once
  exact once.mono fun d second => Informs.trans ⟨n, loops⟩ second

/-- The loop of `session-accept`. -/
theorem copyContents_agrees (xcs : Nat) (contents : List Content) :
    Agrees outline (Loops i 0 (a.object i).regs.remoteCandidate a)
      (a.outline.walk (fun _ => some xcs) (fun _ => true) contents)
      (run (copyContent xcs) a contents) := by
  refine agrees_run (fun b chan loops => ?_) (Loops.refl i a)
  have once := copyContent_agrees (a := b) (i := i) xcs chan
  rw [loops.bit_eq] at once
  exact once.mono fun d second => loops.trans second

end Agent

end Xwbot.Jingle
