import Xwbot.Jingle.Payloads

/-!
# Channels that survive the negotiation

The peer finds the channel for a `content` with the lookup that stops where the stored name ends.
A channel whose name begins the name of a later one takes the payloads of both.
-/

namespace Xwbot.Jingle.Negotiation

open Runs

variable {c : Config} {around outer : List AttrList} {o sess cho chan : Node} {jid : Option Text}
  {chName : Text} {before behind channels chans contents peer done after : List Node}
  {pending : AttrList}

/-! ## Opening a channel -/

theorem channelOpen2_of_split (passed : ∀ y ∈ before, eqnText y.name chName = false)
    (here : eqnText cho.name chName = true) :
    channelOpen2 (some chName) (before ++ cho :: behind) = .ok (before, cho, behind) := by
  induction before with
  | nil =>
      rw [List.nil_append, channelOpen2]
      exact if_pos here
  | cons y rest ih =>
      rw [List.forall_mem_cons] at passed
      have other : ¬answersTo (some chName) y.name = true := by
        rw [answersTo, passed.1]
        exact Bool.false_ne_true
      rw [List.cons_append, channelOpen2, if_neg other, ih passed.2]
      rfl

/-- Nothing answers to the name: a channel is made, if the name fits. -/
theorem channelOpen2_of_absent {name : Option Text}
    (absent : ∀ y ∈ channels, answersTo name y.name = false) : channelOpen2 name channels =
      match name with
      | some chName =>
          if NameFits chName then .ok (channels, Node.new chName, []) else .error .overflow
      | none => .error .bug := by
  induction channels with
  | nil => cases name <;> rfl
  | cons y rest ih =>
      rw [List.forall_mem_cons] at absent
      rw [channelOpen2, absent.1, if_neg Bool.false_ne_true, ih absent.2]
      cases name with
      | none => rfl
      | some chName =>
          dsimp only
          split
          · rfl
          · rfl

theorem channelOpen2_of_new (fits : NameFits chName)
    (passed : ∀ y ∈ channels, eqnText y.name chName = false) :
    channelOpen2 (some chName) channels = .ok (channels, Node.new chName, []) :=
  (channelOpen2_of_absent passed).trans (if_pos fits)

theorem channelOpen2_of_tight (tight : ¬NameFits chName)
    (passed : ∀ y ∈ channels, eqnText y.name chName = false) :
    channelOpen2 (some chName) channels = .error .overflow :=
  (channelOpen2_of_absent passed).trans (if_neg tight)

/-- What answers to the name is opened, in its place. -/
theorem channelOpen2_of_index {name : Option Text} {k : Nat}
    (index : (channels.findIdx? fun cho => answersTo name cho.name) = some k) :
    ∃ before cho behind, channelOpen2 name channels = .ok (before, cho, behind) ∧
      channels = before ++ cho :: behind ∧ before.length = k := by
  induction channels generalizing k with
  | nil => cases index
  | cons y rest ih =>
      rw [List.findIdx?_cons] at index
      split at index
      · next answers =>
          cases index
          exact ⟨[], y, rest, if_pos answers, rfl, rfl⟩
      · next silent =>
          rcases Option.map_eq_some_iff.mp index with ⟨j, inside, rfl⟩
          rcases ih inside with ⟨before, cho, behind, opened, rfl, rfl⟩
          refine ⟨y :: before, cho, behind, ?_, rfl, rfl⟩
          rw [channelOpen2, if_neg silent, opened]
          rfl

/-- A name is new, or there is a first channel that answers to it. -/
theorem new_or_split (chName : Text) (channels : List Node) :
    (∀ y ∈ channels, eqnText y.name chName = false) ∨
      ∃ before cho behind, channels = before ++ cho :: behind ∧
        (∀ y ∈ before, eqnText y.name chName = false) ∧ eqnText cho.name chName = true := by
  induction channels with
  | nil => exact .inl fun _ none => (List.not_mem_nil none).elim
  | cons y rest ih =>
      cases here : eqnText y.name chName with
      | true => exact .inr ⟨[], y, rest, rfl, fun _ none => (List.not_mem_nil none).elim, here⟩
      | false =>
          rcases ih with new | ⟨before, cho, behind, rfl, passed, found⟩
          · exact .inl (List.forall_mem_cons.mpr ⟨here, new⟩)
          · exact .inr ⟨y :: before, cho, behind, rfl, List.forall_mem_cons.mpr
              ⟨here, passed⟩, found⟩

/-- **The agent's lookup** of a channel goes by the names alone: it comes to the same place and
leaves the same names, or fails for the same reason. -/
theorem channelOpen2_agent (a : Agent) (xcs : Nat)
    (names : (a.channels xcs).map Channel.name = channels.map Node.name) (chName : Option Text) :
    match channelOpen2 chName channels, a.channelOpen2 xcs chName with
    | .ok (before, cho, behind), .ok (a', k) =>
        k = before.length ∧
          (a'.channels xcs).map Channel.name = (before ++ cho :: behind).map Node.name
    | .error fault, .error crash => crash = ⟨fault, a⟩
    | _, _ => False := by
  have index : a.channelIndex xcs chName =
      channels.findIdx? fun cho => answersTo chName cho.name := by
    have images := congrArg (List.findIdx? fun name => answersTo chName name) names
    rw [List.findIdx?_map, List.findIdx?_map] at images
    exact images
  unfold Agent.channelOpen2
  rw [index]
  cases place : channels.findIdx? fun cho => answersTo chName cho.name with
  | some k =>
      rcases channelOpen2_of_index place with ⟨before, cho, behind, opened, rfl, rfl⟩
      rw [opened]
      exact ⟨rfl, names⟩
  | none =>
      rw [channelOpen2_of_absent (List.findIdx?_eq_none_iff.mp place)]
      cases chName with
      | none => rfl
      | some chName =>
          dsimp only
          by_cases fits : NameFits chName
          · rw [if_pos fits, if_pos fits]
            refine ⟨by rw [← List.length_map, names, List.length_map], ?_⟩
            rw [List.map_append, ← names]
            simp [Node.new]
          · rw [if_neg fits, if_neg fits]

/-- **Names in a session**: where all channels are opened by name, none begins a later one. -/
theorem pairwise_channelOpen2 (apart : channels.Pairwise fun x y => eqnText x.name y.name = false)
    (result : channelOpen2 (some chName) channels = .ok (before, cho, behind)) :
    (before ++ cho :: behind).Pairwise fun x y => eqnText x.name y.name = false := by
  rcases new_or_split chName channels with new | ⟨before', cho', behind', rfl, passed, here⟩
  · by_cases fits : NameFits chName
    case neg =>
      rw [channelOpen2_of_tight fits new] at result
      cases result
    rw [channelOpen2_of_new fits new] at result
    cases result
    rw [List.pairwise_append]
    refine ⟨apart, List.pairwise_singleton _ _, fun x member y single => ?_⟩
    rw [List.mem_singleton.mp single]
    exact new x member
  · rw [channelOpen2_of_split passed here] at result
    cases result
    exact apart

/-! ## The first loop -/

/-- The elements are the contents for the channels. -/
def IsContent (chan element : Node) : Prop :=
  ∃ transp tr, chan.child (lit "transport") = some transp ∧ transportCopy transp = .ok tr ∧
    element = content chan tr

theorem IsContent.named {element : Node} (isContent : IsContent chan element) :
    element.name = lit "content" ∧ element.aget (lit "name") = some chan.name := by
  rcases isContent with ⟨transp, tr, -, -, rfl⟩
  exact ⟨rfl, rfl⟩

/-- Opening a channel, on the names. -/
def openName (names : List Text) (name : Text) : List Text :=
  if names.any fun other => eqnText other name then names else names ++ [name]

theorem openName_of_new {names : List Text} {name : Text}
    (new : ∀ other ∈ names, eqnText other name = false) :
    openName names name = names ++ [name] := by
  have none : ¬(names.any fun other => eqnText other name) = true := by
    rw [List.any_eq_true]
    rintro ⟨other, member, found⟩
    rw [new other member] at found
    cases found
  exact if_neg none

/-- A turn of the first loop opens a channel under a name that nothing answers to, if it fits. -/
theorem openPending_cases {element : Node} (isContent : IsContent chan element)
    {channels' : List Node} {pending' : AttrList}
    (opened : openPending (channels, pending) element = .ok (channels', pending')) :
    channels'.map Node.name = openName (channels.map Node.name) chan.name ∧
      ((∀ y ∈ channels, eqnText y.name chan.name = false) →
        NameFits chan.name ∧ channels' = channels ++ [Node.new chan.name]) := by
  rw [openPending, isContent.named.2] at opened
  rcases new_or_split chan.name channels with new | ⟨before, cho, behind, rfl, passed, here⟩
  · by_cases fits : NameFits chan.name
    case neg =>
      rw [channelOpen2_of_tight fits new] at opened
      cases opened
    rw [channelOpen2_of_new fits new] at opened
    cases opened
    refine ⟨?_, fun _ => ⟨fits, rfl⟩⟩
    have new' : ∀ other ∈ channels.map Node.name, eqnText other chan.name = false := by
      intro other member
      rcases List.mem_map.mp member with ⟨y, inside, rfl⟩
      exact new y inside
    rw [openName_of_new new', List.map_append]
    rfl
  · rw [channelOpen2_of_split passed here] at opened
    cases opened
    refine ⟨?_, fun new => ?_⟩
    · refine (if_pos (List.any_eq_true.mpr ⟨cho.name, ?_, here⟩)).symm
      exact List.mem_map_of_mem (List.mem_append_right _ List.mem_cons_self)
    · have other := new cho (List.mem_append_right _ List.mem_cons_self)
      rw [here] at other
      cases other

theorem openPending_of_new {element : Node} (isContent : IsContent chan element)
    (fits : NameFits chan.name) (new : ∀ y ∈ channels, eqnText y.name chan.name = false)
    (pending : AttrList) : ∃ pending',
      openPending (channels, pending) element =
        .ok (channels ++ [Node.new chan.name], pending') := by
  rw [openPending, isContent.named.2, channelOpen2_of_new fits new]
  exact ⟨_, rfl⟩

/-- No channel answers to the name of a new one, or to that of a later one. -/
def Apart (channels chans : List Node) : Prop :=
  (∀ cho ∈ channels, ∀ chan ∈ chans, eqnText cho.name chan.name = false) ∧
    chans.Pairwise fun x y => eqnText x.name y.name = false

theorem apart_cons_iff : Apart channels (chan :: chans) ↔
    (∀ cho ∈ channels, eqnText cho.name chan.name = false) ∧
      ∀ cho, cho.name = chan.name → Apart (channels ++ [cho]) chans := by
  simp only [Apart, List.forall_mem_cons, List.pairwise_cons, List.forall_mem_append]
  constructor
  · rintro ⟨all, later, rest⟩
    refine ⟨fun cho member => (all cho member).1, fun cho same => ⟨⟨?_, ?_⟩, rest⟩⟩
    · exact fun cho' member => (all cho' member).2
    · refine ⟨?_, fun _ none => (List.not_mem_nil none).elim⟩
      rw [same]
      exact later
  · rintro ⟨first, rest⟩
    rcases rest chan rfl with ⟨⟨all, single, -⟩, pairwise⟩
    exact ⟨fun cho member => ⟨first cho member, all cho member⟩, single, pairwise⟩

/-- **The first loop**: it opens a channel for each name that nothing answers to. -/
theorem openPendings_cases (isContent : List.Forall₂ IsContent chans contents)
    {channels' : List Node} {pending' : AttrList}
    (ran : run openPending (channels, pending) contents = .ok (channels', pending')) :
    channels'.map Node.name = (chans.map Node.name).foldl openName (channels.map Node.name) ∧
      (Apart channels chans → (∀ chan ∈ chans, NameFits chan.name) ∧
        channels' = channels ++ chans.map fun chan => Node.new chan.name) := by
  induction isContent generalizing channels pending with
  | nil =>
      cases ran
      exact ⟨rfl, fun _ => ⟨fun _ none => (List.not_mem_nil none).elim, (List.append_nil _).symm⟩⟩
  | @cons chan element chans contents first rest ih =>
      rw [run_cons] at ran
      rcases bind_eq_ok_iff.mp ran with ⟨⟨channels₁, pending₁⟩, opened, later⟩
      rcases openPending_cases first opened with ⟨names, new⟩
      rcases ih later with ⟨names', new'⟩
      refine ⟨?_, fun apart => ?_⟩
      · rw [names', names, List.map_cons, List.foldl_cons]
      · rw [apart_cons_iff] at apart
        rcases new apart.1 with ⟨fits, rfl⟩
        rcases new' (apart.2 _ rfl) with ⟨all, rfl⟩
        refine ⟨List.forall_mem_cons.mpr ⟨fits, all⟩, ?_⟩
        rw [List.append_assoc]
        rfl

theorem openPendings_of_apart (isContent : List.Forall₂ IsContent chans contents)
    (apart : Apart channels chans) (fits : ∀ chan ∈ chans, NameFits chan.name)
    (pending : AttrList) : ∃ pending', run openPending (channels, pending) contents =
      .ok (channels ++ chans.map fun chan => Node.new chan.name, pending') := by
  induction isContent generalizing channels pending with
  | nil =>
      rw [List.map_nil, List.append_nil]
      exact ⟨pending, rfl⟩
  | @cons chan element chans contents first rest ih =>
      rw [apart_cons_iff] at apart
      rw [List.forall_mem_cons] at fits
      rcases openPending_of_new first fits.1 apart.1 pending with ⟨pending₁, opened⟩
      rcases ih (apart.2 (Node.new chan.name) rfl) fits.2 pending₁ with ⟨pending', later⟩
      refine ⟨pending', ?_⟩
      rw [run_cons, opened, ok_bind, later, List.append_assoc]
      rfl

/-! ## Names that are apart -/

theorem length_openName_le (names : List Text) (name : Text) :
    (openName names name).length ≤ names.length + 1 := by
  unfold openName
  split
  · exact Nat.le_succ _
  · rw [List.length_append, List.length_singleton]

theorem length_openNames_le (names new : List Text) :
    (new.foldl openName names).length ≤ names.length + new.length := by
  induction new generalizing names with
  | nil => exact le_rfl
  | cons name rest ih =>
      rw [List.foldl_cons, List.length_cons]
      have once := length_openName_le names name
      have later := ih (openName names name)
      omega

/-- The channels are as many as names only if the names are apart. -/
theorem apart_of_openNames (all : (chans.map Node.name).foldl openName (channels.map Node.name) =
    (channels ++ chans).map Node.name) : Apart channels chans := by
  induction chans generalizing channels with
  | nil => exact ⟨fun _ _ _ none => (List.not_mem_nil none).elim, List.Pairwise.nil⟩
  | cons chan rest ih =>
      rw [List.map_cons, List.foldl_cons] at all
      have new : ¬((channels.map Node.name).any fun other => eqnText other chan.name) = true := by
        intro found
        have bound := length_openNames_le (openName (channels.map Node.name) chan.name)
          (rest.map Node.name)
        rw [all, openName, if_pos found] at bound
        simp only [List.map_append, List.map_cons, List.length_append, List.length_cons,
          List.length_map] at bound
        omega
      rw [openName, if_neg new] at all
      rw [apart_cons_iff]
      refine ⟨fun cho member => ?_, fun cho same => ih ?_⟩
      · rw [List.any_eq_true] at new
        cases found : eqnText cho.name chan.name with
        | false => rfl
        | true => exact absurd ⟨cho.name, List.mem_map_of_mem member, found⟩ new
      · rw [List.map_append, List.map_singleton, same, all, List.map_append, List.map_append,
          List.map_append, List.map_cons, List.map_singleton, same, List.append_assoc]
        rfl

theorem answers_openNames (names new : List Text) :
    (∀ other ∈ names, other ∈ new.foldl openName names) ∧
      ∀ name ∈ new, ∃ other ∈ new.foldl openName names, eqnText other name = true := by
  induction new generalizing names with
  | nil => exact ⟨fun _ member => member, fun _ none => (List.not_mem_nil none).elim⟩
  | cons name rest ih =>
      have kept : ∀ other ∈ names, other ∈ openName names name := by
        intro other member
        unfold openName
        split
        · exact member
        · exact List.mem_append_left _ member
      have here : ∃ other ∈ openName names name, eqnText other name = true := by
        unfold openName
        split
        · next found => exact List.any_eq_true.mp found
        · exact ⟨name, List.mem_append_right _ List.mem_cons_self, eqnText_refl name⟩
      rcases ih (openName names name) with ⟨stays, answers⟩
      rw [List.foldl_cons]
      refine ⟨fun other member => stays other (kept other member), ?_⟩
      rw [List.forall_mem_cons]
      rcases here with ⟨other, member, found⟩
      exact ⟨⟨other, stays other member, found⟩, answers⟩

/-! ## The second loop -/

theorem names_of_takeContent {element : Node} (isContent : IsContent chan element)
    (answers : ∃ other ∈ channels.map Node.name, eqnText other chan.name = true)
    (result : takeContent c around channels element = .ok after) :
    after.map Node.name = channels.map Node.name := by
  rw [takeContent, isContent.named.2] at result
  rcases new_or_split chan.name channels with new | ⟨before, cho, behind, rfl, passed, here⟩
  · rcases answers with ⟨other, member, found⟩
    rcases List.mem_map.mp member with ⟨y, inside, rfl⟩
    rw [new y inside] at found
    cases found
  · rw [channelOpen2_of_split passed here, ok_bind] at result
    rcases bind_eq_ok_iff.mp result with ⟨cho', filled, same⟩
    cases same
    simp only [List.map_append, List.map_cons, name_of_fillChannel filled]

/-- The second loop opens nothing where the first has opened all. -/
theorem names_of_takeContents (isContent : List.Forall₂ IsContent chans contents)
    (answers : ∀ chan ∈ chans, ∃ other ∈ channels.map Node.name, eqnText other chan.name = true)
    (result : run (takeContent c around) channels contents = .ok after) :
    after.map Node.name = channels.map Node.name := by
  induction isContent generalizing channels with
  | nil =>
      cases result
      rfl
  | cons first rest ih =>
      rw [run_cons] at result
      rcases bind_eq_ok_iff.mp result with ⟨channels₁, took, ran⟩
      rw [List.forall_mem_cons] at answers
      have names := names_of_takeContent first answers.1 took
      rw [← names]
      refine ih ?_ ran
      rw [names]
      exact answers.2

/-- What becomes of a channel that is new. -/
def Fills (c : Config) (around : List AttrList) (chan cho : Node) : Prop :=
  ∃ transp tr, chan.child (lit "transport") = some transp ∧ transportCopy transp = .ok tr ∧
    fillChannel c around (Node.new chan.name) (content chan tr) = .ok cho

theorem takeContents_iff (isContent : List.Forall₂ IsContent chans contents)
    (apart : Apart done chans) :
    run (takeContent c around) (done ++ chans.map fun chan => Node.new chan.name) contents =
        .ok after ↔
      ∃ filled, after = done ++ filled ∧ List.Forall₂ (Fills c around) chans filled := by
  induction isContent generalizing done with
  | nil =>
      constructor
      · intro result
        cases result
        exact ⟨[], rfl, .nil⟩
      · rintro ⟨filled, rfl, fills⟩
        cases fills
        rfl
  | @cons chan element chans contents first rest ih =>
      rw [apart_cons_iff] at apart
      have opened : takeContent c around
          (done ++ Node.new chan.name :: chans.map fun chan => Node.new chan.name) element =
            (fillChannel c around (Node.new chan.name) element >>= fun cho =>
              .ok (done ++ cho :: chans.map fun chan => Node.new chan.name)) := by
        have here : eqnText (Node.new chan.name).name chan.name = true := eqnText_refl _
        rw [takeContent, first.named.2, channelOpen2_of_split apart.1 here]
        rfl
      rcases first with ⟨transp, tr, given, copied, rfl⟩
      rw [List.map_cons, run_cons, opened]
      cases filled : fillChannel c around (Node.new chan.name) (content chan tr) with
      | error fault =>
          constructor
          · intro result
            cases result
          · rintro ⟨all, -, fills⟩
            rcases List.forall₂_cons_left_iff.mp fills with
              ⟨_, _, ⟨transp', tr', given', copied', filled'⟩, -⟩
            cases given.symm.trans given'
            cases copied.symm.trans copied'
            cases filled.symm.trans filled'
      | ok cho =>
          have name := name_of_fillChannel filled
          change cho.name = chan.name at name
          have moved : done ++ cho :: chans.map (fun chan => Node.new chan.name) =
              (done ++ [cho]) ++ chans.map fun chan => Node.new chan.name := by
            rw [List.append_assoc]
            rfl
          rw [ok_bind, ok_bind, moved, ih (apart.2 cho name)]
          constructor
          · rintro ⟨all, rfl, fills⟩
            refine ⟨cho :: all, ?_, .cons ⟨transp, tr, given, copied, filled⟩ fills⟩
            rw [List.append_assoc]
            rfl
          · rintro ⟨all, rfl, fills⟩
            rcases List.forall₂_cons_left_iff.mp fills with
              ⟨_, rest, ⟨transp', tr', given', copied', filled'⟩, later, rfl⟩
            cases given.symm.trans given'
            cases copied.symm.trans copied'
            cases filled.symm.trans filled'
            refine ⟨rest, ?_, later⟩
            rw [List.append_assoc]
            rfl

/-- What exists for each member exists as a list. -/
theorem exists_forall₂ {α β : Type} {r : α → β → Prop} {l : List α}
    (each : ∀ a ∈ l, ∃ b, r a b) : ∃ l', List.Forall₂ r l l' := by
  induction l with
  | nil => exact ⟨[], .nil⟩
  | cons a rest ih =>
      rw [List.forall_mem_cons] at each
      rcases each.1 with ⟨b, here⟩
      rcases ih each.2 with ⟨l', all⟩
      exact ⟨b :: l', .cons here all⟩

/-! ## The negotiation -/

/-- The loop over the channels of a session adds a content for each. -/
theorem sendChannels_iff {msg msg' : Node}
    (transports : ∀ chan ∈ chans, (chan.named (lit "transport")).isSome = true) :
    run sendChannel msg chans = .ok msg' ↔ ∃ contents, List.Forall₂ IsContent chans contents ∧
      msg' = { msg with sons := msg.sons ++ contents } := by
  induction chans generalizing msg with
  | nil =>
      cases msg
      constructor
      · intro result
        cases result
        exact ⟨[], .nil, by rw [List.append_nil]⟩
      · rintro ⟨contents, all, rfl⟩
        cases all
        rw [List.append_nil]
        rfl
  | cons chan rest ih =>
      rw [List.forall_mem_cons] at transports
      rcases Option.isSome_iff_exists.mp (Node.child_isSome_of_named transports.1) with
        ⟨transp, given⟩
      rw [run_cons, sendChannel, given, bind_eq_ok_iff]
      constructor
      · rintro ⟨msg₁, first, later⟩
        rcases bind_eq_ok_iff.mp first with ⟨tr, copied, same⟩
        cases same
        rcases (ih transports.2).mp later with ⟨contents, all, rfl⟩
        refine ⟨content chan tr :: contents, .cons ⟨transp, tr, given, copied, rfl⟩ all, ?_⟩
        simp only [Node.append, List.append_assoc, List.singleton_append]
      · rintro ⟨contents, all, rfl⟩
        rcases List.forall₂_cons_left_iff.mp all with
          ⟨_, later, ⟨transp', tr, given', copied, rfl⟩, rest, rfl⟩
        cases given.symm.trans given'
        refine ⟨msg.append (content chan tr), ?_, (ih transports.2).mpr ⟨later, rest, ?_⟩⟩
        · dsimp only
          rw [copied]
          rfl
        · simp only [Node.append, List.append_assoc, List.singleton_append]

/-- The element for a session has a content for each channel. -/
theorem contents_of_sendInitiate {msg : Node}
    (transports : ∀ chan ∈ sess.sons, (chan.named (lit "transport")).isSome = true)
    (sent : sendInitiate o jid sess = .ok msg) :
    NameFits o.name ∧ List.Forall₂ IsContent sess.sons (msg.children (lit "content")) := by
  rcases bind_eq_ok_iff.mp sent with ⟨copy, copied, ran⟩
  rcases Node.copy_eq_ok_iff.mp copied with ⟨fits, rfl⟩
  rcases (sendChannels_iff transports).mp ran with ⟨contents, all, rfl⟩
  refine ⟨fits, ?_⟩
  rw [Node.children_eq]
  · exact all
  · intro x member
    rcases List.mem_iff_getElem.mp member with ⟨n, bound, rfl⟩
    have isContent := all.get (i := n) (by rw [all.length_eq]; exact bound) bound
    exact isContent.named.1

theorem exists_sendInitiate (o : Node) (jid : Option Text) (fits : NameFits o.name)
    (transports : ∀ chan ∈ sess.sons, (chan.named (lit "transport")).isSome = true)
    (copied : ∀ chan ∈ sess.sons, ∀ transp ∈ chan.child (lit "transport"), NameFits transp.name) :
    ∃ msg, sendInitiate o jid sess = .ok msg := by
  have each : ∀ chan ∈ sess.sons, ∃ element, IsContent chan element := by
    intro chan member
    rcases Option.isSome_iff_exists.mp (Node.child_isSome_of_named (transports chan member)) with
      ⟨transp, given⟩
    have copy := transportCopy_eq_ok_iff.mpr ⟨copied chan member transp given, rfl⟩
    exact ⟨_, transp, _, given, copy, rfl⟩
  rcases exists_forall₂ each with ⟨contents, all⟩
  rw [sendInitiate, Node.copy_eq_ok_iff.mpr ⟨fits, rfl⟩, ok_bind]
  exact ⟨_, (sendChannels_iff transports).mpr ⟨contents, all, rfl⟩⟩

/-- The negotiation: what the peer makes of the element for a session has, behind the channels that
it had, one for each of the session. -/
def Negotiates (c : Config) (outer : List AttrList) (o : Node) (jid : Option Text) (sess : Node)
    (peer : List Node) (pending : AttrList) : Prop :=
  ∃ msg after pending', sendInitiate o jid sess = .ok msg ∧
    onInitiate c outer (peer, pending) msg = .ok (after, pending') ∧
    ∃ new, after = peer ++ new ∧ List.Forall₂ Mirrors sess.sons new

/-- A channel gets through: its name and that of its transport are copied to blocks with room for
them, the payloads that the peer comes to can be added there, and those that it makes objects for
are those of the channel. -/
structure Survives (c : Config) (chan : Node) : Prop where
  name : NameFits chan.name
  transport : ∀ transp ∈ chan.child (lit "transport"), NameFits transp.name
  addable : ∀ tmp ∈ heard chan, Addable c tmp
  same : List.Forall₂ SamePublic (payloads chan) (passing c chan)

/-- **Payload negotiation survives** exactly if no name of a channel begins that of a later one and
each channel gets through, with its payloads found under its `out$media`. -/
theorem negotiates_iff_apart
    (transports : ∀ chan ∈ sess.sons, (chan.named (lit "transport")).isSome = true)
    (ids : ∀ chan ∈ sess.sons, ∀ tmp ∈ payloads chan, (tmp.aget (lit "id")).isSome = true) :
    Negotiates c outer o jid sess peer pending ↔
      NameFits o.name ∧ Apart peer sess.sons ∧ ∀ chan ∈ sess.sons, Survives c chan := by
  constructor
  · rintro ⟨msg, after, pending', sent, result, mirrored, rfl, mirrors⟩
    rcases contents_of_sendInitiate transports sent with ⟨fits, isContent⟩
    rcases bind_eq_ok_iff.mp result with ⟨⟨channels, pending₁⟩, opened, rest⟩
    rcases bind_eq_ok_iff.mp rest with ⟨_, ran, same⟩
    cases same
    rcases openPendings_cases isContent opened with ⟨names, new⟩
    have answers := (answers_openNames (peer.map Node.name) (sess.sons.map Node.name)).2
    rw [← names, List.forall_mem_map] at answers
    have kept := names_of_takeContents isContent answers ran
    have same : mirrored.map Node.name = sess.sons.map Node.name := by
      symm
      rw [← List.forall₂_eq_eq_eq, List.forall₂_map_left_iff, List.forall₂_map_right_iff]
      exact mirrors.imp fun _ _ mirrors => mirrors.name.symm
    have apart : Apart peer sess.sons := by
      apply apart_of_openNames
      rw [← names, ← kept, List.map_append, List.map_append, same]
    rcases new apart with ⟨named, rfl⟩
    rw [takeContents_iff isContent apart] at ran
    rcases ran with ⟨filled, same, fills⟩
    cases List.append_cancel_left same
    refine ⟨fits, apart, fun chan member => ?_⟩
    rcases List.mem_iff_getElem.mp member with ⟨n, bound, rfl⟩
    have bound' : n < mirrored.length := by
      rw [← mirrors.length_eq]
      exact bound
    rcases fills.get bound bound' with ⟨transp, tr, given, copied, result⟩
    rcases (fillChannel_mirrors_iff given copied (ids _ member)).mp
      ⟨_, result, mirrors.get bound bound'⟩ with ⟨addable, same⟩
    constructor
    case name => exact named _ member
    case transport =>
      intro transp' given'
      cases given.symm.trans given'
      exact (transportCopy_eq_ok_iff.mp copied).1
    case addable => exact addable
    case same => exact same
  · rintro ⟨fits, apart, all⟩
    rcases exists_sendInitiate o jid fits transports fun chan member =>
      (all chan member).transport with ⟨msg, sent⟩
    rcases contents_of_sendInitiate transports sent with ⟨-, isContent⟩
    rcases openPendings_of_apart isContent apart (fun chan member => (all chan member).name)
      pending with ⟨pending', opened⟩
    have each : ∀ chan ∈ sess.sons, ∃ cho,
        Fills c (msg.attrs.cells :: outer) chan cho ∧ Mirrors chan cho := by
      intro chan member
      have survives := all chan member
      rcases Option.isSome_iff_exists.mp (Node.child_isSome_of_named (transports chan member)) with
        ⟨transp, given⟩
      have copied := transportCopy_eq_ok_iff.mpr ⟨survives.transport transp given, rfl⟩
      rcases (fillChannel_mirrors_iff given copied (ids chan member)).mpr
        ⟨survives.addable, survives.same⟩ with ⟨cho, result, mirrors⟩
      exact ⟨cho, ⟨transp, _, given, copied, result⟩, mirrors⟩
    rcases exists_forall₂ each with ⟨filled, both⟩
    refine ⟨msg, peer ++ filled, pending', sent, ?_, filled, rfl, both.imp fun _ _ both => both.2⟩
    have ran := (takeContents_iff isContent apart).mpr
      ⟨filled, rfl, both.imp fun _ _ both => both.1⟩
    rw [onInitiate, opened, ok_bind]
    dsimp only
    rw [ran]
    rfl

/-- The condition on the payloads of a channel is met where the lookups find what has just the
name. -/
theorem samePublic_passing {transp : Node} (given : chan.child (lit "transport") = some transp)
    (shown : eqnText transp.name (lit "description") = false)
    (media : chan.child (lit "out$media") = chan.named (lit "out$media"))
    (registered : ∀ tmp ∈ payloads chan, known c tmp = true) :
    List.Forall₂ SamePublic (payloads chan) (passing c chan) := by
  have found : foundPayloads chan = payloads chan := by
    rw [foundPayloads, media]
    rfl
  have all : passing c chan = payloads chan := by
    rw [passing, heard, given]
    dsimp only
    rw [shown, if_neg Bool.false_ne_true, found]
    exact List.filter_eq_self.mpr registered
  rw [all, List.forall₂_same]
  exact fun _ _ _ _ => rfl

/-! ## Examples -/

/-- Everything is registered. -/
def registered : Config where
  icectl _ _ := true
  media _ _ := true
  random _ := []

/-- A payload as it is added to a channel. -/
def speex : Node :=
  (((((Node.new (lit "110")).aset (lit "id") (some (lit "110"))).aset (lit "name")
    (some (lit "SPEEX"))).aset (lit "$mode") (some (lit "out"))).aset (lit "clockrate")
      (some (lit "16000"))).aset (lit "quality") (some (lit "8"))

/-- A channel with a transport and payloads. -/
def channel (name : Text) (tmps : List Node) : Node :=
  ⟨name, .empty, [Node.new (lit "transport"), Node.new (lit "in$media"),
    ⟨lit "out$media", .empty, tmps⟩]⟩

/-- A session with channels. -/
def session (chans : List Node) : Node :=
  ⟨lit "__isession", .empty, chans⟩

/-- Two channels with names that are apart. -/
theorem negotiates_iff_apart_two :
    Negotiates registered [] (Node.new (lit "jingle")) none
      (session [channel (lit "m.A") [speex], channel (lit "m.V") []]) [] [] := by
  refine (negotiates_iff_apart ?_ ?_).mpr ⟨by decide, ⟨?_, ?_⟩, ?_⟩
  · intro chan member
    rcases List.mem_pair.mp member with rfl | rfl <;> rfl
  · intro chan member tmp inside
    rcases List.mem_pair.mp member with rfl | rfl
    · rw [List.mem_singleton.mp inside]
      rfl
    · cases inside
  · exact fun _ none => (List.not_mem_nil none).elim
  · exact List.pairwise_pair.mpr rfl
  · intro chan member
    rcases List.mem_pair.mp member with rfl | rfl
    · constructor
      case name => decide
      case transport =>
        rintro transp ⟨⟩
        decide
      case addable => decide +kernel
      case same =>
        refine samePublic_passing rfl rfl rfl fun tmp inside => ?_
        rw [List.mem_singleton.mp inside]
        rfl
    · constructor
      case name => decide
      case transport =>
        rintro transp ⟨⟩
        decide
      case addable => decide +kernel
      case same => exact samePublic_passing rfl rfl rfl fun tmp none => (List.not_mem_nil none).elim

/-- The peer takes the second channel for the first. -/
theorem not_negotiates_audio2 :
    (∀ chan ∈ [channel (lit "audio") [speex], channel (lit "audio2") [speex]],
      (chan.named (lit "transport")).isSome = true ∧ (chan.named (lit "out$media")).isSome = true ∧
        ∀ tmp ∈ payloads chan, (tmp.aget (lit "id")).isSome = true ∧
          (tmp.aget (lit "name")).isSome = true) ∧
      ¬Negotiates registered [] (Node.new (lit "jingle")) none
        (session [channel (lit "audio") [speex], channel (lit "audio2") [speex]]) [] [] := by
  constructor
  · intro chan member
    rcases List.mem_pair.mp member with rfl | rfl <;>
      exact ⟨rfl, rfl, fun tmp inside => by rw [List.mem_singleton.mp inside]; exact ⟨rfl, rfl⟩⟩
  · have merged : ∃ msg cho pending, sendInitiate (Node.new (lit "jingle")) none
        (session [channel (lit "audio") [speex], channel (lit "audio2") [speex]]) = .ok msg ∧
          onInitiate registered [] ([], []) msg = .ok ([cho], pending) :=
      ⟨_, _, _, rfl, rfl⟩
    rcases merged with ⟨msg, cho, pending, sent, merged⟩
    rintro ⟨msg', after, pending', sent', result, new, rfl, mirrors⟩
    cases sent.symm.trans sent'
    rw [merged] at result
    have same := congrArg (fun p => p.1.length) (Except.ok.inj result)
    have two := mirrors.length_eq
    simp only [session, List.length_cons, List.length_nil] at same two
    omega

end Xwbot.Jingle.Negotiation
