import Xwbot.Ice.Checks

/-!
# Where media goes

Media goes to the pair that was remembered at the first response.  The scan
that would look for the port of the media among the pairs comes too late: the
pair is remembered together with the flag, whichever port answered first.
-/

namespace Xwbot.Ice

open Runs IoStream

variable {p : Platform} {ice ice' : IoStream} {e : Event} {out : List Output}
  {past : List (Event × List Output)} {o : Observed} {attrs : AttrList} {i : Nat}

/-- The first response to any check comes from an even port. -/
def EvenFirst (o : Observed) (e : Event) : Prop :=
  ∀ ctl r, e = .channelEvent ctl r → r.IsResponse → rtpSucceeded o.ice = false →
    (awaiting o.ice r.peer).isSome → r.peer.port &&& 1 = 0

/-- Media without the type `control` goes to an even port, that of a pair that succeeded. -/
def Directs (e : Event) (ice' : IoStream) (out : List Output) : Prop :=
  ∀ buf attr, e = .tryWrite buf attr → isControl attr = false →
    ∀ sock raddr hdr payload, .rtp sock raddr hdr payload ∈ out →
      ∃ pair ∈ ice'.cPairs.items, pair.state = .succeeded ∧ pair.remote.addr = raddr ∧
        raddr.port &&& 1 = 0

/-- Whether an output is media for an address. -/
def Output.goesTo (addr : SockAddr) : Output → Bool
  | .rtp _ raddr _ _ => raddr = addr
  | _ => false

/-- The remembered pair has an even port. -/
def RemembersEven (ice : IoStream) : Prop :=
  ∀ pair, (ice.cPairLastSuccess.bind fun i => ice.cPairs.items[i]?) = some pair →
    pair.remote.addr.port &&& 1 = 0

theorem remembersEven_handle (checked : Checked o.ice o.past) (even : RemembersEven o.ice)
    (evenFirst : EvenFirst o e) (result : handle p o.ice e = .ok (ice', out)) :
    RemembersEven ice' := by
  rcases handle_moves checked result with ⟨moves, checked'⟩
  intro pair remembered
  rcases Option.bind_eq_some_iff.mp remembered with ⟨i, last, here⟩
  cases before : rtpSucceeded o.ice with
  | true =>
      -- what was remembered stays
      rcases checked.flag before with ⟨j, pair', last', here', -⟩
      have same := (moves.flag before).2
      rw [last, last'] at same
      cases same
      rcases moves.kept i pair' here' with ⟨pair'', here'', -, remote, -⟩
      cases here.symm.trans here''
      rw [remote]
      exact even pair' (by rw [last']; exact here')
  | false =>
      cases after : rtpSucceeded ice' with
      | false =>
          rw [checked'.idle after] at last
          cases last
      | true =>
          -- the pair was remembered just now
          rcases checked'.flag after with ⟨j, pair', last', here', state⟩
          cases last.symm.trans last'
          cases here.symm.trans here'
          rcases succeeded_of_handle checked result here state with
            ⟨pair', there, already⟩ | ⟨ctl, r, rfl, response, found, addr⟩
          · rw [checked.first pair' (List.mem_of_getElem? there) already] at before
            cases before
          · rw [addr]
            exact evenFirst ctl r rfl response before (by rw [found]; rfl)

theorem directs_of_remembersEven (checked : Checked ice past) (even : RemembersEven ice)
    (result : handle p ice e = .ok (ice', out)) : Directs e ice' out := by
  rintro buf attr rfl - sock raddr hdr payload member
  have written : tryWrite ice buf attr = .ok (ice', out) := result
  rw [tryWrite_eq checked] at written
  split at written
  · cases written
    cases member
  · rename_i pair remembered
    split at written
    · cases written
    · rcases bind_eq_ok_iff.mp written with ⟨rtp, -, sent⟩
      cases sent
      cases List.mem_singleton.mp member
      rcases Option.bind_eq_some_iff.mp remembered with ⟨i, last, here⟩
      refine ⟨pair, List.mem_of_getElem? here, ?_, rfl, even pair remembered⟩
      cases flag : rtpSucceeded ice with
      | false =>
          rw [checked.idle flag] at last
          cases last
      | true =>
          rcases checked.flag flag with ⟨j, pair', last', here', state⟩
          cases last.symm.trans last'
          cases here.symm.trans here'
          exact state

/-- **Destination of media.**  In a run in which the first response comes from an even port,
all media that is not control goes to an even port of a pair that succeeded. -/
theorem along_directs {sockv4 sockv4Ctl : Nat} {events : List Event}
    (along : Along (observe p) (fun o e => Handleable p o.ice e ∧ EvenFirst o e)
      (Observed.fresh attrs sockv4 sockv4Ctl) events) :
    Along (observe p)
      (fun o e => ∃ ice' out, handle p o.ice e = .ok (ice', out) ∧ Directs e ice' out)
      (Observed.fresh attrs sockv4 sockv4Ctl) events := by
  refine along.imp (fun o => Checked o.ice o.past ∧ RemembersEven o.ice) ?_ ?_ ?_
  · rintro o e o' ⟨checked, even⟩ ⟨-, evenFirst⟩ result
    rcases map_eq_ok_iff.mp result with ⟨⟨ice', out⟩, handled, rfl⟩
    exact ⟨(handle_moves checked handled).2,
      remembersEven_handle checked even evenFirst handled⟩
  · rintro o e ⟨checked, even⟩ ⟨handleable, -⟩
    rcases (handle_succeeds_iff checked).mpr handleable with ⟨⟨ice', out⟩, result⟩
    exact ⟨ice', out, result, directs_of_remembersEven checked even result⟩
  · refine ⟨checked_created attrs sockv4 sockv4Ctl, ?_⟩
    intro pair remembered
    cases remembered

/-- Media of payload type 96. -/
def media : Event :=
  .tryWrite [1, 2, 3] (some [(lit "pt", lit "96")])

/-- The port of the media answers, and media is written. -/
theorem along_directs_even : Along (observe host)
    (fun o e => ∃ ice' out, handle host o.ice e = .ok (ice', out) ∧ Directs e ice' out)
    (Observed.fresh credentials 5 6)
    (exchange "5000" ++ [.channelEvent false (response 5000), media]) := by
  apply along_directs
  have succeeds : Succeeds (run (observe host) (Observed.fresh credentials 5 6)
      (exchange "5000" ++ [.channelEvent false (response 5000), media])) := by
    decide +kernel
  have handled := (succeeds_run_iff (fun _ _ _ checked => checked_observe checked)
    (fun o e checked => succeeds_observe_iff checked)
    (checked_created credentials 5 6)).mp succeeds
  have even : ∀ e ∈ exchange "5000" ++ [.channelEvent false (response 5000), media],
      ∀ o, EvenFirst o e := by
    rintro e member o ctl r rfl - - -
    rcases List.mem_append.mp member with before | behind
    · simp only [exchange, appended, List.mem_cons, reduceCtorEq, List.not_mem_nil, or_self]
        at before
    · rcases List.mem_cons.mp behind with same | written
      · rw [(Event.channelEvent.inj same).2]
        decide
      · cases List.mem_singleton.mp written
  apply along_iff.mpr
  intro before e behind split o reached
  refine ⟨along_iff.mp handled before e behind split o reached, even e ?_ o⟩
  rw [split]
  exact List.mem_append_right _ List.mem_cons_self

/-- The control port answers a check. -/
def controlFirst : List Event :=
  exchange "5001" ++ [.channelEvent true (response 5001)]

/-- The port that answered first gets the media, and it is the control port. -/
theorem not_along_directs_control :
    ¬Along (observe host)
      (fun o e => ∃ ice' out, handle host o.ice e = .ok (ice', out) ∧ Directs e ice' out)
      (Observed.fresh credentials 5 6) (controlFirst ++ [media]) := by
  intro along
  have written : ∃ o, run (observe host) (Observed.fresh credentials 5 6) controlFirst = .ok o ∧
      Lands (fun result => ∃ sent ∈ result.2, sent.goesTo ⟨5001, 0x0A000001⟩ = true)
        (fun _ => False) (handle host o.ice media) := by
    rw [← lands_false_iff]
    decide +kernel
  rcases written with ⟨o, reached, here⟩
  rcases lands_false_iff.mp here with ⟨result, handled, sent, member, goes⟩
  rcases along_iff.mp along controlFirst media [] rfl o reached with ⟨ice', out, handled', directs⟩
  cases handled.symm.trans handled'
  cases sent with
  | rtp sock raddr hdr payload =>
      rcases directs _ _ rfl (by decide) sock raddr hdr payload member with ⟨pair, -, -, -, even⟩
      rw [of_decide_eq_true goes] at even
      revert even
      decide
  | _ => cases goes

end Xwbot.Ice
