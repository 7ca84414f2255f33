import Xwbot.Object.PathText
import Xwbot.Object.PathTree
import Xwbot.Runs

/-!
# Presence notifications

`presence_exit` announces a contact when its JID is not to be found below the presence entry, and
then makes the path that it has looked for.  A stored JID stands for every JID whose components it
begins, and a JID with a delimiter that only the lookup knows is never found.
-/

namespace Xwbot

open Heap Links Runs

/-- A presence stanza as `presence_exit` gets it: the attribute `from`, and what the memory behind
its copies holds. -/
structure Presence where
  mem : Memory
  fromJid : Option Text
  noNul : ∀ jid, fromJid = some jid → 0 ∉ jid

/-- What became of a stanza. -/
structure Notice where
  fromJid : Option Text
  /-- A `presence-update` was multicast. -/
  multicast : Bool
  deriving DecidableEq, Repr

namespace Presence

/-- `presence_exit`, with `proc_presence_entry` and the answer whether it has sent the message. -/
def presenceExit (procPresenceEntry : Addr) (h : Heap) (stanza : Presence) :
    Except Fault (Heap × Bool) :=
  match stanza.fromJid with
  | none => .ok (h, false)
  | some jid => do
      let (obj, _) ← h.fromPath stanza.mem procPresenceEntry jid
      if procPresenceEntry = obj then
        let (h, _, _) ← h.mkpath stanza.mem procPresenceEntry jid
        .ok (h, true)
      else .ok (h, false)

/-- The tree, and the stanzas so far, newest first. -/
structure State where
  heap : Heap
  log : List Notice

/-- The end of a stanza. -/
def step (procPresenceEntry : Addr) (s : State) (stanza : Presence) : Except Fault State := do
  let (h, multicast) ← presenceExit procPresenceEntry s.heap stanza
  .ok ⟨h, ⟨stanza.fromJid, multicast⟩ :: s.log⟩

/-- A stanza with this JID is in the log. -/
def Seen (jid : Text) (log : List Notice) : Prop :=
  ∃ notice ∈ log, notice.fromJid = some jid

instance (jid : Text) (log : List Notice) : Decidable (Seen jid log) :=
  inferInstanceAs (Decidable (∃ notice ∈ log, notice.fromJid = some jid))

/-- A contact is announced with its first stanza, and only then. -/
def OncePerContact : List Notice → Prop
  | [] => True
  | notice :: log => (notice.multicast = true ↔ ∃ jid, notice.fromJid = some jid ∧ ¬Seen jid log) ∧
      OncePerContact log

/-- The stored names do not stand in the way: a JID that was seen is looked for by the components
that were made for it, at least one, and for one that was not seen there is no chain of names
that begin its components, and the names that it needs have room. -/
def Apart (procPresenceEntry : Addr) (s : State) (stanza : Presence) : Prop :=
  ∀ jid, stanza.fromJid = some jid →
    if Seen jid s.log then steps isSep jid ≠ [] ∧ lookups stanza.mem jid = steps isSep jid
    else (lookups stanza.mem jid = [] ∨
        ∀ n, ¬Leads s.heap procPresenceEntry (lookups stanza.mem jid) n) ∧
      s.heap.Roomy procPresenceEntry (steps isSep jid)

/-- What the stanzas so far have left. -/
structure Kept (procPresenceEntry : Addr) (s : State) : Prop where
  orderly : ∃ kids, s.heap.Orderly kids
  ancestry : ∃ above, s.heap.Ancestry procPresenceEntry above
  remembered : ∀ jid, Seen jid s.log →
    ∃ n, Leads s.heap procPresenceEntry (steps isSep jid) n
  once : OncePerContact s.log

variable {procPresenceEntry : Addr} {s s' : State} {stanza : Presence} {h h' : Heap}
  {kids kids' : Kids} {jid : Text} {above : List Addr}

theorem seen_cons {notice : Notice} {log : List Notice} :
    Seen jid (notice :: log) ↔ notice.fromJid = some jid ∨ Seen jid log := by
  simp [Seen]

/-- The objects around the entry are the same when others are added. -/
theorem ancestry_of_grew (grew : Grew h kids h' kids')
    (ancestry : h.Ancestry procPresenceEntry above) : h'.Ancestry procPresenceEntry above where
  path := ancestry.path.congr fun x member => grew.parent x (ancestry.alive x member)
  alive x member := grew.live x (ancestry.alive x member)

/-- **One stanza.** -/
theorem Kept.step (kept : Kept procPresenceEntry s) (apart : Apart procPresenceEntry s stanza) :
    Lands (Kept procPresenceEntry) (fun _ => False) (step procPresenceEntry s stanza) := by
  rcases kept with ⟨⟨kids, orderly⟩, ⟨above, ancestry⟩, remembered, once⟩
  have alive := ancestry.alive procPresenceEntry List.mem_cons_self
  unfold Presence.step presenceExit
  cases sender : stanza.fromJid with
  | none =>
      refine ⟨⟨kids, orderly⟩, ⟨above, ancestry⟩, fun jid seen => ?_, ?_, once⟩
      · rcases seen_cons.mp seen with same | before
        · cases same
        · exact remembered jid before
      · simp
  | some jid =>
      have noNul := stanza.noNul jid sender
      have here := apart jid sender
      rcases orderly.fromPath alive ancestry.path stanza.mem noNul with
        ⟨obj, touched, looked, returns⟩
      simp only [looked, ok_bind]
      by_cases seen : Seen jid s.log
      · -- the path was made with the first stanza, and is found again
        rw [if_pos seen] at here
        rcases remembered jid seen with ⟨n, leads⟩
        have found : procPresenceEntry ≠ obj := by
          rintro rfl
          rcases returns.mp rfl with nothing | nowhere
          · exact here.1 (here.2 ▸ nothing)
          · exact nowhere n (here.2 ▸ leads)
        rw [if_neg found]
        refine ⟨⟨kids, orderly⟩, ⟨above, ancestry⟩, fun jid' seen' => ?_, ?_, once⟩
        · rcases seen_cons.mp seen' with same | before
          · cases same
            exact ⟨n, leads⟩
          · exact remembered jid' before
        · simp [seen]
      · rw [if_neg seen] at here
        rw [if_pos (returns.mpr here.1).symm]
        rcases orderly.mkpath alive stanza.mem noNul here.2 with
          ⟨h', n, touched', kids', made, orderly', grew, leads⟩
        simp only [made, ok_bind]
        refine ⟨⟨kids', orderly'⟩, ⟨above, ancestry_of_grew grew ancestry⟩, fun jid' seen' => ?_,
          ?_, once⟩
        · rcases seen_cons.mp seen' with same | before
          · cases same
            exact ⟨n, leads⟩
          · rcases remembered jid' before with ⟨n', leads'⟩
            exact ⟨n', leads'.grew grew orderly orderly' alive⟩
        · simp [seen]

end Presence

end Xwbot
