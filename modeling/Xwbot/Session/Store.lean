import Xwbot.Object.Heap

/-!
# The store of sessions

Below the bus there is one node for each remote peer, named after it, and below
such a node the sessions with that peer.  `Store` is this part of the tree as
lists.  Objects are looked up as `__x_object_get_child` does it: the first node
whose name begins the wanted one is taken.

A node keeps the pointer to its first session when that session is closed.  The
session stays where it is, and the others are lost.
-/

namespace Xwbot

/-- `JID_TO_SID_A` -/
def jidToSid (jid : Text) : Text :=
  (lit "msg_" ++ jid).map fun c => if c = ch '/' then ch '_' else c

/-- An `__isession` object, and the name of the node that it is appended to. -/
structure Session where
  addr : Nat
  peer : Text
  sid : Text
  remote : Text
  /-- The node is still its parent. -/
  linked : Bool
  deriving DecidableEq, Repr

/-- `session_equals`: neither the hints nor the session have an attribute `from`. -/
def sessionEquals (o : Session) (sid : Option Text) : Bool :=
  match sid with
  | some sid => eqText o.sid sid
  | none => false

/-- The nodes below `__sessions`, and the sessions, both in the order in which they were
appended. -/
structure Store where
  peers : List Text
  sessions : List Session
  deriving DecidableEq, Repr

namespace Store

/-- There is no session yet. -/
def empty : Store :=
  ⟨[], []⟩

/-- `_CHLD(_sesso, sbuf)` -/
def peerOf (s : Store) (jid : Text) : Option Text :=
  s.peers.find? fun name => eqnText name (jidToSid jid)

/-- The sessions below a node. -/
def below (s : Store) (peer : Text) : List Session :=
  s.sessions.filter (·.peer = peer)

/-- `x_session_find` at the node of a peer. -/
def lookup (s : Store) (jid : Text) (sid : Option Text) : Option Session :=
  (s.peerOf jid).bind fun peer => (s.below peer).find? (sessionEquals · sid)

/-- The node of the peer is there, or its name fits the block that it is copied to. -/
def Hosts (s : Store) (jid : Text) : Prop :=
  (s.peerOf jid).isSome = true ∨ NameFits (jidToSid jid)
deriving Decidable

/-- `x_session_open` when the node can be made.  A session that is created gets the address
`fresh`, and without an identifier in the hints a random one. -/
def xSessionOpen (s : Store) (jid : Text) (sid : Option Text) (creat : Bool) (random : Text)
    (fresh : Nat) : Store × Option Nat :=
  match s.lookup jid sid with
  | some xcs => (s, some xcs.addr)
  | none =>
      let peer := (s.peerOf jid).getD (jidToSid jid)
      let s := { s with peers := if (s.peerOf jid).isSome then s.peers else s.peers ++ [peer] }
      if creat then
        ({ s with sessions := s.sessions ++ [⟨fresh, peer, sid.getD random, jid, true⟩] },
          some fresh)
      else (s, none)

/-- `x_object_remove_from_parent` for a session. -/
def remove (s : Store) (xcs : Session) : Store :=
  if xcs.linked then
    if (s.below xcs.peer).head? = some xcs then
      { s with sessions := s.sessions.filter (·.peer ≠ xcs.peer) ++ [{ xcs with linked := false }] }
    else { s with sessions := s.sessions.erase xcs }
  else s

/-- `x_session_close`: the store, and the session that was destroyed. -/
def xSessionClose (s : Store) (jid : Text) (sid : Option Text) : Store × Option Nat :=
  match s.lookup jid sid with
  | some xcs => (s.remove xcs, some xcs.addr)
  | none => (s, none)

/-! ## Sessions below their nodes -/

/-- Every session is below a node that is there. -/
def Housed (s : Store) : Prop :=
  ∀ xcs ∈ s.sessions, xcs.peer ∈ s.peers

variable {s : Store} {jid jid' : Text} {sid sid' : Option Text} {creat : Bool} {random : Text}
  {fresh : Nat}

/-- The node that is wanted is not there. -/
theorem notMem_of_peerOf_eq_none (absent : s.peerOf jid = none) : jidToSid jid ∉ s.peers := by
  intro member
  have differs := List.find?_eq_none.mp absent (jidToSid jid) member
  exact differs (eqnText_refl _)

theorem mem_of_peerOf {peer : Text} (found : s.peerOf jid = some peer) : peer ∈ s.peers :=
  List.mem_of_find?_eq_some found

theorem mem_of_lookup {xcs : Session} (found : s.lookup jid sid = some xcs) :
    xcs ∈ s.sessions := by
  rcases Option.bind_eq_some_iff.mp found with ⟨peer, _, below⟩
  exact (List.mem_filter.mp (List.mem_of_find?_eq_some below)).1

theorem xSessionOpen_of_lookup {xcs : Session} (found : s.lookup jid sid = some xcs) :
    s.xSessionOpen jid sid creat random fresh = (s, some xcs.addr) := by
  simp [xSessionOpen, found]

/-- What is found does not depend on a node without sessions. -/
theorem lookup_append_peer (housed : s.Housed) (absent : s.peerOf jid = none) :
    ({ s with peers := s.peers ++ [jidToSid jid] } : Store).lookup jid' sid' =
      s.lookup jid' sid' := by
  have empty : s.below (jidToSid jid) = [] := by
    refine List.filter_eq_nil_iff.mpr fun xcs member same => ?_
    have below : xcs.peer = jidToSid jid := by simpa using same
    exact notMem_of_peerOf_eq_none absent (below ▸ housed xcs member)
  cases found : s.peerOf jid' with
  | some peer =>
      have found' : ({ s with peers := s.peers ++ [jidToSid jid] } : Store).peerOf jid' =
          some peer := by
        rw [peerOf] at found ⊢
        rw [List.find?_append, found]
        rfl
      rw [lookup, lookup, found, found']
      rfl
  | none =>
      have found' : ({ s with peers := s.peers ++ [jidToSid jid] } : Store).peerOf jid' =
          [jidToSid jid].find? fun name => eqnText name (jidToSid jid') := by
        rw [peerOf] at found ⊢
        rw [List.find?_append, found]
        rfl
      rw [lookup, lookup, found, found', List.find?_singleton]
      split
      · rw [Option.bind_some]
        exact congrArg (List.find? _) empty
      · rfl

/-- Opening without creating is seen by no later lookup. -/
theorem lookup_xSessionOpen_false (housed : s.Housed) :
    (s.xSessionOpen jid sid false random fresh).1.lookup jid' sid' = s.lookup jid' sid' := by
  cases found : s.lookup jid sid with
  | some xcs => rw [xSessionOpen_of_lookup found]
  | none =>
      cases node : s.peerOf jid with
      | some peer => simp [xSessionOpen, found, node]
      | none =>
          simp only [xSessionOpen, found, node]
          exact lookup_append_peer housed node

theorem xSessionOpen_false_snd :
    (s.xSessionOpen jid sid false random fresh).2 = (s.lookup jid sid).map Session.addr := by
  cases found : s.lookup jid sid with
  | some xcs => rw [xSessionOpen_of_lookup found]; rfl
  | none => simp [xSessionOpen, found]

theorem housed_xSessionOpen (housed : s.Housed) :
    (s.xSessionOpen jid sid creat random fresh).1.Housed := by
  have grown : ∀ peer ∈ s.peers, peer ∈
      (if (s.peerOf jid).isSome then s.peers else s.peers ++
        [(s.peerOf jid).getD (jidToSid jid)]) := by
    intro peer member
    split
    · exact member
    · exact List.mem_append_left _ member
  have node : (s.peerOf jid).getD (jidToSid jid) ∈
      (if (s.peerOf jid).isSome then s.peers else s.peers ++
        [(s.peerOf jid).getD (jidToSid jid)]) := by
    cases found : s.peerOf jid with
    | some peer => exact mem_of_peerOf found
    | none => exact List.mem_append_right _ List.mem_cons_self
  cases found : s.lookup jid sid with
  | some xcs =>
      rw [xSessionOpen_of_lookup found]
      exact housed
  | none =>
      simp only [xSessionOpen, found]
      cases creat with
      | false => exact fun xcs member => grown _ (housed xcs member)
      | true =>
          intro xcs member
          rcases List.mem_append.mp member with old | new
          · exact grown _ (housed xcs old)
          · rw [List.mem_singleton.mp new]
            exact node

/-- What opening without creating keeps of a store, besides nodes that are made. -/
structure Kept (s s' : Store) : Prop where
  housed : s'.Housed
  sessions : s'.sessions = s.sessions
  lookup : ∀ jid sid, s'.lookup jid sid = s.lookup jid sid
  nodes : ∀ jid, (s.peerOf jid).isSome = true → (s'.peerOf jid).isSome = true

theorem Kept.refl (housed : s.Housed) : s.Kept s :=
  ⟨housed, rfl, fun _ _ => rfl, fun _ => id⟩

theorem Kept.trans {s' s'' : Store} (first : s.Kept s') (second : s'.Kept s'') : s.Kept s'' where
  housed := second.housed
  sessions := second.sessions.trans first.sessions
  lookup jid sid := (second.lookup jid sid).trans (first.lookup jid sid)
  nodes jid := second.nodes jid ∘ first.nodes jid

theorem kept_xSessionOpen (housed : s.Housed) :
    s.Kept (s.xSessionOpen jid sid false random fresh).1 := by
  refine ⟨housed_xSessionOpen housed, ?_, fun _ _ => lookup_xSessionOpen_false housed,
    fun jid' => ?_⟩
  · cases found : s.lookup jid sid with
    | some xcs => rw [xSessionOpen_of_lookup found]
    | none => simp [xSessionOpen, found]
  · intro node
    cases found : s.lookup jid sid with
    | some xcs =>
        rw [xSessionOpen_of_lookup found]
        exact node
    | none =>
        have longer : ∀ more, ((s.peers ++ more).find? fun name =>
            eqnText name (jidToSid jid')).isSome = true := by
          intro more
          rw [List.find?_append, Option.isSome_or]
          exact Bool.or_eq_true_iff.mpr (.inl node)
        rw [xSessionOpen, found]
        cases s.peerOf jid with
        | some peer => exact node
        | none => exact longer _

/-! ## Names up to letter case -/

theorem eqText_trans {s₁ s₂ s₃ : Text} (first : eqText s₁ s₂ = true)
    (second : eqText s₂ s₃ = true) :
    eqText s₁ s₃ = true := by
  simp only [eqText, decide_eq_true_eq] at first second ⊢
  exact first.trans second

theorem toLower_jidToSid (jid : Text) : (jidToSid jid).map toLower =
    (lit "msg_" ++ jid.map toLower).map fun c => if c = ch '/' then ch '_' else c := by
  have commutes : ∀ c : Byte, toLower (if c = ch '/' then ch '_' else c) =
      if toLower c = ch '/' then ch '_' else toLower c := by
    decide +kernel
  rw [jidToSid, List.map_append, List.map_append, List.map_append, List.map_map, List.map_map,
    List.map_map]
  refine congrArg₂ _ (by decide +kernel) (List.map_congr_left fun c _ => commutes c)

/-- Nodes are found by names up to letter case. -/
theorem peerOf_congr (same : eqText jid jid' = true) : s.peerOf jid = s.peerOf jid' := by
  have lower : (jidToSid jid).map toLower = (jidToSid jid').map toLower := by
    rw [toLower_jidToSid, toLower_jidToSid, (by simpa [eqText] using same : jid.map toLower = _)]
  rw [peerOf, peerOf]
  congr 1
  funext name
  simp only [eqnText, List.map_take, lower]

theorem lookup_congr {id id' : Text} (same : eqText jid jid' = true)
    (same' : eqText id id' = true) :
    s.lookup jid (some id) = s.lookup jid' (some id') := by
  rw [lookup, lookup, peerOf_congr same]
  congr 1
  funext peer
  congr 1
  funext o
  rw [sessionEquals, sessionEquals, Bool.eq_iff_iff]
  exact ⟨fun h => eqText_trans h same', fun h => eqText_trans h (eqText_symm same')⟩

end Store

end Xwbot
