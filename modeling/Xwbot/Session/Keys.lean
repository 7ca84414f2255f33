import Xwbot.Runs
import Xwbot.Session.Store

/-!
# The store as a map

`x_session_open` and `x_session_close` are meant to work on a map from pairs of a
remote JID and an identifier to sessions.  What such a map holds for a pair is told
by the calls so far: the last call that opened or closed the pair decides.  The store
looks its nodes and sessions up by weaker comparisons than equality.
-/

namespace Xwbot

open Runs

/-- A call, with the value of `rand` that it would use. -/
inductive SessionCall where
  | xSessionOpen (jidRemote : Text) (sid : Option Text) (creat : Bool) (random : Text)
  | xSessionClose (jidRemote : Text) (sid : Option Text)
  deriving DecidableEq, Repr

namespace SessionCall

/-- The argument `jid_remote`. -/
def jid : SessionCall → Text
  | xSessionOpen jidRemote _ _ _ => jidRemote
  | xSessionClose jidRemote _ => jidRemote

/-- The `sid` of the hints. -/
def sid : SessionCall → Option Text
  | xSessionOpen _ sid _ _ => sid
  | xSessionClose _ sid => sid

/-- The call makes a session if it finds none. -/
def creates : SessionCall → Bool
  | xSessionOpen _ _ creat _ => creat
  | xSessionClose _ _ => false

/-- The call closes the session it finds. -/
def closes : SessionCall → Bool
  | xSessionOpen _ _ _ _ => false
  | xSessionClose _ _ => true

end SessionCall

/-- The store, the next address, and the calls so far with the sessions that they returned or
closed, newest first. -/
structure Calls where
  store : Store
  top : Nat
  history : List (SessionCall × Option Nat)
  deriving DecidableEq, Repr

namespace Calls

/-- No call was made. -/
def start : Calls where
  store := .empty
  top := 0
  history := []

/-- What a call does to the store, and the session it returns or closes. -/
def effect (s : Calls) : SessionCall → Store × Option Nat
  | .xSessionOpen jid sid creat random => s.store.xSessionOpen jid sid creat random s.top
  | .xSessionClose jid sid => s.store.xSessionClose jid sid

/-- A call that opens a session needs a node for its peer, and may have to make it. -/
def Hosts (s : Calls) : SessionCall → Prop
  | .xSessionOpen jid _ _ _ => s.store.Hosts jid
  | .xSessionClose _ _ => True

instance decidableHosts (s : Calls) : (c : SessionCall) → Decidable (s.Hosts c)
  | .xSessionOpen jid _ _ _ => inferInstanceAs (Decidable (s.store.Hosts jid))
  | .xSessionClose _ _ => .isTrue trivial

/-- One call. -/
def step (s : Calls) (c : SessionCall) : Except Fault Calls :=
  if s.Hosts c then .ok ⟨(s.effect c).1, s.top + 1, (c, (s.effect c).2) :: s.history⟩
  else .error .overflow

end Calls

/-! ## The map -/

/-- The session that is open for a pair: the last call with `X_CREAT` or the last close for
this very pair decides. -/
def openFor (jid : Text) (sid : Option Text) : List (SessionCall × Option Nat) → Option Nat
  | [] => none
  | (c, result) :: rest =>
      if c.jid = jid ∧ c.sid = sid then
        if c.closes then none else if c.creates then result else openFor jid sid rest
      else openFor jid sid rest

/-- What a call is to return. -/
def expected (s : Calls) (c : SessionCall) : Option Nat :=
  match openFor c.jid c.sid s.history with
  | some a => some a
  | none => if c.creates then some s.top else none

/-- A call acts on the map: it returns, and returns what the map has for its pair, it does not
touch the sessions of other JIDs, and no pair has two sessions. -/
structure Keyed (s : Calls) (c : SessionCall) : Prop where
  returns : (Calls.step s c).isOk = true
  result : (s.effect c).2 = expected s c
  others : ∀ x : Session, x.remote ≠ c.jid → (x ∈ (s.effect c).1.sessions ↔ x ∈ s.store.sessions)
  single : ∀ x ∈ (s.effect c).1.sessions, ∀ y ∈ (s.effect c).1.sessions,
    x.remote = y.remote → x.sid = y.sid → x = y

/-- The pair of a call is told apart from the other pairs: below the node that is found for its
JID, only a session of the same pair has its identifier, up to letter case.  A session is
created with an identifier in the hints, and a session that is closed is not the oldest one
below its node.  A node that has to be made has a name that fits its block. -/
structure Apart (s : Calls) (c : SessionCall) : Prop where
  hosts : s.Hosts c
  pair : ∀ x ∈ s.store.sessions, s.store.peerOf c.jid = some x.peer →
    sessionEquals x c.sid = true → x.remote = c.jid ∧ some x.sid = c.sid
  named : c.creates = true → c.sid ≠ none
  behind : c.closes = true → ∀ peer x, s.store.peerOf c.jid = some peer →
    (s.store.below peer).head? = some x → sessionEquals x c.sid = false

namespace Calls

/-- The sessions of the store are those of the map. -/
structure Sorted (s : Calls) : Prop where
  housed : ∀ x ∈ s.store.sessions, s.store.peerOf x.remote = some x.peer
  linked : ∀ x ∈ s.store.sessions, x.linked = true
  single : ∀ x ∈ s.store.sessions, ∀ y ∈ s.store.sessions,
    x.remote = y.remote → x.sid = y.sid → x = y
  nodup : s.store.sessions.Nodup
  mapped : ∀ jid sid a, openFor jid (some sid) s.history = some a ↔
    ∃ x ∈ s.store.sessions, x.remote = jid ∧ x.sid = sid ∧ x.addr = a
  unnamed : ∀ jid, openFor jid none s.history = none

variable {s : Calls} {c : SessionCall}

theorem sorted_start : start.Sorted where
  housed _ member := by cases member
  linked _ member := by cases member
  single _ member := by cases member
  nodup := List.nodup_nil
  mapped _ _ _ := by simp [start, openFor, Store.empty]
  unnamed _ := rfl

/-- The session of a pair, as the store finds it. -/
theorem Sorted.lookup_eq_some_iff (sorted : s.Sorted) (apart : Apart s c) {x : Session} :
    s.store.lookup c.jid c.sid = some x ↔
      x ∈ s.store.sessions ∧ x.remote = c.jid ∧ some x.sid = c.sid := by
  constructor
  · intro found
    rcases Option.bind_eq_some_iff.mp found with ⟨peer, node, below⟩
    rcases List.mem_filter.mp (List.mem_of_find?_eq_some below) with ⟨member, same⟩
    have here : x.peer = peer := of_decide_eq_true same
    have equals := List.find?_some below
    exact ⟨member, apart.pair x member (by rw [node, here]) equals⟩
  · rintro ⟨member, remote, named⟩
    have node := sorted.housed x member
    rw [remote] at node
    have equals : sessionEquals x c.sid = true := by
      rw [← named]
      exact eqText_refl x.sid
    rw [Store.lookup, node, Option.bind_some]
    cases found : (s.store.below x.peer).find? (sessionEquals · c.sid) with
    | none =>
        have differs := List.find?_eq_none.mp found x
          (List.mem_filter.mpr ⟨member, decide_eq_true rfl⟩)
        exact absurd equals differs
    | some y =>
        rcases List.mem_filter.mp (List.mem_of_find?_eq_some found) with ⟨memberY, same⟩
        have hereY : y.peer = x.peer := of_decide_eq_true same
        have equalsY := List.find?_some found
        rcases apart.pair y memberY (by rw [node, hereY]) equalsY with ⟨remoteY, namedY⟩
        have sid_eq : y.sid = x.sid := Option.some.inj (namedY.trans named.symm)
        rw [sorted.single y memberY x member (remoteY.trans remote.symm) sid_eq]

/-- The map and the store find the same. -/
theorem Sorted.openFor_eq (sorted : s.Sorted) (apart : Apart s c) :
    openFor c.jid c.sid s.history = (s.store.lookup c.jid c.sid).map Session.addr := by
  cases sid_eq : c.sid with
  | none =>
      rw [sorted.unnamed, ← sid_eq]
      cases found : s.store.lookup c.jid c.sid with
      | none => rfl
      | some x =>
          have named := ((sorted.lookup_eq_some_iff apart).mp found).2.2
          rw [sid_eq] at named
          cases named
  | some sid =>
      rw [← sid_eq]
      apply Option.ext
      intro a
      rw [Option.map_eq_some_iff]
      constructor
      · intro opened
        rw [sid_eq] at opened
        rcases (sorted.mapped c.jid sid a).mp opened with ⟨x, member, remote, named, addr⟩
        refine ⟨x, ?_, addr⟩
        rw [sorted.lookup_eq_some_iff apart, sid_eq, named]
        exact ⟨member, remote, rfl⟩
      · rintro ⟨x, found, addr⟩
        rcases (sorted.lookup_eq_some_iff apart).mp found with ⟨member, remote, named⟩
        rw [sid_eq] at named ⊢
        exact (sorted.mapped c.jid sid a).mpr ⟨x, member, remote, Option.some.inj named, addr⟩

/-- Nodes are found as before. -/
def Keeps (store store' : Store) : Prop :=
  ∀ jid peer, store.peerOf jid = some peer → store'.peerOf jid = some peer

/-- What a call can do to a store. -/
inductive Does (s : Calls) (c : SessionCall) : Store × Option Nat → Prop where
  | found (store : Store) (nodes : Keeps s.store store)
      (same : store.sessions = s.store.sessions) (quiet : c.closes = true →
        openFor c.jid c.sid s.history = none) :
      (openFor c.jid c.sid s.history = none → c.creates = false) →
      Does s c (store, openFor c.jid c.sid s.history)
  | created (store : Store) (x : Session) (nodes : Keeps s.store store)
      (node : store.peerOf c.jid = some x.peer) (added : store.sessions = s.store.sessions ++ [x])
      (addr : x.addr = s.top) (remote : x.remote = c.jid) (named : some x.sid = c.sid)
      (linked : x.linked = true) (creates : c.creates = true) (closes : c.closes = false)
      (absent : openFor c.jid c.sid s.history = none) : Does s c (store, some s.top)
  | closed (store : Store) (x : Session) (nodes : Keeps s.store store)
      (member : x ∈ s.store.sessions) (remote : x.remote = c.jid) (named : some x.sid = c.sid)
      (erased : store.sessions = s.store.sessions.erase x) (closes : c.closes = true) :
      Does s c (store, some x.addr)

/-- A node that is appended is found for its own name, and hides no other. -/
theorem keeps_append (store : Store) (jid : Text) (sessions : List Session) :
    Keeps store ⟨store.peers ++ [jidToSid jid], sessions⟩ := by
  intro jid' peer found
  rw [Store.peerOf] at found ⊢
  rw [List.find?_append, found]
  rfl

theorem does_xSessionOpen (sorted : s.Sorted) {jid random : Text} {sid : Option Text} {creat : Bool}
    (apart : Apart s (.xSessionOpen jid sid creat random)) :
    s.Does (.xSessionOpen jid sid creat random)
      (s.effect (.xSessionOpen jid sid creat random)) := by
  have opened := sorted.openFor_eq apart
  change openFor jid sid s.history = (s.store.lookup jid sid).map Session.addr at opened
  change s.Does _ (s.store.xSessionOpen jid sid creat random s.top)
  cases found : s.store.lookup jid sid with
  | some x =>
      rw [found] at opened
      rw [Store.xSessionOpen_of_lookup found]
      have result : some x.addr = openFor jid sid s.history := opened.symm
      rw [result]
      apply Does.found
      · exact fun _ _ node => node
      · rfl
      · intro closes
        cases closes
      · intro absent
        change openFor jid sid s.history = none at absent
        rw [opened] at absent
        cases absent
  | none =>
      rw [found] at opened
      change openFor jid sid s.history = none at opened
      simp only [Store.xSessionOpen, found]
      cases creat with
      | false =>
          simp only [Bool.false_eq_true, if_false]
          rw [← opened]
          apply Does.found
          · cases node : s.store.peerOf jid with
            | some peer => exact fun _ _ node => node
            | none => exact keeps_append s.store jid s.store.sessions
          · rfl
          · intro closes
            cases closes
          · exact fun _ => rfl
      | true =>
          simp only [if_true]
          cases sid_eq : sid with
          | none => exact absurd sid_eq (apart.named rfl)
          | some id =>
              rw [sid_eq] at opened
              apply Does.created _ ⟨s.top, (s.store.peerOf jid).getD (jidToSid jid), id, jid, true⟩
              case nodes =>
                cases node : s.store.peerOf jid with
                | some peer => exact fun _ _ node => node
                | none => exact keeps_append s.store jid _
              case node =>
                cases node : s.store.peerOf jid with
                | some peer => exact node
                | none =>
                    change (s.store.peers ++ [jidToSid jid]).find?
                      (fun name => eqnText name (jidToSid jid)) = some (jidToSid jid)
                    rw [Store.peerOf] at node
                    rw [List.find?_append, node, Option.none_or]
                    simp [eqnText_refl]
              case added => rfl
              case addr => rfl
              case remote => rfl
              case named => rfl
              case linked => rfl
              case creates => rfl
              case closes => rfl
              case absent => exact opened

theorem does_xSessionClose (sorted : s.Sorted) {jid : Text} {sid : Option Text}
    (apart : Apart s (.xSessionClose jid sid)) :
    s.Does (.xSessionClose jid sid) (s.effect (.xSessionClose jid sid)) := by
  have opened := sorted.openFor_eq apart
  change openFor jid sid s.history = (s.store.lookup jid sid).map Session.addr at opened
  change s.Does _ (s.store.xSessionClose jid sid)
  cases found : s.store.lookup jid sid with
  | none =>
      rw [found] at opened
      change openFor jid sid s.history = none at opened
      simp only [Store.xSessionClose, found]
      rw [← opened]
      apply Does.found
      · exact fun _ _ node => node
      · rfl
      · exact fun _ => opened
      · exact fun _ => rfl
  | some x =>
      rcases (sorted.lookup_eq_some_iff apart).mp found with ⟨member, remote, named⟩
      have node := sorted.housed x member
      rw [remote] at node
      have equals : sessionEquals x sid = true := by
        have own : some x.sid = sid := named
        rw [← own]
        exact eqText_refl x.sid
      have notFirst : (s.store.below x.peer).head? ≠ some x := by
        intro first
        have differs := apart.behind rfl x.peer x node first
        change sessionEquals x sid = false at differs
        rw [equals] at differs
        cases differs
      have removed : s.store.remove x = { s.store with sessions := s.store.sessions.erase x } := by
        rw [Store.remove, if_pos (sorted.linked x member), if_neg notFirst]
      simp only [Store.xSessionClose, found, removed]
      apply Does.closed _ x
      case nodes => exact fun _ _ node => node
      case member => exact member
      case remote => exact remote
      case named => exact named
      case erased => rfl
      case closes => rfl

/-- **What a call does**, if its pair is told apart. -/
theorem does_effect (sorted : s.Sorted) (apart : Apart s c) : s.Does c (s.effect c) := by
  cases c with
  | xSessionOpen jid sid creat random => exact does_xSessionOpen sorted apart
  | xSessionClose jid sid => exact does_xSessionClose sorted apart

variable {after : Store × Option Nat}

theorem step_of_hosts (hosts : s.Hosts c) :
    step s c = .ok ⟨(s.effect c).1, s.top + 1, (c, (s.effect c).2) :: s.history⟩ :=
  if_pos hosts

/-- A call that finds its pair told apart acts on the map. -/
theorem keyed_of_apart (sorted : s.Sorted) (apart : Apart s c) : Keyed s c := by
  have returns : (step s c).isOk = true := by
    rw [step_of_hosts apart.hosts]
    rfl
  have does := does_effect sorted apart
  generalize effect_eq : s.effect c = after at does
  cases does with
  | found store nodes same quiet idle =>
      constructor
      case returns => exact returns
      case result =>
        rw [effect_eq, expected]
        cases opened : openFor c.jid c.sid s.history with
        | some a => rfl
        | none => rw [idle opened]; rfl
      case others =>
        rw [effect_eq]
        exact fun x _ => by rw [same]
      case single =>
        rw [effect_eq, same]
        exact sorted.single
  | created store x nodes node added addr remote named linked creates closes absent =>
      constructor
      case returns => exact returns
      case result => rw [effect_eq, expected, absent, creates]; rfl
      case others =>
        intro y other
        have notNew : y ≠ x := by
          rintro rfl
          exact other remote
        rw [effect_eq, added]
        simp [notNew]
      case single =>
        -- the new session is the only one of its pair
        have fresh : ∀ y ∈ s.store.sessions, y.remote = x.remote → y.sid = x.sid → False := by
          intro y member same same'
          have opened := (sorted.mapped c.jid x.sid y.addr).mpr
            ⟨y, member, same.trans remote, same', rfl⟩
          rw [named, absent] at opened
          cases opened
        rw [effect_eq, added]
        intro y memberY z memberZ same same'
        rcases List.mem_append.mp memberY with oldY | newY
        · rcases List.mem_append.mp memberZ with oldZ | newZ
          · exact sorted.single y oldY z oldZ same same'
          · rw [List.mem_singleton.mp newZ] at same same'
            exact (fresh y oldY same same').elim
        · rcases List.mem_append.mp memberZ with oldZ | newZ
          · rw [List.mem_singleton.mp newY] at same same'
            exact (fresh z oldZ same.symm same'.symm).elim
          · rw [List.mem_singleton.mp newY, List.mem_singleton.mp newZ]
  | closed store x nodes member remote named erased closes =>
      have opened := (sorted.mapped c.jid x.sid x.addr).mpr ⟨x, member, remote, rfl, rfl⟩
      rw [named] at opened
      constructor
      case returns => exact returns
      case result => rw [effect_eq, expected, opened]
      case others =>
        intro y other
        have notClosed : y ≠ x := by
          rintro rfl
          exact other remote
        rw [effect_eq, erased]
        exact List.mem_erase_of_ne notClosed
      case single =>
        rw [effect_eq, erased]
        intro y memberY z memberZ
        exact sorted.single y (List.mem_of_mem_erase memberY) z (List.mem_of_mem_erase memberZ)

/-- The decision of a call about its own pair. -/
theorem openFor_cons_self (result : Option Nat) (history : List (SessionCall × Option Nat)) :
    openFor c.jid c.sid ((c, result) :: history) =
      if c.closes then none else if c.creates then result else openFor c.jid c.sid history := by
  rw [openFor, if_pos ⟨rfl, rfl⟩]

/-- A call decides nothing about another pair. -/
theorem openFor_cons_of_ne {jid : Text} {sid : Option Text} (other : ¬(c.jid = jid ∧ c.sid = sid))
    (result : Option Nat) (history : List (SessionCall × Option Nat)) :
    openFor jid sid ((c, result) :: history) = openFor jid sid history := by
  rw [openFor, if_neg other]

/-- A call that changes no session changes nothing in the map. -/
theorem openFor_cons_found {history : List (SessionCall × Option Nat)}
    (quiet : c.closes = true → openFor c.jid c.sid history = none) (jid : Text)
    (sid : Option Text) :
    openFor jid sid ((c, openFor c.jid c.sid history) :: history) = openFor jid sid history := by
  by_cases own : c.jid = jid ∧ c.sid = sid
  · rcases own with ⟨rfl, rfl⟩
    rw [openFor_cons_self]
    cases closes : c.closes with
    | true => rw [quiet closes]; rfl
    | false => cases c.creates <;> rfl
  · exact openFor_cons_of_ne own _ _

/-- The map behind a session that was created. -/
theorem mapped_created (sorted : s.Sorted) {x : Session} (addr : x.addr = s.top)
    (remote : x.remote = c.jid) (named : some x.sid = c.sid) (creates : c.creates = true)
    (closes : c.closes = false) (absent : openFor c.jid c.sid s.history = none) (jid sid : Text)
    (a : Nat) : openFor jid (some sid) ((c, some s.top) :: s.history) = some a ↔
      ∃ y ∈ s.store.sessions ++ [x], y.remote = jid ∧ y.sid = sid ∧ y.addr = a := by
  by_cases own : c.jid = jid ∧ c.sid = some sid
  · rcases own with ⟨rfl, own⟩
    rw [own] at absent named
    have sid_eq : x.sid = sid := Option.some.inj named
    have decided := openFor_cons_self (c := c) (some s.top) s.history
    rw [closes, creates, own] at decided
    simp only [Bool.false_eq_true, if_false, if_true] at decided
    rw [decided, Option.some.injEq]
    constructor
    · rintro rfl
      exact ⟨x, List.mem_append_right _ List.mem_cons_self, remote, sid_eq, addr⟩
    · rintro ⟨y, member, remoteY, sidY, addrY⟩
      rcases List.mem_append.mp member with old | new
      · have opened := (sorted.mapped c.jid sid y.addr).mpr ⟨y, old, remoteY, sidY, rfl⟩
        rw [absent] at opened
        cases opened
      · rw [List.mem_singleton.mp new, addr] at addrY
        exact addrY
  · rw [openFor_cons_of_ne own, sorted.mapped]
    constructor
    · rintro ⟨y, member, pair⟩
      exact ⟨y, List.mem_append_left _ member, pair⟩
    · rintro ⟨y, member, remoteY, sidY, addrY⟩
      rcases List.mem_append.mp member with old | new
      · exact ⟨y, old, remoteY, sidY, addrY⟩
      · rw [List.mem_singleton.mp new] at remoteY sidY
        rw [sidY] at named
        exact absurd ⟨remote.symm.trans remoteY, named.symm⟩ own

/-- The map behind a session that was closed. -/
theorem mapped_closed (sorted : s.Sorted) {x : Session} (member : x ∈ s.store.sessions)
    (remote : x.remote = c.jid) (named : some x.sid = c.sid) (closes : c.closes = true)
    (jid sid : Text) (a : Nat) :
    openFor jid (some sid) ((c, some x.addr) :: s.history) = some a ↔
      ∃ y ∈ s.store.sessions.erase x, y.remote = jid ∧ y.sid = sid ∧ y.addr = a := by
  by_cases own : c.jid = jid ∧ c.sid = some sid
  · rcases own with ⟨rfl, own⟩
    have sid_eq : x.sid = sid := Option.some.inj (named.trans own)
    have decided := openFor_cons_self (c := c) (some x.addr) s.history
    rw [closes, own] at decided
    rw [decided, if_pos rfl]
    constructor
    · intro impossible
      cases impossible
    · rintro ⟨y, inside, remoteY, sidY, -⟩
      rcases sorted.nodup.mem_erase_iff.mp inside with ⟨other, old⟩
      exact absurd (sorted.single y old x member (remoteY.trans remote.symm)
        (sidY.trans sid_eq.symm)) other
  · rw [openFor_cons_of_ne own, sorted.mapped]
    constructor
    · rintro ⟨y, old, remoteY, sidY, addrY⟩
      refine ⟨y, sorted.nodup.mem_erase_iff.mpr ⟨?_, old⟩, remoteY, sidY, addrY⟩
      rintro rfl
      rw [sidY] at named
      exact own ⟨remote.symm.trans remoteY, named.symm⟩
    · rintro ⟨y, inside, pair⟩
      exact ⟨y, List.mem_of_mem_erase inside, pair⟩

/-- A call with an identifier opens nothing for the pairs without one. -/
theorem Sorted.unnamed_cons (sorted : s.Sorted) {id : Text} (named : some id = c.sid)
    {result : Option Nat} (jid : Text) : openFor jid none ((c, result) :: s.history) = none := by
  have own : ¬(c.jid = jid ∧ c.sid = none) := by
    rintro ⟨-, nameless⟩
    rw [nameless] at named
    cases named
  exact (openFor_cons_of_ne own _ _).trans (sorted.unnamed jid)

/-- **Step lemma.**  The store keeps to the map. -/
theorem sorted_step (sorted : s.Sorted) (apart : Apart s c) :
    (⟨(s.effect c).1, s.top + 1, (c, (s.effect c).2) :: s.history⟩ : Calls).Sorted := by
  have does := does_effect sorted apart
  have single := (keyed_of_apart sorted apart).single
  generalize s.effect c = after at does single
  cases does with
  | found store nodes same quiet idle =>
      constructor
      case housed =>
        intro x member
        change x ∈ store.sessions at member
        rw [same] at member
        exact nodes x.remote x.peer (sorted.housed x member)
      case linked =>
        intro x member
        change x ∈ store.sessions at member
        rw [same] at member
        exact sorted.linked x member
      case single => exact single
      case nodup =>
        change store.sessions.Nodup
        rw [same]
        exact sorted.nodup
      case mapped =>
        intro jid sid a
        change openFor jid (some sid) ((c, openFor c.jid c.sid s.history) :: s.history) = some a ↔
          ∃ x ∈ store.sessions, x.remote = jid ∧ x.sid = sid ∧ x.addr = a
        rw [openFor_cons_found quiet, same]
        exact sorted.mapped jid sid a
      case unnamed =>
        intro jid
        exact (openFor_cons_found quiet jid none).trans (sorted.unnamed jid)
  | created store x nodes node added addr remote named linked creates closes absent =>
      have fresh : x ∉ s.store.sessions := by
        intro member
        have opened := (sorted.mapped c.jid x.sid x.addr).mpr ⟨x, member, remote, rfl, rfl⟩
        rw [named, absent] at opened
        cases opened
      constructor
      case housed =>
        intro y member
        change y ∈ store.sessions at member
        change store.peerOf y.remote = some y.peer
        rw [added] at member
        rcases List.mem_append.mp member with old | new
        · exact nodes y.remote y.peer (sorted.housed y old)
        · rw [List.mem_singleton.mp new, remote]
          exact node
      case linked =>
        intro y member
        change y ∈ store.sessions at member
        rw [added] at member
        rcases List.mem_append.mp member with old | new
        · exact sorted.linked y old
        · rw [List.mem_singleton.mp new]
          exact linked
      case single => exact single
      case nodup =>
        change store.sessions.Nodup
        rw [added]
        rw [← List.concat_eq_append]
        exact sorted.nodup.concat fresh
      case mapped =>
        intro jid sid a
        change _ ↔ ∃ y ∈ store.sessions, _
        rw [added]
        exact mapped_created sorted addr remote named creates closes absent jid sid a
      case unnamed => exact sorted.unnamed_cons named
  | closed store x nodes member remote named erased closes =>
      have inside : ∀ y, y ∈ store.sessions → y ∈ s.store.sessions := by
        intro y here
        rw [erased] at here
        exact List.mem_of_mem_erase here
      constructor
      case housed => exact fun y here => nodes y.remote y.peer (sorted.housed y (inside y here))
      case linked => exact fun y here => sorted.linked y (inside y here)
      case single => exact single
      case nodup =>
        change store.sessions.Nodup
        rw [erased]
        exact sorted.nodup.erase x
      case mapped =>
        intro jid sid a
        change _ ↔ ∃ y ∈ store.sessions, _
        rw [erased]
        exact mapped_closed sorted member remote named closes jid sid a
      case unnamed => exact sorted.unnamed_cons named

/-- **The store is a map** along every run whose calls find their pairs told apart. -/
theorem along_keyed (calls : List SessionCall) (along : Along step Apart start calls) :
    Along step Keyed start calls := by
  refine along.imp (fun s => s.Sorted) ?_ ?_ sorted_start
  · intro s c s' sorted apart result
    cases (step_of_hosts apart.hosts).symm.trans result
    exact sorted_step sorted apart
  · intro s c sorted apart
    exact keyed_of_apart sorted apart

/-- Two sessions of one peer are opened, and the second one is closed and opened again. -/
def reopening : List SessionCall :=
  [.xSessionOpen (lit "a/b") (some (lit "1")) true [],
    .xSessionOpen (lit "a/b") (some (lit "2")) true [],
    .xSessionClose (lit "a/b") (some (lit "2")), .xSessionOpen (lit "a/b") (some (lit "2")) true []]

instance decidableApart (s : Calls) (c : SessionCall) : Decidable (Apart s c) :=
  decidable_of_iff
    (s.Hosts c ∧ (∀ x ∈ s.store.sessions, s.store.peerOf c.jid = some x.peer →
        sessionEquals x c.sid = true → x.remote = c.jid ∧ some x.sid = c.sid) ∧
      (c.creates = true → c.sid ≠ none) ∧
      (c.closes = true → ∀ peer ∈ s.store.peerOf c.jid, ∀ x ∈ (s.store.below peer).head?,
        sessionEquals x c.sid = false))
    ⟨fun ⟨hosts, pair, named, behind⟩ => ⟨hosts, pair, named, fun closes peer x node first =>
        behind closes peer node x first⟩,
      fun apart => ⟨apart.hosts, apart.pair, apart.named, fun closes peer node x first =>
        apart.behind closes peer x node first⟩⟩

theorem along_keyed_reopening : Along step Keyed start reopening :=
  along_keyed reopening (by decide +kernel)

/-- A slash and a low line are the same in the name of a node, so that the session of another
peer is returned; and the first session of a peer is still found when it has been closed. -/
theorem not_along_keyed :
    ¬Along step Keyed start [.xSessionOpen (lit "a/b") (some (lit "1")) true [],
        .xSessionOpen (lit "a_b") (some (lit "1")) false []] ∧
      ¬Along step Keyed start [.xSessionOpen (lit "a/b") (some (lit "1")) true [],
        .xSessionClose (lit "a/b") (some (lit "1")),
        .xSessionOpen (lit "a/b") (some (lit "1")) false []] := by
  constructor
  · rintro ⟨-, later⟩
    have result := (later _ rfl).1.result
    revert result
    decide +kernel
  · rintro ⟨-, later⟩
    have result := ((later _ rfl).2 _ rfl).1.result
    revert result
    decide +kernel

end Calls

end Xwbot
