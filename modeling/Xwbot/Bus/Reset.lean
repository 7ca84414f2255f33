import Xwbot.Bus.Core

/-!
# Resetting the stream

`x_bus_reset_stream` drops one reference to the child that is found under the
name `stream` and appends a new one.  A stream that was appended has two
references, one from its creation and one from the append, so that a second
reset leaves the first stream where it is.
-/

namespace Xwbot

open Links Runs Xwbot.Parser

/-! ## What a reset is to achieve -/

/-- A bus between two calls: its heap is in order, and it is a root of a class that sets
none of the callbacks of an append. -/
structure Bus.Sound (b : Bus) : Prop where
  linked : b.heap.Linked
  live : b.heap.live b.self = true
  root : b.heap.parent b.self = none
  objclass : b.heap.objclass b.self = none

/-- The object is a child of the bus that a lookup of `stream` can find. -/
def Bus.Takes (b : Bus) (x : Addr) : Prop :=
  b.heap.live x = true ∧ b.heap.parent x = some b.self ∧
    eqnText (b.heap.name x) (lit "stream") = true

/-- The bus `b'` has a clean stream `streamo`, which was made after `b`. -/
structure Renewed (b b' : Bus) (streamo : Addr) : Prop where
  created : b.heap.top ≤ streamo
  name : b'.heap.name streamo = lit "stream"
  only : ∀ x, b'.Takes x ↔ x = streamo
  childless : ∀ x, b'.heap.live x = true → b'.heap.parent x ≠ some streamo

/-- What a reset leaves behind. -/
structure Clean (s s' : PushParser × Bus) : Prop where
  stream : ∃ streamo, Renewed s.2 s'.2 streamo
  self : s'.2.self = s.2.self
  focus : s'.2.rObj = some s'.2.self
  handler : s'.1.rPutc = .txt
  attrs : s'.1.attrs = []
  stack : s'.1.stack = []

/-- The reset returns, and the stream is clean. -/
def Env.ResetsCleanly (env : Env) (m : Memory) (s : PushParser × Bus) : Prop :=
  ∃ s', env.resetStream m s = .ok s' ∧ Clean s s'

instance (b : Bus) (x : Addr) : Decidable (b.Takes x) :=
  inferInstanceAs (Decidable (_ ∧ _ ∧ _))

/-- At most one child is found under `stream`, and it has at most one reference. -/
def Bus.Replaceable (b : Bus) : Prop :=
  ∀ x, b.Takes x → b.heap.refcount x ≤ 1 ∧ ∀ y, b.Takes y → y = x

/-- Only objects that were allocated can be in the way. -/
theorem Bus.replaceable_iff_below (b : Bus) : b.Replaceable ↔ ∀ x < b.heap.top, b.Takes x →
    b.heap.refcount x ≤ 1 ∧ ∀ y < b.heap.top, b.Takes y → y = x := by
  constructor
  · intro replaceable x _ takes
    exact ⟨(replaceable x takes).1, fun y _ => (replaceable x takes).2 y⟩
  · intro below x takes
    have few := below x (b.heap.live_lt x takes.1) takes
    exact ⟨few.1, fun y takes' => few.2 y (b.heap.live_lt y takes'.1) takes'⟩

instance (b : Bus) : Decidable b.Replaceable :=
  decidable_of_iff' _ b.replaceable_iff_below

/-- What happens to a bus between two resets: anything that leaves it in order. -/
structure Interlude where
  run : PushParser × Bus → PushParser × Bus
  sound : ∀ s, s.2.Sound → (run s).2.Sound

/-- A reset after something else. -/
def Env.resetAfter (env : Env) (m : Memory) (s : PushParser × Bus) (interlude : Interlude) :
    Except Fault (PushParser × Bus) :=
  env.resetStream m (interlude.run s)

/-- The class of a stream is the one that `xmppstream_init` registers, and no listener was
added for its path. -/
structure Env.Streams (env : Env) : Prop where
  registered : ∃ i,
    env.getClass (lit "stream") (lit "http://etherx.jabber.org/streams") [] = some i ∧
    env.classes i = streamClass
  listeners : ∀ b o, b.heap.name o = lit "stream" → env.pathListeners.run () b o = b

/-! ## The appended stream -/

namespace Env

variable {env : Env} {m : Memory} {b b' : Bus} {s s' : PushParser × Bus}

/-- The part of `x_bus_reset_stream` that makes a stream and appends it. -/
def addStream (env : Env) (b : Bus) : Except Fault Bus := do
  let (b, streamo) ← env.newNsMatch b (lit "stream") (lit "http://etherx.jabber.org/streams") []
  let h := b.heap.setattr streamo (lit "remote") (getattr (lit "domain") (b.heap.attrs b.self))
  let h := h.setattr streamo (lit "local") (getattr (lit "jid") (h.attrs b.self))
  env.appendChild { b with heap := h } b.self streamo

theorem resetStream_eq : env.resetStream m s = (do
    let old ← s.2.heap.getChild (some s.2.self) (some (lit "stream"))
    let h ← s.2.heap.refPut old
    let b ← env.addStream { s.2 with rObj := some s.2.self, heap := h }
    .ok (s.1.reset m, b)) := by
  unfold resetStream addStream
  simp only [bind_assoc]

/-- The stream when it is made. -/
def newStream (h : Heap) (self : Addr) (objclass : Option Nat) : Heap :=
  let new := (h.alloc (lit "stream") objclass).1
  let new := new.setattr h.top (lit "remote") (getattr (lit "domain") (new.attrs self))
  new.setattr h.top (lit "local") (getattr (lit "jid") (new.attrs self))

/-- Making the stream. -/
theorem newNsMatch_stream {i : Nat}
    (registered : env.getClass (lit "stream") (lit "http://etherx.jabber.org/streams") [] = some i)
    (class_eq : env.classes i = streamClass) :
    env.newNsMatch b (lit "stream") (lit "http://etherx.jabber.org/streams") [] =
      .ok ({ b with heap := (b.heap.alloc (lit "stream") (some i)).1 }, b.heap.top) := by
  have name_eq : objectName (lit "stream") = lit "stream" := by decide
  have creatable : Creatable (lit "stream") (lit "http://etherx.jabber.org/streams") :=
    ⟨by decide, by decide, by decide⟩
  have class_new : env.classOf (b.heap.alloc (lit "stream") (some i)).1
      (b.heap.alloc (lit "stream") (some i)).2 = streamClass := by
    rw [classOf, Heap.alloc_fst_objclass, Heap.alloc_snd, Function.update_self]
    exact class_eq
  refine (env.newNsMatch_eq_ok_iff).mpr ⟨creatable, ?_⟩
  rw [created, name_eq, registered, class_new]
  rfl

/-- Of the callbacks of the append, only that of the new stream does something. -/
theorem addStream_eq (streams : env.Streams) (sound : b.Sound) :
    ∃ i, env.addStream b =
      (newStream b.heap b.self (some i)).appendChildNoCb b.self b.heap.top >>= fun h =>
        let b₁ := streamAppend.run () { b with heap := h } b.heap.top
        b₁.heap.getIndex b.heap.top >>= fun _ =>
          b₁.heap.notify >>= fun h => .ok { b₁ with heap := h } := by
  rcases streams.registered with ⟨i, registered, class_eq⟩
  refine ⟨i, ?_⟩
  unfold addStream
  rw [newNsMatch_stream registered class_eq, ok_bind]
  dsimp only
  change env.appendChild { b with heap := newStream b.heap b.self (some i) } b.self b.heap.top = _
  unfold appendChild
  dsimp only
  cases appended : (newStream b.heap b.self (some i)).appendChildNoCb b.self b.heap.top with
  | error fault => rfl
  | ok h =>
      rcases Heap.appended_of_appendChildNoCb appended with ⟨-, -, placed⟩
      have other : b.self ≠ b.heap.top := Heap.ne_top sound.live
      have bus_class : env.classOf h b.self = protoclass := by
        have none_eq : h.objclass b.self = none := by
          rw [placed.objclass]
          exact (Function.update_of_ne other ..).trans sound.objclass
        simp only [classOf, none_eq]
      have own_class : env.classOf h b.heap.top = streamClass := by
        have some_eq : h.objclass b.heap.top = some i := by
          rw [placed.objclass]
          exact Function.update_self ..
        simp only [classOf, some_eq, class_eq]
      have name_eq : h.name b.heap.top = lit "stream" := by
        rw [placed.name]
        exact Function.update_self ..
      simp only [ok_bind]
      have first : (env.classOf h b.self).onChildAppend.run () { b with heap := h } b.heap.top =
          { b with heap := h } := by
        rw [bus_class]
        rfl
      rw [first]
      dsimp only
      rw [own_class]
      have listened := streams.listeners
        (streamAppend.run () { b with heap := h } b.heap.top) b.heap.top name_eq
      have append_eq : streamClass.onAppend = streamAppend := rfl
      rw [append_eq, listened]

/-- The links of a new stream and of the objects that were there. -/
theorem linked_newStream {h : Heap} (linked : h.Linked) (self : Addr) (objclass : Option Nat) :
    (newStream h self objclass).Linked :=
  ((linked.alloc (lit "stream") objclass).setAttrs _).setAttrs _

/-- What an appended stream changes. -/
structure Added (b b' : Bus) : Prop where
  linked : b'.heap.Linked
  self : b'.self = b.self
  rObj : b'.rObj = b.rObj
  live : ∀ x, b'.heap.live x = true ↔ b.heap.live x = true ∨ x = b.heap.top
  parent : ∀ x, b.heap.live x = true → b'.heap.parent x = b.heap.parent x
  parent_new : b'.heap.parent b.heap.top = some b.self
  name : ∀ x, b.heap.live x = true → b'.heap.name x = b.heap.name x
  name_new : b'.heap.name b.heap.top = lit "stream"
  objclass : ∀ x, b.heap.live x = true → b'.heap.objclass x = b.heap.objclass x

theorem added_of_addStream (streams : env.Streams) (sound : b.Sound)
    (result : env.addStream b = .ok b') : Added b b' := by
  rcases addStream_eq streams sound with ⟨i, eq⟩
  rw [eq] at result
  rcases bind_eq_ok_iff.mp result with ⟨h, appended, behind⟩
  rcases bind_eq_ok_iff.mp behind with ⟨_, -, behind⟩
  rcases bind_eq_ok_iff.mp behind with ⟨h', notified, done⟩
  cases done
  rcases Heap.notify_eq_ok (streamAppend.run () { b with heap := h } b.heap.top).heap with
    ⟨h'', notified', agree, top_eq⟩
  rw [notified] at notified'
  cases notified'
  rcases Heap.appended_of_appendChildNoCb appended with ⟨-, -, placed⟩
  have orphan : (newStream b.heap b.self (some i)).parent b.heap.top = none :=
    Function.update_self ..
  have linked : h.Linked := (linked_newStream sound.linked b.self (some i)).appended orphan appended
  have linked' : (streamAppend.run () { b with heap := h } b.heap.top).heap.Linked :=
    linked.setAttrs _
  have live_eq : h'.live = Function.update b.heap.live b.heap.top true :=
    agree.live.trans placed.live
  have live_iff : ∀ x, h'.live x = true ↔ b.heap.live x = true ∨ x = b.heap.top := by
    intro x
    rw [live_eq, Function.update_apply]
    by_cases new : x = b.heap.top
    · simp [new]
    · simp [new]
  have now : ∀ x, h'.live x = true →
      (streamAppend.run () { b with heap := h } b.heap.top).heap.live x = true := by
    intro x alive
    rw [← agree.live]
    exact alive
  have new_live : h'.live b.heap.top = true := (live_iff _).mpr (.inr rfl)
  constructor
  case linked => exact linked'.agree agree (by rw [top_eq]; exact Nat.le_succ _)
  case self => rfl
  case rObj => rfl
  case live => exact live_iff
  case parent =>
    intro x alive
    have other := Heap.ne_top alive
    rw [agree.parent x (now x ((live_iff x).mpr (.inl alive)))]
    change h.parent x = _
    rw [placed.parent, Function.update_of_ne other]
    exact Function.update_of_ne other ..
  case parent_new =>
    rw [agree.parent _ (now _ new_live)]
    change h.parent _ = _
    rw [placed.parent, Function.update_self]
  case name =>
    intro x alive
    rw [agree.name x (now x ((live_iff x).mpr (.inl alive)))]
    change h.name x = _
    rw [placed.name]
    exact Function.update_of_ne (Heap.ne_top alive) ..
  case name_new =>
    rw [agree.name _ (now _ new_live)]
    change h.name _ = _
    rw [placed.name]
    exact Function.update_self ..
  case objclass =>
    intro x alive
    rw [agree.objclass x (now x ((live_iff x).mpr (.inl alive)))]
    change h.objclass x = _
    rw [placed.objclass]
    exact Function.update_of_ne (Heap.ne_top alive) ..

/-- Appending a stream cannot fail when no child of its name is left. -/
theorem addStream_succeeds (streams : env.Streams) (sound : b.Sound)
    (alone : ∀ x, ¬b.Takes x) : ∃ b', env.addStream b = .ok b' := by
  rcases addStream_eq streams sound with ⟨i, eq⟩
  have linked := linked_newStream sound.linked b.self (some i)
  rcases linked.rep with ⟨kids, rep⟩
  set new := newStream b.heap b.self (some i) with new_eq
  have other : b.self ≠ b.heap.top := Heap.ne_top sound.live
  have alive : new.live b.self = true := by
    rw [new_eq]
    exact (Function.update_of_ne other ..).trans sound.live
  have aliveNew : new.live b.heap.top = true := Function.update_self ..
  have orphan : new.parent b.heap.top = none := Function.update_self ..
  have name_eq : new.name b.heap.top = lit "stream" := Function.update_self ..
  have next_eq : new.next b.heap.top = none := Function.update_self ..
  -- the stream is the first of its name, and alone in its chain
  have none_before : ∀ x ∈ kids b.self, ¬eqnText (new.name x) (lit "stream") = true := by
    intro x member takes
    rcases (rep.mem b.self alive x).mp member with ⟨aliveX, parent_eq⟩
    have notNew : x ≠ b.heap.top := by
      rintro rfl
      rw [orphan] at parent_eq
      cases parent_eq
    refine alone x ⟨@Heap.live_alloc _ _ (lit "stream") (some i) aliveX notNew, ?_, ?_⟩
    · rw [← parent_eq]
      exact (Function.update_of_ne notNew ..).symm
    · rw [← takes]
      exact congrArg (eqnText · _) (Function.update_of_ne notNew ..).symm
  have first : new.firstNamed (kids b.self ++ [b.heap.top]) (lit "stream") = some b.heap.top := by
    rw [Heap.firstNamed, List.find?_append, List.find?_eq_none.mpr none_before, Option.none_or,
      List.find?_cons_of_pos (by rw [name_eq]; exact eqnText_refl _)]
  have ok : new.AppendOk kids b.self b.heap.top := by
    refine ⟨alive, aliveNew, orphan, fun _ => ⟨[b.heap.top], none, ?_⟩⟩
    rw [name_eq, first]
    exact ⟨⟨rfl, next_eq⟩, by simp [aliveNew], by simp, by simp, by simp⟩
  rcases rep.appendChildNoCb ok with ⟨h, appended, rep', live_eq⟩
  rcases Heap.appended_of_appendChildNoCb appended with ⟨-, -, placed⟩
  have linked' : (streamAppend.run () { b with heap := h } b.heap.top).heap.Linked :=
    (linked.appended orphan appended).setAttrs _
  have indexed : (streamAppend.run () { b with heap := h } b.heap.top).heap.getIndex b.heap.top =
      .ok () := by
    refine linked'.getIndex fun q parent_eq => ?_
    change h.parent b.heap.top = some q at parent_eq
    rw [placed.parent, Function.update_self] at parent_eq
    cases parent_eq
    change h.live b.self = true
    rw [live_eq]
    exact alive
  rcases Heap.notify_eq_ok (streamAppend.run () { b with heap := h } b.heap.top).heap with
    ⟨h', notified, -, -⟩
  refine ⟨{ streamAppend.run () { b with heap := h } b.heap.top with heap := h' }, ?_⟩
  rw [eq, appended, ok_bind]
  dsimp only
  rw [indexed, ok_bind, notified]
  rfl

end Env

namespace Bus

variable {b b' : Bus} {old : Option Addr} {h : Heap}

/-- The bus after a reference is dropped. -/
def dropped (b : Bus) (h : Heap) : Bus :=
  { b with rObj := some b.self, heap := h }

/-- What the lookup of `stream` finds. -/
theorem Sound.getChild (sound : b.Sound) :
    ∃ old, b.heap.getChild (some b.self) (some (lit "stream")) = .ok old ∧
      (∀ o, old = some o → b.Takes o) ∧ (old = none → ∀ x, ¬b.Takes x) := by
  rcases sound.linked.rep with ⟨kids, rep⟩
  refine ⟨_, rep.getChild sound.live (lit "stream"), ?_, ?_⟩
  · intro o found
    rw [Heap.firstNamed] at found
    rcases (rep.mem b.self sound.live o).mp (List.mem_of_find?_eq_some found) with
      ⟨alive, parent_eq⟩
    have named := List.find?_some found
    exact ⟨alive, parent_eq, named⟩
  · rintro missing x ⟨alive, parent_eq, takes⟩
    have member := (rep.mem b.self sound.live x).mpr ⟨alive, parent_eq⟩
    exact absurd takes (List.find?_eq_none.mp missing x member)

theorem Takes.ne_self (sound : b.Sound) {x : Addr} (takes : b.Takes x) : x ≠ b.self := by
  rintro rfl
  have parent_eq := takes.2.1
  rw [sound.root] at parent_eq
  cases parent_eq

/-- Dropping the reference leaves the bus in order. -/
theorem Sound.dropped (sound : b.Sound) (found : ∀ o, old = some o → b.Takes o)
    (result : b.heap.refPut old = .ok h) : (b.dropped h).Sound ∧ h.top = b.heap.top := by
  cases old with
  | none =>
      cases result
      exact ⟨⟨sound.linked, sound.live, sound.root, sound.objclass⟩, rfl⟩
  | some o =>
      have other := ((found o rfl).ne_self sound).symm
      rcases sound.linked.putDown result with ⟨down, linked⟩
      refine ⟨⟨linked, ?_, ?_, ?_⟩, down.top⟩
      · exact (down.live b.self other).trans sound.live
      · exact (down.parent b.self other).trans sound.root
      · exact (congrFun down.objclass b.self).trans sound.objclass

/-- What is not dropped stays a child. -/
theorem Takes.dropped {o x : Addr} (sound : b.Sound) (takes : b.Takes x) (other : x ≠ o)
    (result : b.heap.refPut (some o) = .ok h) : (b.dropped h).Takes x := by
  rcases sound.linked.putDown result with ⟨down, -⟩
  rcases takes with ⟨alive, parent_eq, named⟩
  refine ⟨(down.live x other).trans alive, (down.parent x other).trans parent_eq, ?_⟩
  change eqnText (h.name x) _ = true
  rw [down.name]
  exact named

/-- No child is left under the name exactly if there was one at most, with one reference. -/
theorem replaceable_iff (sound : b.Sound) (found : ∀ o, old = some o → b.Takes o)
    (missing : old = none → ∀ x, ¬b.Takes x) (result : b.heap.refPut old = .ok h) :
    b.Replaceable ↔ ∀ x, ¬(b.dropped h).Takes x := by
  cases old with
  | none =>
      cases result
      constructor
      · exact fun _ => missing rfl
      · exact fun _ x takes => absurd takes (missing rfl x)
  | some o =>
      have takesO := found o rfl
      constructor
      · rintro replaceable x ⟨alive, parent_eq, named⟩
        have gone := Heap.live_of_refPut (replaceable o takesO).1 result
        have other : x ≠ o := by
          rintro rfl
          change h.live x = true at alive
          rw [gone] at alive
          cases alive
        rcases sound.linked.putDown result with ⟨down, -⟩
        change h.live x = true at alive
        change h.parent x = _ at parent_eq
        change eqnText (h.name x) _ = true at named
        rw [down.live x other] at alive
        rw [down.parent x other] at parent_eq
        rw [down.name] at named
        exact other ((replaceable o takesO).2 x ⟨alive, parent_eq, named⟩)
      · intro alone
        have only : ∀ x, b.Takes x → x = o := by
          intro x takes
          by_contra other
          exact alone x (takes.dropped sound other result)
        have last : b.heap.refcount o ≤ 1 := by
          by_contra many
          rw [Heap.refPut_of_many takesO.1 (by omega)] at result
          cases result
          exact alone o takesO
        intro x takes
        rw [only x takes]
        exact ⟨last, only⟩

/-- A child that can be replaced can be dropped. -/
theorem Replaceable.refPut (sound : b.Sound) (replaceable : b.Replaceable)
    (found : ∀ o, old = some o → b.Takes o) : ∃ h, b.heap.refPut old = .ok h := by
  cases old with
  | none => exact ⟨b.heap, rfl⟩
  | some o =>
      rcases found o rfl with ⟨alive, parent_eq, named⟩
      rcases sound.linked.rep with ⟨kids, rep⟩
      have ok : b.heap.PutOk kids o := by
        refine ⟨alive, fun _ => ⟨alive, fun p parentP => ?_⟩⟩
        rw [parent_eq] at parentP
        cases parentP
        -- no other child has a name that begins this one
        have none_left : b.heap.firstNamed (Heap.drop o kids b.self) (b.heap.name o) = none := by
          rw [Heap.firstNamed, List.find?_eq_none]
          intro x member begins
          rcases List.mem_filter.mp member with ⟨inside, other⟩
          rcases (rep.mem b.self sound.live x).mp inside with ⟨aliveX, parentX⟩
          have same := (replaceable o ⟨alive, parent_eq, named⟩).2 x
            ⟨aliveX, parentX, eqnText_trans begins named⟩
          exact (of_decide_eq_true other) same
        refine ⟨sound.live, [], none, ?_⟩
        rw [none_left]
        exact ⟨rfl, by simp, by simp, by simp, by simp⟩
      rcases rep.refPut ok with ⟨h, result, -⟩
      exact ⟨h, result⟩

end Bus

/-! ## Resets -/

namespace Env

variable {env : Env} {m : Memory} {b : Bus} {s s' : PushParser × Bus}

/-- The new stream is clean exactly if no child of its name was left. -/
theorem renewed_iff (streams : env.Streams) (sound : b.Sound) {b' : Bus}
    (result : env.addStream b = .ok b') :
    (∃ streamo, Renewed b b' streamo) ↔ ∀ x, ¬b.Takes x := by
  have added := added_of_addStream streams sound result
  have kept : ∀ x, b.heap.live x = true → (b'.Takes x ↔ b.Takes x) := by
    intro x alive
    unfold Bus.Takes
    rw [added.parent x alive, added.name x alive, added.self]
    simp [alive, (added.live x).mpr (.inl alive)]
  have new_live := (added.live b.heap.top).mpr (.inr rfl)
  constructor
  · rintro ⟨streamo, renewed⟩ x takes
    have same := (renewed.only x).mp ((kept x takes.1).mpr takes)
    have before := b.heap.live_lt x takes.1
    rw [same] at before
    exact absurd renewed.created (not_le.mpr before)
  · intro alone
    refine ⟨b.heap.top, ?_⟩
    constructor
    case created => exact le_rfl
    case name => exact added.name_new
    case only =>
      intro x
      constructor
      · intro takes
        rcases (added.live x).mp takes.1 with alive | new
        · exact absurd ((kept x alive).mp takes) (alone x)
        · exact new
      · rintro rfl
        refine ⟨new_live, ?_, ?_⟩
        · rw [added.parent_new, added.self]
        · rw [added.name_new]
          exact eqnText_refl _
    case childless =>
      intro x alive parent_eq
      rcases (added.live x).mp alive with old | rfl
      · rw [added.parent x old] at parent_eq
        exact absurd (sound.linked.allocated x old _ parent_eq) (lt_irrefl _)
      · rw [added.parent_new] at parent_eq
        exact Heap.ne_top sound.live (Option.some.inj parent_eq)

/-- An appended stream leaves the bus in order. -/
theorem sound_addStream (streams : env.Streams) (sound : b.Sound) {b' : Bus}
    (result : env.addStream b = .ok b') : b'.Sound := by
  have added := added_of_addStream streams sound result
  constructor
  case linked => exact added.linked
  case live =>
    rw [added.self]
    exact (added.live b.self).mpr (.inl sound.live)
  case root =>
    rw [added.self, added.parent b.self sound.live]
    exact sound.root
  case objclass =>
    rw [added.self, added.objclass b.self sound.live]
    exact sound.objclass

/-- The parts of a reset that returns. -/
theorem resetStream_eq_ok (result : env.resetStream m s = .ok s') :
    ∃ old h b', s.2.heap.getChild (some s.2.self) (some (lit "stream")) = .ok old ∧
      s.2.heap.refPut old = .ok h ∧ env.addStream (s.2.dropped h) = .ok b' ∧
        s' = (s.1.reset m, b') := by
  rw [resetStream_eq] at result
  rcases bind_eq_ok_iff.mp result with ⟨old, found, behindLookup⟩
  rcases bind_eq_ok_iff.mp behindLookup with ⟨h, put, behindPut⟩
  rcases bind_eq_ok_iff.mp behindPut with ⟨b', added, done⟩
  cases done
  exact ⟨old, h, b', found, put, added, rfl⟩

/-- **Step lemma.**  A reset that returns leaves the bus in order. -/
theorem sound_resetStream (streams : env.Streams) (sound : s.2.Sound)
    (result : env.resetStream m s = .ok s') : s'.2.Sound := by
  rcases resetStream_eq_ok result with ⟨old, h, b', found, put, added, rfl⟩
  rcases sound.getChild with ⟨old', found', takes, -⟩
  rw [found] at found'
  cases found'
  exact sound_addStream streams (sound.dropped takes put).1 added

/-- **One reset.**  It leaves a clean stream exactly if the old one could be replaced. -/
theorem resetsCleanly_iff (streams : env.Streams) (sound : s.2.Sound) :
    env.ResetsCleanly m s ↔ s.2.Replaceable := by
  rcases sound.getChild with ⟨old, found, takes, missing⟩
  constructor
  · rintro ⟨s', result, clean⟩
    rcases resetStream_eq_ok result with ⟨old', h, b', found', put, added, rfl⟩
    rw [found] at found'
    cases found'
    rcases sound.dropped takes put with ⟨sound', top_eq⟩
    rcases clean.stream with ⟨streamo, renewed⟩
    rw [Bus.replaceable_iff sound takes missing put, ← renewed_iff streams sound' added]
    refine ⟨streamo, ?_, renewed.name, renewed.only, renewed.childless⟩
    exact top_eq.le.trans renewed.created
  · intro replaceable
    rcases replaceable.refPut sound takes with ⟨h, put⟩
    rcases sound.dropped takes put with ⟨sound', top_eq⟩
    have alone := (Bus.replaceable_iff sound takes missing put).mp replaceable
    rcases addStream_succeeds streams sound' alone with ⟨b', added⟩
    rcases (renewed_iff streams sound' added).mpr alone with ⟨streamo, renewed⟩
    have changes := added_of_addStream streams sound' added
    refine ⟨(s.1.reset m, b'), ?_, ?_⟩
    · rw [resetStream_eq, found, ok_bind, put, ok_bind]
      change env.addStream (s.2.dropped h) >>= _ = _
      rw [added, ok_bind]
    · constructor
      case stream =>
        refine ⟨streamo, ?_, renewed.name, renewed.only, renewed.childless⟩
        exact top_eq.ge.trans renewed.created
      case self => exact changes.self
      case focus => exact changes.rObj.trans (congrArg some changes.self.symm)
      case handler => rfl
      case attrs => rfl
      case stack => rfl

/-- **Resets in a row.**  Whatever happens between them, every reset leaves a clean stream
exactly if each one finds a stream that can be replaced. -/
theorem along_resetsCleanly_iff (streams : env.Streams) (m : Memory) {s : PushParser × Bus}
    (sound : s.2.Sound) (interludes : List Interlude) :
    Along (env.resetAfter m) (fun s interlude => env.ResetsCleanly m (interlude.run s))
        s interludes ↔
      Along (env.resetAfter m) (fun s interlude => (interlude.run s).2.Replaceable)
        s interludes := by
  refine along_congr (fun s => s.2.Sound) ?_ ?_ sound
  · intro s interlude s' inside _ result
    exact sound_resetStream streams (interlude.sound s inside) result
  · intro s interlude inside
    exact resetsCleanly_iff streams (interlude.sound s inside)

end Env

/-! ## A new bus -/

/-- Nothing happens. -/
def Interlude.idle : Interlude where
  run s := s
  sound _ sound := sound

/-- A reference to the first child of the bus is given up. -/
def Interlude.release : Interlude where
  run s :=
    match s.2.heap.sons s.2.self with
    | some x => (s.1, { s.2 with heap := s.2.heap.setRefcount x (s.2.heap.refcount x - 1) })
    | none => s
  sound s sound := by
    split
    · rcases sound with ⟨⟨⟨kids, rep⟩, allocated⟩, live, root, objclass⟩
      exact ⟨⟨⟨kids, rep.path, rep.mem, rep.count, rep.loose⟩, allocated⟩, live, root, objclass⟩
    · exact sound

theorem streams_coreEnv (ssl : Nat → Handshake) : (coreEnv ssl).Streams where
  registered := ⟨0, rfl, rfl⟩
  listeners _ _ _ := rfl

theorem sound_newBus : newBus.Sound where
  linked := linked_newBus
  live := rfl
  root := rfl
  objclass := rfl

/-- The core classes, with a TLS library whose handshakes succeed. -/
def tlsEnv : Env :=
  coreEnv fun _ => ⟨true, 1⟩

/-- A new bus with its parser. -/
def newState : PushParser × Bus :=
  (PushParser.init (.filled 0), newBus)

/-- When the creator of a stream gives its reference up, every later reset is clean. -/
theorem along_resetsCleanly_iff_released :
    ∃ s, tlsEnv.resetAfter (.filled 0) newState .idle = .ok s ∧ s.2.Takes 1 ∧
      Along (tlsEnv.resetAfter (.filled 0))
        (fun s interlude => tlsEnv.ResetsCleanly (.filled 0) (interlude.run s)) s
        [.release, .release] := by
  have streams := streams_coreEnv fun _ => ⟨true, 1⟩
  have lands : Lands (fun s => s.2.Takes 1 ∧ Along (tlsEnv.resetAfter (.filled 0))
      (fun s interlude => (interlude.run s).2.Replaceable) s [.release, .release])
      (fun _ => False) (tlsEnv.resetAfter (.filled 0) newState .idle) := by
    decide +kernel
  rcases lands_false_iff.mp lands with ⟨s, result, takes, replaceable⟩
  have sound : s.2.Sound := Env.sound_resetStream streams sound_newBus result
  refine ⟨s, result, takes, ?_⟩
  exact (Env.along_resetsCleanly_iff streams (.filled 0) sound [.release, .release]).mpr replaceable

/-- The second reset leaves two streams: the first one had two references. -/
theorem not_along_resetsCleanly_twice :
    (∃ s, run (tlsEnv.resetAfter (.filled 0)) newState [.idle, .idle] = .ok s ∧
      s.2.Takes 1 ∧ s.2.Takes 3) ∧
    ¬Along (tlsEnv.resetAfter (.filled 0))
        (fun s interlude => tlsEnv.ResetsCleanly (.filled 0) (interlude.run s))
        newState [.idle, .idle] := by
  have once : ∃ s, tlsEnv.resetAfter (.filled 0) newState .idle = .ok s ∧
      (s.2.heap.live 1 = true ∧ s.2.heap.parent 1 = some s.2.self ∧
        eqnText (s.2.heap.name 1) (lit "stream") = true) ∧ s.2.heap.refcount 1 = 2 := by
    rw [← lands_false_iff]
    decide +kernel
  constructor
  · rw [← lands_false_iff]
    unfold Bus.Takes
    decide +kernel
  · rintro ⟨-, later⟩
    rcases once with ⟨s, result, takes, count⟩
    have streams := streams_coreEnv fun _ => ⟨true, 1⟩
    have sound : s.2.Sound := Env.sound_resetStream streams sound_newBus result
    have few := ((Env.resetsCleanly_iff streams sound).mp (later s result).1 1 takes).1
    change s.2.heap.refcount 1 ≤ 1 at few
    rw [count] at few
    exact absurd few (by decide)

end Xwbot
