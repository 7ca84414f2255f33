import Xwbot.Bus.Discipline
import Xwbot.Parser.Totality

/-!
# Whatever the server sends

Bytes that are no document reach the callbacks of the bus as well: tags without a name, end tags
that nothing was opened for, elements whose namespace nobody declared.  The focus stays inside the
bus as long as every byte that completes a tag meets a condition on the tag and on the bus before
it; without it, a callback looks at NULL or at a freed object, or leaves the bus.
-/

namespace Xwbot

open Links Runs Xwbot.Parser

variable {env : Env} {m : Memory} {b b' : Bus} {s s' : PushParser × Bus} {o : Addr}
  {line : List Addr} {name : Text} {attrs : AttrList} {c : Byte}

/-- A bus whose focus is inside it and whose chains are in order. -/
structure Bus.Steady (b : Bus) : Prop where
  focused : ∃ line, b.Focused line
  chained : b.heap.Chained

theorem Bus.Steady.inside (steady : b.Steady) : b.Inside :=
  steady.focused.elim fun _ focused => focused.inside

/-! ## Resetting the stream -/

/-- The reference to the old stream can be given up: somebody else holds one, or no `next` link
leads to the object. -/
def Bus.Droppable (b : Bus) : Prop :=
  ∀ x, b.heap.getChild (some b.self) (some (lit "stream")) = .ok (some x) →
    1 < b.heap.refcount x ∨ ∀ y, b.heap.live y = true → b.heap.next y ≠ some x

namespace Bus.Focused

variable (env) in
/-- The new stream is made and appended. -/
theorem addStream (focused : b.Focused line) (chained : b.heap.Chained) :
    ∃ b', env.addStream b = .ok b' ∧ b'.Focused line ∧ b'.heap.Chained := by
  have creatable : Env.Creatable (lit "stream") (lit "http://etherx.jabber.org/streams") :=
    ⟨by decide, by decide, by decide⟩
  obtain ⟨b₁, streamo, created⟩ : ∃ b₁ streamo, env.newNsMatch b (lit "stream")
      (lit "http://etherx.jabber.org/streams") [] = .ok (b₁, streamo) :=
    ⟨_, _, (env.newNsMatch_eq_ok_iff).mpr ⟨creatable, rfl⟩⟩
  rcases focused.newNsMatch created with ⟨beside₁, orphan, outside, holds₁⟩
  let h₁ := b₁.heap.setattr streamo (lit "remote") (getattr (lit "domain") (b₁.heap.attrs b₁.self))
  let h₂ := h₁.setattr streamo (lit "local") (getattr (lit "jid") (h₁.attrs b₁.self))
  have focused₂ : ({ b₁ with heap := h₂ } : Bus).Focused line :=
    beside₁.focused.of_samePlace ((beside₁.focused.linked.setAttrs _).setAttrs _) rfl rfl
      fun _ _ => ⟨rfl, rfl, rfl, rfl, rfl⟩
  have chained₂ : h₂.Chained := ((beside₁.chained chained).setAttrs _).setAttrs _
  have holds₂ : ({ b₁ with heap := h₂ } : Bus).Holds streamo (b₁.heap.name streamo)
      (b₁.heap.objclass streamo) (h₂.xmlnsOf streamo) :=
    ⟨holds₁.alive, rfl, rfl, rfl⟩
  rcases focused₂.appendChild_succeeds env chained₂ holds₂ orphan outside
    beside₁.focused.self_mem with ⟨b₂, appended⟩
  rcases focused₂.appendChild holds₂ orphan outside appended with ⟨beside₃, -⟩
  refine ⟨b₂, ?_, beside₃.focused, beside₃.chained chained₂⟩
  unfold Env.addStream
  rw [created, ok_bind]
  exact appended

variable (env m) in
/-- **Resetting the stream** of a bus whose chains are in order. -/
theorem resets (focused : s.2.Focused line) (chained : s.2.heap.Chained)
    (droppable : s.2.Droppable) :
    ∃ b', env.resetStream m s = .ok (s.1.reset m, b') ∧ b'.Steady := by
  have alive := focused.alive s.2.self focused.self_mem
  rcases focused.linked.getChild alive (some (lit "stream")) with ⟨old, looked, sons⟩
  obtain ⟨h, put, chained₀⟩ : ∃ h, s.2.heap.refPut old = .ok h ∧ h.Chained := by
    cases old with
    | none => exact ⟨s.2.heap, rfl, chained⟩
    | some x =>
        rcases sons x rfl with ⟨aliveX, parent_eq⟩
        exact focused.linked.dropSon chained aliveX alive parent_eq (droppable x looked)
  have focused₀ := focused.dropped looked put
  rcases focused₀.addStream env chained₀ with ⟨b', added, focused', chained'⟩
  refine ⟨b', ?_, ⟨_, focused'⟩, chained'⟩
  rw [Env.resetStream_eq, looked, ok_bind, put, ok_bind, added, ok_bind]

end Bus.Focused

/-! ## Opening -/

/-- What opening an element asks for: a declaration resolves it, the class of the object that is
found for it answers, and for a new one the class lookup is within its buffers and the name within
its block. -/
structure Env.Openable (env : Env) (b : Bus) (name : Text) (attrs : AttrList) : Prop where
  declared : b.Declared (QName.split name) attrs
  answers : ∀ o, env.finds (b.declare (QName.split name) attrs).1 (QName.split name).name
    (b.declare (QName.split name) attrs).2 = .ok (some o) →
      Succeeds (env.objectMatch b.heap o (b.declare (QName.split name) attrs).2)
  fits : ∀ cname ns, env.classKeys b name attrs = .ok (some (cname, ns)) →
    cname.length < lowcaseBuf ∧ ns.length < lowcaseBuf ∧ NameFits cname

/-- Opening an element. -/
theorem Bus.Steady.objopen (steady : s.2.Steady) (openable : env.Openable s.2 name s.1.attrs) :
    ∃ attrs b', env.objopen (some name) s = .ok ({ s.1 with attrs := attrs }, b') ∧
      b'.Steady := by
  rcases steady with ⟨⟨line, focused⟩, chained⟩
  rcases focused.resolved_iff.mpr openable.declared with ⟨ns, namespace_eq⟩
  have focused' : (s.2.declare (QName.split name) s.1.attrs).1.Focused line :=
    ⟨focused.linked, focused.rObj, focused.path, focused.alive, focused.self⟩
  have chained' : (s.2.declare (QName.split name) s.1.attrs).1.heap.Chained := chained
  obtain ⟨b', line', element, inside, chains⟩ :=
    focused'.openElement chained' namespace_eq openable.answers (fun own name_eq missing => by
      have fits := openable.fits _ _ (Bus.Focused.classKeys_of_finds namespace_eq name_eq missing)
      exact ⟨fits.2.1, fits.1, fits.2.2⟩)
  refine ⟨(s.2.declare (QName.split name) s.1.attrs).2, b', ?_, ⟨line', inside⟩, chains⟩
  change (env.openElement _ (QName.split name) _ >>= fun b => _) = _
  rw [element]
  rfl

/-! ## Closing -/

/-- Where the end of the object resets the stream, `tls_exit` finds the bus at the object, and the
reference to the old stream can be given up. -/
def Env.Leaves (env : Env) (b : Bus) (o : Addr) : Prop :=
  match (env.classOf b.heap o).commit with
  | .tlsExit => eqText (b.heap.name o) (lit "proceed") = true →
      b.heap.bus o = some b.self ∧ b.Droppable
  | .call run _ => (run b o).2 = true → (run b o).1.Droppable

/-- What an end tag asks for: there is a name, in front of the colon and behind it; and when the
name fits the focus, this is not the bus and can be left. -/
structure Env.Closable (env : Env) (b : Bus) (name : Text) : Prop where
  prefixed : (QName.split name).hasNs = true → (QName.split name).ns ≠ []
  named : (QName.split name).name ≠ none
  below : b.closing (some name) ≠ some b.self
  leaves : ∀ o, b.closing (some name) = some o → env.Leaves { b with rObj := b.heap.parent o } o

/-- The handshake leaves the heap alone. -/
theorem Bus.Droppable.startTls (droppable : b.Droppable) : (env.startTls b).Droppable := by
  unfold Env.startTls
  dsimp only
  split <;> exact droppable

/-- The end of an object below the bus. -/
theorem Bus.Steady.lostFocus (steady : s.2.Steady) (alive : s.2.heap.live o = true)
    (other : o ≠ s.2.self) (leaves : env.Leaves s.2 o) :
    Lands (fun s' => s'.2.Steady ∧ (s'.1 = s.1 ∨ s'.1 = s.1.reset m)) (· = .bug)
      (env.lostFocus m s o) := by
  rcases steady with ⟨⟨line, focused⟩, chained⟩
  unfold Env.lostFocus
  rw [if_neg other]
  unfold Env.Leaves at leaves
  cases commit : (env.classOf s.2.heap o).commit with
  | call run frame =>
      simp only [commit] at leaves ⊢
      have called := focused.frame (frame s.2 o alive)
      have chained' := (frame s.2 o alive).chained focused.linked chained
      split
      · next renews =>
          rcases @Bus.Focused.resets env m (s.1, (run s.2 o).1) line called chained' (leaves renews)
            with ⟨b', result, steady⟩
          rw [result]
          exact ⟨steady, .inr rfl⟩
      · exact ⟨⟨⟨line, called⟩, chained'⟩, .inl rfl⟩
  | tlsExit =>
      simp only [commit] at leaves ⊢
      unfold Env.tlsExit
      dsimp only
      split
      · next proceed =>
          rcases leaves proceed with ⟨bus_eq, droppable⟩
          rw [if_neg (not_not.mpr bus_eq)]
          have chained' : (env.startTls s.2).heap.Chained := by
            unfold Env.startTls
            dsimp only
            split <;> exact chained
          rcases @Bus.Focused.resets env m (s.1, env.startTls s.2) line focused.startTls chained'
            droppable.startTls with ⟨b', result, steady⟩
          rw [result]
          exact ⟨steady, .inr rfl⟩
      · split
        · exact ⟨⟨⟨line, focused⟩, chained⟩, .inl rfl⟩
        · split
          · exact ⟨⟨⟨line, focused⟩, chained⟩, .inl rfl⟩
          · rfl

/-- An end tag, whether or not it fits the focus. -/
theorem Bus.Steady.objclose (steady : s.2.Steady) (closable : env.Closable s.2 name) :
    Lands (fun s' => s'.2.Steady ∧ (s'.1 = s.1 ∨ s'.1 = s.1.reset m)) (· = .bug)
      (env.objclose m (some name) s) := by
  rcases steady with ⟨⟨line, focused⟩, chained⟩
  rcases focused.exists_head with ⟨o, focus, member⟩
  have alive := focused.alive o member
  obtain ⟨ns, namespace_eq⟩ : Succeeds (s.2.namespaceOf (QName.split name) []) := by
    unfold Bus.namespaceOf
    cases hasNs : (QName.split name).hasNs with
    | true =>
        rw [if_pos rfl, cbuf, if_neg (closable.prefixed hasNs)]
        exact ⟨_, rfl⟩
    | false =>
        rw [if_neg (by simp)]
        exact ⟨_, focused.getenv xmlns⟩
  rcases Option.ne_none_iff_exists'.mp closable.named with ⟨own, name_eq⟩
  unfold Env.objclose Env.closeElement
  simp only [namespace_eq, ok_bind, name_eq, focus, Heap.deref_of_live alive]
  split
  · next fits =>
      have closing : s.2.closing (some name) = some o := by
        simp [Bus.closing, name_eq, focus, fits]
      have other : o ≠ s.2.self := fun same => closable.below (same ▸ closing)
      -- the focus is the first of its line, the bus is the last
      cases line with
      | nil => cases focused.self
      | cons o' above =>
          have head := focused.rObj
          rw [focus] at head
          cases head
          have up : ({ s.2 with rObj := s.2.heap.parent o } : Bus).Steady :=
            ⟨⟨above, focused.up rfl other⟩, chained⟩
          exact @Bus.Steady.lostFocus env m (s.1, { s.2 with rObj := s.2.heap.parent o }) o up alive
            other (closable.leaves o closing)
  · exact ⟨⟨⟨line, focused⟩, chained⟩, .inl rfl⟩

/-! ## One byte -/

/-- The tag that a byte completes for a callback: its name, if there is one, and its attributes. -/
def completes (call : Call) (m : Memory) (s : PushParser × Bus) (c : Byte) :
    Option (Option Text × AttrList) :=
  match dispatch m s.1 c with
  | .ok o => if o.call = call then some (o.parser.r0.cstr m, o.parser.attrs) else none
  | .error _ => none

theorem completes_of_dispatch {call : Call} {out : Outcome}
    (dispatched : dispatch m s.1 c = .ok out) (same : out.call = call) :
    completes call m s c = some (out.parser.r0.cstr m, out.parser.attrs) := by
  simp only [completes, dispatched, same, if_true]

namespace Env

/-- What a byte asks for: a tag that it completes has a name, and what it begins can be opened, and
what it ends can be closed. -/
structure Tame (env : Env) (m : Memory) (s : PushParser × Bus) (c : Byte) : Prop where
  opens : ∀ tag, completes .xobjopen m s c = some tag →
    ∃ name, tag.1 = some name ∧ env.Openable s.2 name tag.2
  closes : ∀ tag, completes .xobjclose m s c = some tag →
    ∃ name, tag.1 = some name ∧ env.Closable s.2 name

/-- The focus is inside the bus, the byte opens no element whose namespace is NULL, and behind the
byte the focus is inside the bus again, unless the program stops at a `BUG()`. -/
structure Robust (env : Env) (m : Memory) (s : PushParser × Bus) (c : Byte) : Prop where
  inside : s.2.Inside
  resolved : ∀ name attrs, opensAt m s c = some (name, attrs) →
    s.2.Resolved (QName.split name) attrs
  returns : Lands (fun s' => s'.2.Inside) (· = .bug) (env.step m s c)

/-- What holds between two bytes. -/
structure Listening (s : PushParser × Bus) : Prop where
  parser : Inv s.1
  steady : s.2.Steady

/-- **One byte.** -/
theorem Listening.step (listening : Listening s) (tame : env.Tame m s c) :
    Lands Listening (· = .bug) (env.step m s c) := by
  have spec := dispatch_keeps m listening.parser c
  unfold Env.step putChar
  split at spec
  · rw [spec]
    rfl
  · rcases spec with ⟨out, dispatched, keeps⟩
    have completed : ∀ call, out.call = call →
        completes call m s c = some (out.parser.r0.cstr m, out.parser.attrs) :=
      fun _ => completes_of_dispatch dispatched
    rw [dispatched, ok_bind]
    cases call : out.call with
    | none => exact ⟨keeps.inv out.parser.attrs, listening.steady⟩
    | xputchar c' =>
        rcases listening.steady with ⟨⟨line, focused⟩, chained⟩
        rcases focused.exists_head with ⟨r, focus, member⟩
        have stored : busPutchar m c' (out.parser, s.2) = .ok (out.parser, { s.2 with
            heap := s.2.heap.setContent r ((s.2.heap.content r).putc m c') }) := by
          unfold busPutchar
          simp only [focus, Heap.deref_of_live (focused.alive r member), ok_bind]
        simp only [perform, callbacks, stored, ok_bind]
        refine ⟨keeps.inv out.parser.attrs, ⟨line, ?_⟩, chained.setContent _⟩
        exact focused.of_samePlace (focused.linked.setContent _) rfl rfl
          fun _ _ => ⟨rfl, rfl, rfl, rfl, rfl⟩
    | xobjopen =>
        rcases tame.opens _ (completed .xobjopen call) with ⟨name, name_eq, openable⟩
        rcases @Bus.Steady.objopen env (out.parser, s.2) name listening.steady openable with
          ⟨attrs, b', opened, steady⟩
        simp only [perform, callbacks]
        rw [show out.parser.r0.cstr m = some name from name_eq, opened, ok_bind]
        exact ⟨keeps.inv attrs, steady⟩
    | xobjclose =>
        rcases tame.closes _ (completed .xobjclose call) with ⟨name, name_eq, closable⟩
        have closed := @Bus.Steady.objclose env m (out.parser, s.2) name listening.steady closable
        simp only [perform, callbacks]
        rw [show out.parser.r0.cstr m = some name from name_eq]
        refine closed.bind fun s' behind => ⟨?_, behind.1⟩
        rcases behind.2 with same | same
        · rw [same]
          exact keeps.inv out.parser.attrs
        · rw [same]
          exact keeps.inv_reset call

/-- A byte that meets the condition does what it should. -/
theorem Listening.robust (listening : Listening s) (tame : env.Tame m s c) : env.Robust m s c where
  inside := listening.steady.inside
  resolved name attrs opening := by
    rcases listening.steady.focused with ⟨line, focused⟩
    rcases exists_dispatch_of_opensAt opening with ⟨out, dispatched, call, name_eq, attrs_eq⟩
    have completed : completes .xobjopen m s c = some (some name, attrs) := by
      rw [completes_of_dispatch dispatched call, name_eq, attrs_eq]
    rcases tame.opens _ completed with ⟨name', name_eq, openable⟩
    cases name_eq
    exact focused.resolved_iff.mpr openable.declared
  returns := (listening.step tame).mono (fun _ behind => behind.steady.inside) fun _ => id

/-- A reset of a bus in order makes the state in front of the first byte. -/
theorem Listening.started {s₀ : PushParser × Bus} (linked : s₀.2.heap.Linked)
    (alive : s₀.2.heap.live s₀.2.self = true) (root : s₀.2.heap.parent s₀.2.self = none)
    (started : env.resetStream m s₀ = .ok s) (chained : s.2.heap.Chained) : Listening s := by
  refine ⟨?_, ⟨_, focused_of_resetStream linked alive root started⟩, chained⟩
  rcases resetStream_eq_ok started with ⟨-, -, b', -, -, -, rfl⟩
  exact ⟨.text, XString.cbuf_isSome_clear m _⟩

/-- **Robustness.**  From a reset on, as long as every tag that a byte completes meets the
condition, the focus stays inside the bus, no namespace is NULL and no callback fails. -/
theorem robust_of_along {s₀ : PushParser × Bus} {bytes : List Byte} (linked : s₀.2.heap.Linked)
    (alive : s₀.2.heap.live s₀.2.self = true) (root : s₀.2.heap.parent s₀.2.self = none)
    (started : env.resetStream m s₀ = .ok s) (chained : s.2.heap.Chained)
    (tame : Along (env.step m) (env.Tame m) s bytes) :
    Along (env.step m) (env.Robust m) s bytes ∧
      Lands (fun s' => s'.2.Inside) (· = .bug) (run (env.step m) s bytes) := by
  have start : Listening s := .started linked alive root started chained
  have keeps : ∀ s c, Listening s → env.Tame m s c → Lands Listening (· = .bug) (env.step m s c) :=
    fun s c listening tame => listening.step tame
  constructor
  · refine tame.imp Listening (fun s c s' listening tame result => ?_)
      (fun s c listening tame => listening.robust tame) start
    have lands := keeps s c listening tame
    rwa [result] at lands
  · exact (tame.lands keeps start).mono (fun s' listening => listening.steady.inside) fun _ => id

/-- An element that declares its namespace, an end tag that nothing was opened for, the end of the
element, and another end tag behind it. -/
def surplusEnds : Text :=
  lit "<a xmlns=" ++ [apos] ++ lit "u" ++ [apos] ++ lit ">t</b></a></c>"

theorem keepsStream.leaves (keeps : env.keepsStream b o = true) :
    env.Leaves { b with rObj := b.heap.parent o } o := by
  unfold keepsStream at keeps
  unfold Leaves
  cases commit : (env.classOf b.heap o).commit with
  | call run frame =>
      simp only [commit, Bool.not_eq_true'] at keeps ⊢
      rw [keeps]
      rintro ⟨⟩
  | tlsExit =>
      simp only [commit, Bool.and_eq_true, Bool.not_eq_true'] at keeps ⊢
      rw [keeps.1]
      rintro ⟨⟩

theorem robust_of_along_surplus :
    ∃ s, (coreEnv fun _ => ⟨true, 1⟩).started = .ok s ∧
      Along ((coreEnv fun _ => ⟨true, 1⟩).step (.filled 0))
        ((coreEnv fun _ => ⟨true, 1⟩).Robust (.filled 0)) s surplusEnds ∧
      Lands (fun s' => s'.2.Inside) (· = .bug)
        (run ((coreEnv fun _ => ⟨true, 1⟩).step (.filled 0)) s surplusEnds) := by
  -- the element is a new one in plain sight, and no end tag has a prefix or resets the stream
  have concrete : (coreEnv fun _ => ⟨true, 1⟩).started.map (fun s => decide
      ((∀ x < s.2.heap.top, s.2.heap.live x = true → s.2.heap.next x = none) ∧
        Along ((coreEnv fun _ => ⟨true, 1⟩).step (.filled 0)) (fun s c =>
          (∀ tag ∈ completes .xobjopen (.filled 0) s c, ∃ name ∈ tag.1,
            (coreEnv fun _ => ⟨true, 1⟩).Begins s.2 name tag.2 ∧
              ((coreEnv fun _ => ⟨true, 1⟩).finds (s.2.declare (QName.split name) tag.2).1
                (QName.split name).name (s.2.declare (QName.split name) tag.2).2).toOption =
                  some none) ∧
          ∀ tag ∈ completes .xobjclose (.filled 0) s c, ∃ name ∈ tag.1,
            (QName.split name).hasNs = false ∧ (QName.split name).name ≠ none ∧
              s.2.closing (some name) ≠ some s.2.self ∧
              ∀ o ∈ s.2.closing (some name),
                (coreEnv fun _ => ⟨true, 1⟩).keepsStream s.2 o = true) s surplusEnds)) =
      .ok true := by
    decide +kernel
  rcases map_eq_ok_iff.mp concrete with ⟨s, started, holds⟩
  rcases of_decide_eq_true holds with ⟨alone, along⟩
  refine ⟨s, started, robust_of_along linked_newBus rfl rfl started (Heap.chained_of_next alone)
    (along.mono ?_)⟩
  rintro s c ⟨opens, closes⟩
  constructor
  case opens =>
    intro tag completed
    rcases opens tag completed with ⟨name, name_eq, begins, missing⟩
    refine ⟨name, name_eq, begins.opens.declared, fun o found => ?_, begins.opens.fits⟩
    rw [found] at missing
    cases missing
  case closes =>
    intro tag completed
    rcases closes tag completed with ⟨name, name_eq, plain, named, below, keeps⟩
    refine ⟨name, name_eq, fun hasNs => ?_, named, below, fun o closing => ?_⟩
    · rw [plain] at hasNs
      cases hasNs
    · exact keepsStream.leaves (keeps o closing)

/-- For an element without a namespace, right behind the reset, `strchr` gets NULL; and so does the
comparison of the names for an end tag without one. -/
theorem not_robust_undeclared :
    (∀ bytes ∈ [lit "<a>", lit "</>", lit "</:x>", lit "</a:>"],
      ((coreEnv fun _ => ⟨true, 1⟩).started >>= fun s =>
        (run ((coreEnv fun _ => ⟨true, 1⟩).step (.filled 0)) s bytes).map fun _ => ()) =
          .error .segv) ∧
    ∃ s, (coreEnv fun _ => ⟨true, 1⟩).started = .ok s ∧ s.2.heap.Chained ∧
      ¬Along ((coreEnv fun _ => ⟨true, 1⟩).step (.filled 0))
        ((coreEnv fun _ => ⟨true, 1⟩).Robust (.filled 0)) s (lit "<a" ++ [ch '>']) := by
  refine ⟨by decide +kernel, ?_⟩
  have concrete : ((coreEnv fun _ => ⟨true, 1⟩).started >>= fun s =>
      (run ((coreEnv fun _ => ⟨true, 1⟩).step (.filled 0)) s (lit "<a")).map fun s' =>
        (decide (∀ x < s.2.heap.top, s.2.heap.live x = true → s.2.heap.next x = none),
          decide (Lands (fun _ => True) (· = .bug)
            ((coreEnv fun _ => ⟨true, 1⟩).step (.filled 0) s' (ch '>'))))) = .ok (true, false) := by
    decide +kernel
  rcases bind_eq_ok_iff.mp concrete with ⟨s, started, ran⟩
  rcases map_eq_ok_iff.mp ran with ⟨s', result, values⟩
  rcases Prod.mk.inj values with ⟨alone, fails⟩
  refine ⟨s, started, Heap.chained_of_next (of_decide_eq_true alone), fun robust => ?_⟩
  have here := ((along_append.mp robust).2 s' result).1.returns
  exact of_decide_eq_false fails (here.mono (fun _ _ => trivial) fun _ => id)

end Env

end Xwbot
