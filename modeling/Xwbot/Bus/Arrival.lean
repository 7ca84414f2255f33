import Xwbot.Bus.Growth
import Xwbot.Bus.Outgoing

/-!
# Trees that arrive

What `x_bus_tx` writes for trees of objects is read by the bus at the other end into trees of its
own.  They have the names, the texts and the order of those that were sent, and their attributes:
only an element without any gets those of the element that was opened before it, which the parser
still holds.
-/

namespace Xwbot

open Links Runs Xwbot.Parser Xwbot.Heap

variable {env : Env} {m : Memory} {s s' : PushParser × Bus} {b : Bus} {kids kids' : Kids}
  {r o : Addr} {back : List Addr} {names : List Text} {e : Element} {f : Forest}
  {l l' : List AttrPair}

/-! ## Tags -/

theorem received_name (e : Element) (l : List AttrPair) : (e.received l).name = e.name := by
  unfold Element.received
  split
  · rfl
  · rfl

theorem received_content (e : Element) (l : List AttrPair) :
    (e.received l).content = e.content := by
  unfold Element.received
  split
  · rfl
  · rfl

theorem received_attrs (e : Element) (plain : PlainAttrs l) (own : PlainAttrs e.attrs) :
    PlainAttrs (e.received l).attrs := by
  unfold Element.received
  split
  · exact plain
  · exact own

/-- The attributes that a tag hands out. -/
theorem attrs_of_head {p q : PushParser} (head : TagHead m p e.tag q) (own : PlainAttrs e.attrs)
    (attrs : p.attrs = (attrList l).reverse) :
    q.attrs = (attrList (e.received l).attrs).reverse := by
  have pairs : e.tag.attrs.map AttrSpec.pair = attrList e.attrs := by
    rw [Element.tag, attrList, List.map_map]
    rfl
  unfold Element.received
  split
  · next nothing =>
      have unspaced : e.tag.spaced = false := by
        rw [Tag.spaced, Element.tag, nothing]
        rfl
      rw [head.inherited unspaced, attrs]
  · next some =>
      have spaced : e.tag.spaced = true := by
        rw [Tag.spaced, Element.tag, List.isEmpty_map, List.isEmpty_eq_false_iff.mpr some]
        rfl
      have read := (head.own spaced).eq_of_clean (fun a member => ?_) ?_ (by simp [attrKeys])
      · rw [read, pairs, List.append_nil]
      · rcases List.mem_map.mp member with ⟨pair, inside, rfl⟩
        exact own.clean pair inside
      · have names : e.tag.attrs.map (fun a => a.name.text) = e.attrs.map fun a => a.key.text := by
          rw [Element.tag, List.map_map]
          rfl
        rw [names]
        exact own.distinct

variable (m) in
/-- The tag of an element without a class, up to the byte that opens it. -/
theorem Between.born (passive : env.Passive) (between : Between names (r :: back) s)
    (hosts : env.Hosts s.2.heap r (r :: back)) (rep : s.2.heap.Rep kids) (takes : env.Takes e)
    (plain : PlainAttrs l) (attrs : s.1.attrs = (attrList l).reverse) (empty : Bool) :
    ∃ q b', run (env.step m) s (e.tag.render ++ [tagEnd empty]) = .ok (enterTag m empty q, b') ∧
      TagHead m s.1 e.tag q ∧ q.attrs = (attrList (e.received l).attrs).reverse ∧
      b'.Focused (s.2.heap.top :: r :: back) ∧
      Named b'.heap (e.name.text :: names) (s.2.heap.top :: r :: back) ∧
      Born s.2.heap b'.heap kids r e.name.text (attrList (e.received l).attrs) := by
  rcases quiet_tag m between.waiting e.tag with ⟨p, q, quiet, head, dispatched⟩
  have read : run (env.step m) s e.tag.render = .ok (p, s.2) := by
    have read := quiet Bus (env.callbacks m) s.2
    rwa [feed_callbacks] at read
  have handed := attrs_of_head head takes.attrs attrs
  have unprefixed : (QName.split e.name.text).hasNs = false := decide_eq_false takes.unprefixed
  set b := (s.2.declare (QName.split e.name.text) q.attrs).1 with b_eq
  have focused : b.Focused (r :: back) :=
    ⟨between.focused.linked, between.focused.rObj, between.focused.path, between.focused.alive,
      between.focused.self⟩
  have hosts' : env.Hosts b.heap r (r :: back) := hosts
  have chained : b.heap.Chained := between.chained
  have rep' : b.heap.Rep kids := rep
  rcases openElement_new passive hosts' focused chained rep' takes
    (received_attrs e plain takes.attrs) with ⟨h', opened, born⟩
  have opened' : env.openElement b (QName.split e.name.text) q.attrs =
      .ok { b with heap := h', rObj := some b.heap.top } := by
    rw [handed]
    exact opened
  have stepped : env.step m (p, s.2) (tagEnd empty) =
      .ok (enterTag m empty q, { b with heap := h', rObj := some s.2.heap.top }) := by
    unfold Env.step putChar
    rw [dispatched empty, ok_bind, perform, head.name]
    change (env.objopen (some e.name.text) (q, s.2) >>= _) = _
    rw [Env.objopen]
    dsimp only
    rw [attrs_declare unprefixed, ← b_eq, opened']
    rfl
  refine ⟨q, _, run_concat_eq_ok read stepped, head, handed, born.focused focused, ?_, born⟩
  refine .element ⟨fun hasNs => ?_, e.name.text, QName.name_of_unprefixed takes.unprefixed, ?_⟩ ?_
  · rw [unprefixed] at hasNs
    cases hasNs
  · change eqText e.name.text (h'.name b.heap.top) = true
    rw [born.name]
    exact decide_eq_true rfl
  · exact between.named.congr fun y member =>
      (born.kept y (between.focused.alive y member)).place.name

/-- An object in front of another on the line is not the bus. -/
theorem Bus.Focused.ne_self (focused : b.Focused (o :: r :: back)) : o ≠ b.self := by
  have nodup := focused.path.nodup
  have last : (r :: back).getLast? = some b.self := by
    rw [← focused.self, List.getLast?_cons_cons]
  rw [List.nodup_cons] at nodup
  exact fun self => nodup.1 (self ▸ List.mem_of_getLast? last)

/-- The bracket that ends an element without a class. -/
theorem Env.step_leaves {p : PushParser} {name : Text} (handler : p.rPutc = .tag)
    (control : p.cr1 = .objClosing) (name_eq : p.r0.cstr m = some name)
    (focused : b.Focused (o :: r :: back)) (named : Named b.heap (name :: names) (o :: r :: back))
    (objclass : b.heap.objclass o = none) :
    env.step m (p, b) (ch '>') = .ok (p.leaveObject m, { b with rObj := some r }) := by
  rcases named.fits with ⟨prefixed, own, own_eq, same⟩
  have focus : b.rObj = some o := focused.rObj
  have alive : b.heap.live o = true := focused.alive o List.mem_cons_self
  have above : b.heap.parent o = some r := focused.parent_eq rfl
  have namespace_eq : ∃ ns, b.namespaceOf (QName.split name) [] = .ok ns := by
    unfold Bus.namespaceOf
    cases hasNs : (QName.split name).hasNs with
    | true =>
        rw [if_pos rfl, cbuf, if_neg (prefixed hasNs)]
        exact ⟨_, rfl⟩
    | false =>
        rw [if_neg Bool.false_ne_true]
        exact ⟨_, focused.getenv xmlns⟩
  rcases namespace_eq with ⟨ns, namespace_eq⟩
  have left : env.objclose m (some name) (p, b) = .ok (p, { b with rObj := some r }) := by
    unfold Env.objclose Env.closeElement
    simp only [namespace_eq, ok_bind, own_eq, focus, deref_of_live alive, same, if_true]
    unfold Env.lostFocus
    simp only [if_neg focused.ne_self, above, classOf_none objclass]
    rfl
  unfold Env.step putChar
  rw [dispatch_closeBracket m handler control, ok_bind, perform, name_eq]
  change (env.objclose m (some name) (p, b) >>= _) = _
  rw [left]
  rfl

/-- Behind the end of an element. -/
theorem Between.leave {p : PushParser} (stack_eq : p.stack = [])
    (focused : b.Focused (o :: r :: back)) (named : Named b.heap names (r :: back))
    (chained : b.heap.Chained) :
    Between names (r :: back) (p.leaveObject m, { b with rObj := some r }) := by
  have ready : Ready (p.leaveObject m) := Ready.leaveObject m stack_eq
  have above : b.heap.parent o = some r := focused.parent_eq rfl
  have up := focused.up rfl focused.ne_self
  rw [above] at up
  exact ⟨ready.waiting, fun _ => ready.name_empty, up, named, chained⟩

/-! ## Forests -/

/-- What the bytes of some markup do to a bus that has read the attributes `l` last: the forest
arrives below the focus, which stays, and `l'` have been read last. -/
structure Brought (env : Env) (m : Memory) (s s' : PushParser × Bus) (bytes : Text)
    (names : List Text) (r : Addr) (back : List Addr) (kids kids' : Kids) (f : Forest)
    (l' : List AttrPair) : Prop where
  result : run (env.step m) s bytes = .ok s'
  between : Between names (r :: back) s'
  arrived : Arrived s.2.heap s'.2.heap kids kids' r f
  attrs : s'.1.attrs = (attrList l').reverse
  plain : PlainAttrs l'

/-- A state in which objects may arrive. -/
structure Env.Open (env : Env) (s : PushParser × Bus) (names : List Text) (r : Addr)
    (back : List Addr) (kids : Kids) (l : List AttrPair) : Prop where
  between : Between names (r :: back) s
  hosts : env.Hosts s.2.heap r (r :: back)
  rep : s.2.heap.Rep kids
  attrs : s.1.attrs = (attrList l).reverse
  plain : PlainAttrs l

/-- Behind what has arrived there may arrive more. -/
theorem Brought.open {bytes : Text} (start : env.Open s names r back kids l)
    (brought : Brought env m s s' bytes names r back kids kids' f l') :
    env.Open s' names r back kids' l' where
  between := brought.between
  hosts := by
    refine brought.arrived.hosts start.hosts start.rep fun y member => ?_
    rcases List.mem_cons.mp member with rfl | member
    · exact start.between.focused.alive y List.mem_cons_self
    · exact start.between.focused.alive y member
  rep := brought.arrived.rep
  attrs := brought.attrs
  plain := brought.plain

variable (m) in
/-- A start tag makes a state in which the sons may arrive. -/
theorem Env.Open.startTag (passive : env.Passive) (start : env.Open s names r back kids l)
    (takes : env.Takes e) :
    ∃ s', run (env.step m) s (e.tag.render ++ [ch '>']) = .ok s' ∧
      Born s.2.heap s'.2.heap kids r e.name.text (attrList (e.received l).attrs) ∧
      env.Open s' (e.name.text :: names) s.2.heap.top (r :: back)
        (extend r s.2.heap.top (Function.update kids s.2.heap.top [])) (e.received l).attrs := by
  rcases start.between.born m passive start.hosts start.rep takes start.plain start.attrs false with
    ⟨q, b', result, head, attrs, focused, named, born⟩
  have ready : Ready (q.enterContent m) := Ready.enterContent m head.stack_eq
  have plain := received_attrs e start.plain takes.attrs
  refine ⟨(q.enterContent m, b'), result, born, ?_⟩
  constructor
  case between => exact ⟨ready.waiting, fun _ => ready.name_empty, focused, named, born.chained⟩
  case hosts => exact born.hosts start.hosts start.between.focused plain
  case rep => exact born.rep
  case attrs => exact attrs
  case plain => exact plain

/-- An element without sons or text. -/
theorem Env.Open.emptyTag (passive : env.Passive) (start : env.Open s names r back kids l)
    (takes : env.Takes e) (empty : e.content = []) : ∃ s' kids', Brought env m s s'
      (e.tag.render ++ [ch '/', ch '>']) names r back kids kids' (.node (e.received l) .nil .nil)
      (e.received l).attrs := by
  rcases start.between.born m passive start.hosts start.rep takes start.plain start.attrs true with
    ⟨q, b', opened, head, attrs, focused, named, born⟩
  have closed : env.step m (q.enterClosing m, b') (ch '>') =
      .ok ((q.enterClosing m).leaveObject m, { b' with rObj := some r }) :=
    Env.step_leaves head.handler rfl head.name focused named born.objclass
  have alive := start.between.focused.alive r List.mem_cons_self
  have bytes : (b'.heap.content s.2.heap.top).bytes = (e.received l).content := by
    rw [born.content, received_content, empty]
    rfl
  have same : b'.heap.setContent s.2.heap.top (b'.heap.content s.2.heap.top) = b'.heap := by
    rw [Heap.setContent, Function.update_eq_self]
  rw [← received_name e l] at born
  have arrived := born.arrived alive (Arrived.refl born.rep s.2.heap.top) bytes
  rw [same] at arrived
  have split : e.tag.render ++ [ch '/', ch '>'] = (e.tag.render ++ [tagEnd true]) ++ [ch '>'] := by
    rw [List.append_assoc]
    rfl
  refine ⟨((q.enterClosing m).leaveObject m, { b' with rObj := some r }),
    extend r s.2.heap.top (Function.update kids s.2.heap.top []), ?_⟩
  constructor
  case result =>
    rw [split]
    exact run_concat_eq_ok opened closed
  case between =>
    refine Between.leave head.stack_eq focused ?_ born.chained
    cases named with
    | element fits outer => exact outer
  case arrived => exact arrived
  case attrs => exact attrs
  case plain => exact received_attrs e start.plain takes.attrs

/-- An element with sons or text, when its sons arrive. -/
theorem Env.Open.element {sons : List Markup} (passive : env.Passive)
    (start : env.Open s names r back kids l) (takes : env.Takes e)
    (inside : ∀ s₁ kids₁, env.Open s₁ (e.name.text :: names) s.2.heap.top (r :: back) kids₁
      (e.received l).attrs → ∃ s₂ kids₂, Brought env m s₁ s₂ (render sons) (e.name.text :: names)
        s.2.heap.top (r :: back) kids₁ kids₂ f l') : ∃ s' kids', Brought env m s s'
      (e.tag.render ++ [ch '>'] ++ render sons ++ (e.content ++ e.endTag.render)) names r back kids
      kids' (.node (e.received l) f .nil) l' := by
  rcases start.startTag m passive takes with ⟨s₁, opened, born, start₁⟩
  rcases inside s₁ _ start₁ with ⟨s₂, kids₂, brought⟩
  have alive := start.between.focused.alive r List.mem_cons_self
  set o := s.2.heap.top with o_eq
  -- the text is put on the element, behind its sons
  rcases brought.between.text env m e.noBracket with ⟨texted, between₃⟩
  set h₃ := s₂.2.heap.setContent o ((s₂.2.heap.content o).puts m e.content) with h₃_eq
  have ready : Ready s₂.1 :=
    ⟨between₃.waiting.handler, between₃.waiting.control, between₃.waiting.stack_eq,
      between₃.register (List.cons_ne_nil _ _), between₃.waiting.drops⟩
  rcases quiet_endTag m ready e.name ⟨[], isBlank_of_mem_nil⟩ with ⟨q, quiet, foot⟩
  have read : run (env.step m) (s₂.1, { s₂.2 with heap := h₃ })
      (ch '<' :: ch '/' :: e.name.text ++ []) = .ok (q, { s₂.2 with heap := h₃ }) := by
    have read := quiet Bus (env.callbacks m) { s₂.2 with heap := h₃ }
    rwa [feed_callbacks] at read
  have own := brought.arrived.kept o born.live
  have objclass : h₃.objclass o = none := own.place.objclass.trans born.objclass
  have closed : env.step m (q, { s₂.2 with heap := h₃ }) (ch '>') =
      .ok (q.leaveObject m, { s₂.2 with heap := h₃, rObj := some r }) :=
    Env.step_leaves foot.handler foot.control foot.name between₃.focused between₃.named objclass
  have ended : run (env.step m) (s₂.1, { s₂.2 with heap := h₃ }) e.endTag.render =
      .ok (q.leaveObject m, { s₂.2 with heap := h₃, rObj := some r }) :=
    run_concat_eq_ok read closed
  have bytes : ((s₂.2.heap.content o).puts m e.content).bytes = (e.received l).content := by
    rw [XString.bytes_puts, own.content, born.content, received_content]
    rfl
  rw [← received_name e l] at born
  refine ⟨(q.leaveObject m, { s₂.2 with heap := h₃, rObj := some r }), kids₂, ?_⟩
  constructor
  case result =>
    rw [List.append_assoc, run_append, opened, ok_bind, run_append, brought.result, ok_bind,
      run_append, texted, ok_bind, ended]
  case between =>
    refine Between.leave foot.stack_eq between₃.focused ?_ between₃.chained
    cases between₃.named with
    | element fits outer => exact outer
  case arrived => exact born.arrived alive brought.arrived bytes
  case attrs => exact foot.attrs.trans brought.attrs
  case plain => exact brought.plain

/-- **Arrival.**  The text of a forest makes the forest as it is received, wherever the bus takes
objects. -/
theorem Env.Open.forest (passive : env.Passive) (start : env.Open s names r back kids l)
    (takes : f.All env.Takes) : ∃ s' kids', Brought env m s s' (render f.markup) names r back kids
      kids' (f.received l) (f.last l) := by
  induction f generalizing s names r back kids l with
  | nil =>
      exact ⟨s, kids, rfl, start.between, .refl start.rep r, start.attrs, start.plain⟩
  | node e sons siblings ihSons ihSiblings =>
      rcases takes with ⟨takes, takesSons, takesSiblings⟩
      obtain ⟨s₁, kids₁, first⟩ : ∃ s' kids', Brought env m s s'
          (render (e.wrap sons.isNil sons.markup)) names r back kids kids'
          (.node (e.received l) (sons.received (e.received l).attrs) .nil)
          (sons.last (e.received l).attrs) := by
        rw [render_wrap]
        split
        · next empty =>
            rw [Bool.and_eq_true, List.isEmpty_iff] at empty
            cases sons with
            | nil => exact start.emptyTag passive takes empty.2
            | node => cases empty.1
        · exact start.element passive takes fun s₁ kids₁ start₁ => ihSons start₁ takesSons
      rcases ihSiblings (first.open start) takesSiblings with ⟨s₂, kids₂, later⟩
      refine ⟨s₂, kids₂, ?_⟩
      constructor
      case result =>
        rw [Forest.markup, render_append, run_append, first.result, ok_bind, later.result]
      case between => exact later.between
      case arrived =>
        have alive := start.between.focused.alive r List.mem_cons_self
        exact first.arrived.trans alive later.arrived
      case attrs => exact later.attrs
      case plain => exact later.plain

/-! ## What is received -/

namespace Parser.Forest

/-- An element without attributes comes only while there are none to inherit. -/
def Settled (l : List AttrPair) : Forest → Prop
  | nil => True
  | node e sons siblings => (e.attrs = [] → l = []) ∧ sons.Settled (e.received l).attrs ∧
      siblings.Settled (sons.last (e.received l).attrs)

theorem received_eq_iff {e : Element} : e.received l = e ↔ (e.attrs = [] → l = []) := by
  unfold Element.received
  split
  · next nothing =>
      rw [nothing]
      constructor
      · intro same _
        have attrs := congrArg Element.attrs same
        exact attrs.trans nothing
      · intro none
        rw [none rfl, ← nothing]
  · next some => exact ⟨fun _ nothing => absurd nothing some, fun _ => rfl⟩

/-- Which forests are received as they are sent. -/
theorem received_eq_self_iff : f.received l = f ↔ f.Settled l := by
  induction f generalizing l with
  | nil => exact ⟨fun _ => trivial, fun _ => rfl⟩
  | node e sons siblings ihSons ihSiblings =>
      rw [received, Settled, ← received_eq_iff, ← ihSons, ← ihSiblings]
      constructor
      · intro same
        injection same with first below beside
        exact ⟨first, below, beside⟩
      · rintro ⟨first, below, beside⟩
        rw [first] at below beside ⊢
        rw [below, beside]

end Parser.Forest

/-! ## From bus to bus -/

/-- Reading in parts is reading all of it. -/
theorem Env.run_onRead (env : Env) (m : Memory) (s : PushParser × Bus) (reads : List Text) :
    run (env.onRead m) s reads = run (env.step m) s reads.flatten := by
  induction reads generalizing s with
  | nil => rfl
  | cons buf rest ih =>
      rw [run_cons, List.flatten_cons, run_append, Env.onRead]
      congr 1
      funext s'
      exact ih s'

/-- A call of `x_bus_tx` for a tree that can be read back. -/
structure LegibleTx extends Tx where
  element : Element
  below : Forest
  tree : IsTree heap msg element below

/-- The text of such a tree is its markup. -/
theorem LegibleTx.text_eq (tx : LegibleTx) :
    tx.toTx.text = render (tx.element.wrap tx.below.isNil tx.below.markup) := by
  rcases ser_eq_render tx.tree.below tx.root.below with ⟨noSons, inside⟩
  rw [Tx.text, ser, noSons, inside, enclose_eq_render tx.tree.shows]

/-- The trees that are sent. -/
def stanzas : List LegibleTx → Forest
  | [] => .nil
  | tx :: rest => .node tx.element tx.below (stanzas rest)

theorem render_stanzas (txs : List LegibleTx) :
    render (stanzas txs).markup = ((txs.map LegibleTx.toTx).map Tx.text).flatten := by
  induction txs with
  | nil => rfl
  | cons tx rest ih =>
      rw [stanzas, Forest.markup, render_append, ih, ← tx.text_eq]
      rfl

/-- The socket took all of the texts. -/
theorem taken_of_whole {txs : List Tx} (whole : ∀ tx ∈ txs, ¬tx.Short) (i : Nat) :
    taken i txs = offered i txs := by
  induction txs generalizing i with
  | nil => rfl
  | cons tx rest ih =>
      rw [List.forall_mem_cons] at whole
      have all : (placed i tx.text).take tx.err.toNat = placed i tx.text := by
        apply List.take_of_length_le
        rw [length_placed]
        exact Nat.not_lt.mp whole.1
      rw [taken, offered, all, ih whole.2]

/-- **From bus to bus.**  The trees that one bus sends, when its socket takes them whole, arrive in
their order behind the children of the other's focus, however the bytes are split into reads. -/
theorem busTx_arrives (m m' : Memory) {txs : List LegibleTx}
    (whole : ∀ tx ∈ txs.map LegibleTx.toTx, ¬tx.Short)
    (passive : env.Passive) (start : env.Open s names r back kids l)
    (takes : (stanzas txs).All env.Takes) :
    ∃ n, ∀ fuel, n ≤ fuel → ∃ w,
      run (busTx m fuel) .empty (txs.map LegibleTx.toTx) = .ok w ∧
      ∀ reads : List Text, reads.flatten = w.accepted.map Placed.byte →
        ∃ s' kids', run (env.onRead m') s reads = .ok s' ∧
          Arrived s.2.heap s'.2.heap kids kids' r ((stanzas txs).received l) ∧
          env.Open s' names r back kids' ((stanzas txs).last l) := by
  rcases run_busTx m (txs.map LegibleTx.toTx) with ⟨n, result⟩
  refine ⟨n, fun fuel enough => ⟨_, result fuel enough .empty, fun reads bytes => ?_⟩⟩
  have accepted : (sentAll .empty (txs.map LegibleTx.toTx)).accepted =
      offered 0 (txs.map LegibleTx.toTx) := taken_of_whole whole 0
  rw [accepted, map_byte_offered, ← render_stanzas] at bytes
  rcases start.forest (m := m') passive takes with ⟨s', kids', brought⟩
  refine ⟨s', kids', ?_, brought.arrived, brought.open start⟩
  rw [Env.run_onRead, bytes, brought.result]

/-! ## An example -/

/-- A bus that declares a namespace. -/
def declaringBus : Bus :=
  { newBus with heap := newBus.heap.setattr 0 xmlns (some (lit "jabber:client")) }

theorem passive_coreEnv (ssl : Nat → Handshake) : (coreEnv ssl).Passive :=
  fun _ _ _ => rfl

theorem takes_singleElement (ssl : Nat → Handshake) :
    (coreEnv ssl).Takes (singleElement [] noBracket_nil) where
  unprefixed := by decide
  short := by decide
  fits := by decide
  unregistered ns _ := by
    change coreClass (lit "a") ns = none
    have others : eqText (lit "a") (lit "stream") = false ∧
        eqText (lit "a") (lit "features") = false ∧ eqText (lit "a") (lit "starttls") = false ∧
        eqText (lit "a") (lit "proceed") = false ∧ eqText (lit "a") (lit "failure") = false := by
      decide
    simp [coreClass, others]
  attrs := ⟨fun _ member => absurd member List.not_mem_nil, List.nodup_nil,
    fun _ member => absurd member List.not_mem_nil⟩

theorem open_declaringBus (ssl : Nat → Handshake) :
    ∃ kids, (coreEnv ssl).Open (PushParser.init (.filled 0), declaringBus) [] 0 [] kids [] := by
  have linked : declaringBus.heap.Linked := linked_newBus.setAttrs _
  have chained : declaringBus.heap.Chained := Heap.chained_of_next (by decide +kernel)
  have nothing : PlainAttrs [] :=
    ⟨fun _ member => absurd member List.not_mem_nil, List.nodup_nil,
      fun _ member => absurd member List.not_mem_nil⟩
  have hosts : (coreEnv ssl).Hosts declaringBus.heap 0 [0] := by
    constructor
    case quiet => exact fun _ _ => rfl
    case fresh =>
      intro x alive above
      have bound := declaringBus.heap.live_lt x alive
      have first : x = 0 := Nat.lt_one_iff.mp bound
      rw [first] at above
      cases above
    case declared => exact ⟨0, List.mem_singleton_self 0, rfl⟩
    case short =>
      intro y member ns own
      rw [List.mem_singleton.mp member] at own
      cases own
      decide
  have focused : declaringBus.Focused [0] := by
    constructor
    case linked => exact linked
    case rObj => rfl
    case path => exact ⟨rfl, rfl⟩
    case alive =>
      intro y member
      rw [List.mem_singleton.mp member]
      rfl
    case self => rfl
  rcases linked.rep with ⟨kids, rep⟩
  exact ⟨kids, ⟨(Ready.init _).waiting, fun other => absurd rfl other, focused, .bus 0, chained⟩,
    hosts, rep, rfl, nothing⟩

/-- The object `<a/>`, which is sent whole. -/
def legibleA : LegibleTx :=
  { sentA 4 with
    element := singleElement [] noBracket_nil
    below := .nil
    tree := isTree_single [] noBracket_nil }

/-- Two objects arrive, read byte by byte or otherwise. -/
theorem busTx_arrives_two : ∃ n, ∀ fuel, n ≤ fuel →
    ∃ w, run (busTx (.filled 0) fuel) .empty [sentA 4, sentA 4] = .ok w ∧
      ∀ reads : List Text, reads.flatten = w.accepted.map Placed.byte → ∃ s' kids kids',
        run ((coreEnv fun _ => ⟨true, 1⟩).onRead (.filled 1))
            (PushParser.init (.filled 0), declaringBus) reads = .ok s' ∧
          Arrived declaringBus.heap s'.2.heap kids kids' 0
            (.node (singleElement [] noBracket_nil) .nil
              (.node (singleElement [] noBracket_nil) .nil .nil)) := by
  have whole : ∀ tx ∈ [legibleA, legibleA].map LegibleTx.toTx, ¬tx.Short := by
    intro tx member
    have same : tx = sentA 4 := by simpa [legibleA] using member
    rw [same, Tx.Short]
    decide +kernel
  have takes : (stanzas [legibleA, legibleA]).All (coreEnv fun _ => ⟨true, 1⟩).Takes :=
    ⟨takes_singleElement _, trivial, takes_singleElement _, trivial, trivial⟩
  rcases open_declaringBus fun _ => ⟨true, 1⟩ with ⟨kids, start⟩
  rcases busTx_arrives (.filled 0) (.filled 1) whole (passive_coreEnv _) start takes with
    ⟨n, arrives⟩
  refine ⟨n, fun fuel enough => ?_⟩
  rcases arrives fuel enough with ⟨w, result, later⟩
  refine ⟨w, result, fun reads bytes => ?_⟩
  rcases later reads bytes with ⟨s', kids', taken, arrived, -⟩
  exact ⟨s', kids, kids', taken, arrived⟩

end Xwbot
