import Xwbot.Bus.ClassLookup
import Xwbot.Bus.Focus
import Xwbot.Bus.Reset
import Xwbot.Parser.Serializer

/-!
# Elements and the focus

For a document whose elements are nested, the focus should be the object of the innermost open
element.  `__x_bus_objopen` uses an object again if the classes let it, though, and finds it by a
lookup that only compares the beginning of the element's name, while `__x_bus_objclose` compares
the whole name and leaves the focus where it is if that differs.
-/

namespace Xwbot

open Links Runs Xwbot.Parser

variable {env : Env} {m : Memory} {b b' : Bus} {s s' : PushParser × Bus} {o r x y : Addr}
  {line back : List Addr} {q : QName} {attrs : AttrList} {name own : Text} {names : List Text}

/-! ## What an opened element is -/

/-- The child of the focus that is used again for an element: from the first whose name begins
that of the element, the first along the `next` links that its class accepts. -/
def Env.Reuses (env : Env) (b : Bus) (own : Text) (attrs : AttrList) (o : Addr) : Prop :=
  ∃ r sons start chain, b.rObj = some r ∧ Path b.heap.sibling (b.heap.sons r) sons none ∧
    b.heap.firstNamed sons own = some start ∧ Path b.heap.next (some start) chain none ∧
    chain.find? (env.stopsFind b.heap attrs) = some o

/-- The default namespace of a new object, when its class and the parent's are done with it. -/
def Env.newXmlns (env : Env) (b : Bus) (objclass : ObjectClass) (attrs : AttrList) : Option Text :=
  objclass.onAssign.xmlns attrs <| env.pathListeners.xmlns () <| objclass.onAppend.xmlns () <|
    (match b.rObj with
      | some r => (env.classOf b.heap r).onChildAppend
      | none => .absent Unit).xmlns () <|
    objclass.onCreate.xmlns () none

/-- What `__x_bus_objopen` has done when the focus is `o`. -/
structure Opened (env : Env) (b : Bus) (own ns : Text) (attrs : AttrList) (line : List Addr)
    (b' : Bus) (o : Addr) : Prop where
  focused : b'.Focused (o :: line)
  nsmap : b'.nsmap = b.nsmap
  place : ∀ y ∈ line, SamePlace b.heap b'.heap y
  xmlns : ∀ y ∈ line, b'.heap.xmlnsOf y = b.heap.xmlnsOf y
  chained : b'.heap.Chained
  source :
    env.Reuses b own attrs o ∧ b'.heap.name o = b.heap.name o ∧
        b'.heap.xmlnsOf o = (env.classOf b.heap o).onAssign.xmlns attrs (b.heap.xmlnsOf o) ∨
      (¬∃ o, env.Reuses b own attrs o) ∧ b'.heap.name o = objectName own ∧
        b'.heap.xmlnsOf o =
          env.newXmlns b (env.classAt (env.getClass (objectName own) ns attrs)) attrs

namespace Bus.Focused

variable (env) in
/-- The search finds the object to use again. -/
theorem search (focused : b.Focused line) (chained : b.heap.Chained) (own : Text)
    (attrs : AttrList) :
    ∃ found, env.finds b (some own) attrs = .ok found ∧
      ∀ o, found = some o ↔ env.Reuses b own attrs o := by
  rcases focused.exists_head with ⟨r, focus, member⟩
  have alive := focused.alive r member
  rcases focused.linked.rep with ⟨kids, rep⟩
  have looked := rep.getChild alive own
  unfold Env.finds
  rw [focus]
  cases first : b.heap.firstNamed (kids r) own with
  | none =>
      rw [first] at looked
      have stays : Passes b.heap.live (env.stopsFind b.heap attrs) b.heap.next none [] none :=
        ⟨rfl, by simp, by simp, by simp, by simp⟩
      rw [looked, ok_bind, b.heap.follow_of_passes stays, ok_bind]
      refine ⟨none, rfl, fun o => ?_⟩
      constructor
      · rintro ⟨⟩
      · rintro ⟨r', sons, start, chain, focus', path, first', -⟩
        rw [focus] at focus'
        cases focus'
        rw [path.unique (rep.path r alive), first] at first'
        cases first'
  | some start =>
      rw [first] at looked
      have aliveS : b.heap.live start = true :=
        rep.live_of_mem alive (List.mem_of_find?_eq_some first)
      rcases chained.path start aliveS with ⟨chain, path, inside⟩
      have passes : Passes b.heap.live (env.stopsFind b.heap attrs) b.heap.next (some start) _ _ :=
        passes_of_path path fun x member => (inside x member).1
      rw [looked, ok_bind, b.heap.follow_of_passes passes, ok_bind]
      refine ⟨_, rfl, fun o => ?_⟩
      constructor
      · intro found
        exact ⟨r, kids r, start, chain, focus, rep.path r alive, first, path, found⟩
      · rintro ⟨r', sons, start', chain', focus', path', first', path'', found⟩
        rw [focus] at focus'
        cases focus'
        rw [path'.unique (rep.path r alive), first] at first'
        cases first'
        rw [path''.unique path] at found
        exact found

/-- **Spec of `__x_bus_objopen`**, behind the declarations: where the object of the element comes
from, and what stays as it was. -/
theorem opened (focused : b.Focused line) (chained : b.heap.Chained) {ns : Text}
    (name_eq : q.name = some own) (namespace_eq : b.namespaceOf q attrs = .ok (some ns))
    (result : env.openElement b q attrs = .ok b') :
    ∃ o, Opened env b own (ns.takeWhile (· ≠ ch '#')) attrs line b' o := by
  rw [Env.openElement_eq namespace_eq, name_eq] at result
  rcases bind_eq_ok_iff.mp result with ⟨found, looked, behind⟩
  have findEq := (Env.lookup_eq_ok_iff.mp looked).1
  rcases focused.search env chained own attrs with ⟨found', findEq', reuses⟩
  rw [findEq] at findEq'
  cases findEq'
  cases found with
  | some o =>
      cases behind
      rcases focused.finds env chained (some own) attrs with ⟨found', findEq', sons⟩
      rw [findEq] at findEq'
      cases findEq'
      rcases sons o rfl with ⟨alive, parent_eq⟩
      rcases (focused.enter ⟨alive, rfl, rfl, rfl⟩ parent_eq attrs :
        Beside (o :: line) o { b with rObj := some o } (env.enter b o attrs) ∧
          _) with ⟨beside, holds⟩
      have other : ∀ y ∈ line, y ≠ o := by
        have nodup := beside.focused.path.nodup
        rw [List.nodup_cons] at nodup
        exact fun y member => ne_of_mem_of_not_mem member nodup.1
      refine ⟨o, beside.focused, beside.nsmap, fun y member => ?_, fun y member => ?_,
        beside.chained chained, .inl ⟨(reuses o).mp rfl, holds.name, ?_⟩⟩
      · exact beside.place y (List.mem_cons_of_mem o member)
      · exact beside.xmlns y (List.mem_cons_of_mem o member) (other y member)
      · rw [env.classOf_eq]
        exact holds.xmlns
  | none =>
      unfold Env.instantiate at behind
      rcases bind_eq_ok_iff.mp behind with ⟨⟨b₁, o⟩, created, behindNew⟩
      rcases focused.newNsMatch created with ⟨beside₁, orphan, outside, holds₁⟩
      rcases beside₁.focused.exists_head with ⟨r, focus, member⟩
      simp only [focus] at behindNew
      rcases bind_eq_ok_iff.mp behindNew with ⟨b₂, appended, done⟩
      cases done
      rcases beside₁.focused.appendChild holds₁ orphan outside appended with
        ⟨beside₂, parent_eq, holds₂⟩
      have focus₂ : b₂.rObj = some r := by
        rw [beside₂.focused.rObj, ← beside₁.focused.rObj, focus]
      have focus₀ : b.rObj = some r := by
        rw [focused.rObj, ← beside₁.focused.rObj, focus]
      rcases (beside₂.focused.enter holds₂ (parent_eq.trans focus₂.symm) attrs :
        Beside (o :: line) o { b₂ with rObj := some o } (env.enter b₂ o attrs) ∧ _) with
        ⟨beside₃, holds₃⟩
      have other : ∀ y ∈ line, y ≠ o := fun y member => ne_of_mem_of_not_mem member outside
      have place := (beside₁.trans beside₂).place
      refine ⟨o, beside₃.focused, ?_, fun y member => ?_, fun y member => ?_, ?_,
        .inr ⟨fun some => ?_, holds₃.name, ?_⟩⟩
      · rw [beside₃.nsmap]
        exact (beside₁.trans beside₂).nsmap
      · exact (place y member).trans (beside₃.place y (List.mem_cons_of_mem o member))
      · rw [beside₃.xmlns y (List.mem_cons_of_mem o member) (other y member)]
        exact (beside₁.trans beside₂).xmlns y member (other y member)
      · exact beside₃.chained ((beside₁.trans beside₂).chained chained)
      · rcases some with ⟨o', again⟩
        cases (reuses o').mpr again
      · have class_eq : env.classOf b₁.heap r = env.classOf b.heap r := by
          rw [env.classOf_eq, env.classOf_eq, (beside₁.place r member).objclass]
        rw [holds₃.xmlns, class_eq, Env.newXmlns, focus₀]

variable (env) in
/-- Appending to an object of the line succeeds. -/
theorem appendChild_succeeds (focused : b.Focused line) (chained : b.heap.Chained)
    {objclass : Option Nat} {ns : Option Text} (holds : b.Holds o own objclass ns)
    (orphan : b.heap.parent o = none) (outside : o ∉ line) (member : r ∈ line) :
    ∃ b', env.appendChild b r o = .ok b' := by
  rcases focused.linked.appendChildNoCb chained (focused.alive r member) holds.alive orphan with
    ⟨h, appended, -⟩
  rcases focused.appendChildNoCb holds orphan outside appended with
    ⟨beside₁, parent_eq, holds₁, -⟩
  rcases (beside₁.focused.announce holds₁ r :
    Beside line o { b with heap := h } (env.announce { b with heap := h } r o) ∧ _) with
    ⟨beside₂, same, -⟩
  have indexed : (env.announce { b with heap := h } r o).heap.getIndex o = .ok () := by
    refine beside₂.focused.linked.getIndex fun p above => ?_
    rw [same.parent, parent_eq] at above
    cases above
    exact beside₂.focused.alive r member
  rcases Heap.notify_eq_ok (env.announce { b with heap := h } r o).heap with ⟨h', notified, -⟩
  rw [Env.appendChild_eq]
  simp only [appended, ok_bind, indexed, notified]
  exact ⟨_, rfl⟩

end Bus.Focused

/-! ## Opening and closing -/

/-- What opening an element asks for: a declaration resolves it, an object that is used again is
named as the element and its class answers, and for a new one the class lookup is within its
buffers and the name within its block. -/
structure Env.Opens (env : Env) (b : Bus) (name : Text) (attrs : AttrList) : Prop where
  declared : b.Declared (QName.split name) attrs
  reused : ∀ own o, (QName.split name).name = some own →
    env.Reuses b own (b.declare (QName.split name) attrs).2 o →
      eqText own (b.heap.name o) = true ∧
        Succeeds (env.objectMatch b.heap o (b.declare (QName.split name) attrs).2)
  fits : ∀ cname ns, env.classKeys b name attrs = .ok (some (cname, ns)) →
    cname.length < lowcaseBuf ∧ ns.length < lowcaseBuf ∧ NameFits cname

/-- The end of the element neither resets the stream nor hits the bug of `tls_exit`. -/
def Env.keepsStream (env : Env) (b : Bus) (o : Addr) : Bool :=
  match (env.classOf b.heap o).commit with
  | .tlsExit => !eqText (b.heap.name o) (lit "proceed") &&
      (eqText (b.heap.name o) (lit "failure") || eqText (b.heap.name o) (lit "starttls"))
  | .call run _ => !(run { b with rObj := b.heap.parent o } o).2

/-- A name that `__x_bus_objclose` takes for the name of the object. -/
def Heap.Fits (h : Heap) (name : Text) (o : Addr) : Prop :=
  ((QName.split name).hasNs = true → (QName.split name).ns ≠ []) ∧
    ∃ own, (QName.split name).name = some own ∧ eqText own (h.name o) = true

namespace Bus.Focused

/-- An element that can be opened is opened: it is resolved, the class of an object that is found
for it answers, and a new one can be made. -/
theorem openElement (focused : b.Focused line) (chained : b.heap.Chained) {ns : Text}
    (namespace_eq : b.namespaceOf q attrs = .ok (some ns))
    (answers : ∀ o, env.finds b q.name attrs = .ok (some o) →
      Succeeds (env.objectMatch b.heap o attrs))
    (creatable : ∀ own, q.name = some own → env.finds b q.name attrs = .ok none →
      Env.Creatable own (ns.takeWhile (· ≠ ch '#'))) :
    ∃ b' line', env.openElement b q attrs = .ok b' ∧ b'.Focused line' ∧ b'.heap.Chained := by
  rcases focused.finds env chained q.name attrs with ⟨found, findEq, sons⟩
  have looked : env.lookup b q.name attrs = .ok found :=
    Env.lookup_eq_ok_iff.mpr ⟨findEq, fun o same => answers o (same ▸ findEq)⟩
  rw [Env.openElement_eq namespace_eq, looked, ok_bind]
  cases found with
  | some o =>
      rcases sons o rfl with ⟨alive, parent_eq⟩
      rcases (focused.enter ⟨alive, rfl, rfl, rfl⟩ parent_eq attrs :
        Beside (o :: line) o { b with rObj := some o } (env.enter b o attrs) ∧ _) with ⟨beside, -⟩
      exact ⟨_, _, rfl, beside.focused, beside.chained chained⟩
  | none =>
      unfold Env.instantiate
      cases name_eq : q.name with
      | none => exact ⟨b, line, rfl, focused, chained⟩
      | some own =>
          obtain ⟨b₁, o, created⟩ : ∃ b₁ o,
              env.newNsMatch b own (ns.takeWhile (· ≠ ch '#')) attrs = .ok (b₁, o) :=
            ⟨_, _, (env.newNsMatch_eq_ok_iff).mpr ⟨creatable own name_eq findEq, rfl⟩⟩
          rcases focused.newNsMatch created with ⟨beside₁, orphan, outside, holds₁⟩
          rcases beside₁.focused.exists_head with ⟨r, focus, member⟩
          rcases beside₁.focused.appendChild_succeeds env (beside₁.chained chained) holds₁ orphan
            outside member with ⟨b₂, appended⟩
          rcases beside₁.focused.appendChild holds₁ orphan outside appended with
            ⟨beside₂, above, holds₂⟩
          have focus₂ : b₂.rObj = some r := by
            rw [beside₂.focused.rObj, ← beside₁.focused.rObj, focus]
          rcases (beside₂.focused.enter holds₂ (above.trans focus₂.symm) attrs :
            Beside (o :: line) o { b₂ with rObj := some o } (env.enter b₂ o attrs) ∧ _) with
            ⟨beside₃, -⟩
          simp only [created, ok_bind, focus, appended]
          exact ⟨_, _, rfl, beside₃.focused,
            beside₃.chained ((beside₁.trans beside₂).chained chained)⟩

/-- Without an object to use again the class of an element is looked up. -/
theorem classKeys_of_finds {ns : Text}
    (namespace_eq : (b.declare (QName.split name) attrs).1.namespaceOf (QName.split name)
      (b.declare (QName.split name) attrs).2 = .ok (some ns))
    (name_eq : (QName.split name).name = some own)
    (missing : env.finds (b.declare (QName.split name) attrs).1 (QName.split name).name
      (b.declare (QName.split name) attrs).2 = .ok none) :
    env.classKeys b name attrs = .ok (some (objectName own, ns.takeWhile (· ≠ ch '#'))) := by
  have looked := Env.lookup_eq_ok_iff.mpr ⟨missing, fun o impossible => by cases impossible⟩
  unfold Env.lookup at looked
  rcases bind_eq_ok_iff.mp looked with ⟨start, start_eq, found_eq⟩
  unfold Env.classKeys
  dsimp only
  rw [namespace_eq, ok_bind, cutNamespace, ok_bind, start_eq, ok_bind, found_eq, ok_bind, name_eq]

/-- **Opening an element.** -/
theorem opens (focused : s.2.Focused line) (chained : s.2.heap.Chained)
    (name_eq : (QName.split name).name = some own) (asked : env.Opens s.2 name s.1.attrs) :
    ∃ ns b' o,
      env.objopen (some name) s =
          .ok ({ s.1 with attrs := (s.2.declare (QName.split name) s.1.attrs).2 }, b') ∧
        (s.2.declare (QName.split name) s.1.attrs).1.namespaceOf (QName.split name)
            (s.2.declare (QName.split name) s.1.attrs).2 = .ok (some ns) ∧
        Opened env (s.2.declare (QName.split name) s.1.attrs).1 own (ns.takeWhile (· ≠ ch '#'))
          (s.2.declare (QName.split name) s.1.attrs).2 line b' o := by
  rcases focused.resolved_iff.mpr asked.declared with ⟨ns, namespace_eq⟩
  let b := (s.2.declare (QName.split name) s.1.attrs).1
  let attrs := (s.2.declare (QName.split name) s.1.attrs).2
  have focused' : b.Focused line :=
    ⟨focused.linked, focused.rObj, focused.path, focused.alive, focused.self⟩
  have chained' : b.heap.Chained := chained
  rcases focused'.search env chained' own attrs with ⟨found, findEq, reuses⟩
  rw [← name_eq] at findEq
  obtain ⟨b', -, element, -, -⟩ := focused'.openElement chained' namespace_eq
    (fun o again => by
      rw [findEq] at again
      exact (asked.reused own o name_eq ((reuses o).mp (Except.ok.inj again))).2)
    (fun own' name_eq' missing => by
      have fits := asked.fits _ _ (classKeys_of_finds namespace_eq name_eq' missing)
      exact ⟨fits.2.1, fits.1, fits.2.2⟩)
  rcases focused'.opened chained' name_eq namespace_eq element with ⟨o, opened⟩
  refine ⟨ns, b', o, ?_, namespace_eq, opened⟩
  change (env.openElement b (QName.split name) attrs >>= fun b => _) = _
  rw [element]
  rfl

/-- **Closing an element** below the bus. -/
theorem closes (focused : s.2.Focused (o :: r :: back)) (fits : s.2.heap.Fits name o)
    (keeps : env.keepsStream s.2 o = true) :
    ∃ b', env.objclose m (some name) s = .ok (s.1, b') ∧
      Beside (r :: back) o { s.2 with rObj := s.2.heap.parent o } b' := by
  rcases fits with ⟨prefixed, own, name_eq, same⟩
  have focus : s.2.rObj = some o := focused.rObj
  have alive : s.2.heap.live o = true := focused.alive o List.mem_cons_self
  have other : o ≠ s.2.self := by
    have nodup := focused.path.nodup
    have last : (r :: back).getLast? = some s.2.self := by
      rw [← focused.self, List.getLast?_cons_cons]
    rw [List.nodup_cons] at nodup
    exact fun self => nodup.1 (self ▸ List.mem_of_getLast? last)
  have up := focused.up rfl other
  obtain ⟨ns, namespace_eq⟩ : Succeeds (s.2.namespaceOf (QName.split name) []) := by
    unfold Bus.namespaceOf
    cases hasNs : (QName.split name).hasNs with
    | true =>
        rw [if_pos rfl, cbuf, if_neg (prefixed hasNs)]
        exact ⟨_, rfl⟩
    | false =>
        rw [if_neg (by simp)]
        exact ⟨_, focused.getenv xmlns⟩
  obtain ⟨b', lost, beside⟩ : ∃ b',
      env.lostFocus m (s.1, { s.2 with rObj := s.2.heap.parent o }) o = .ok (s.1, b') ∧
        Beside (r :: back) o { s.2 with rObj := s.2.heap.parent o } b' := by
    unfold Env.lostFocus
    rw [if_neg other]
    unfold Env.keepsStream at keeps
    cases commit : (env.classOf s.2.heap o).commit with
    | call run frame =>
        simp only [commit, Bool.not_eq_true'] at keeps ⊢
        rw [if_neg (by rw [keeps]; simp)]
        have kept := frame { s.2 with rObj := s.2.heap.parent o } o alive
        refine ⟨_, rfl, up.frame kept, kept.nsmap, fun y member => ?_, fun y member _ => ?_,
          kept.chained up.linked⟩
        · exact kept.stays y (up.stays none member) (up.alive y member)
        · exact kept.xmlns y (up.stays none member) (up.alive y member) (by simp)
    | tlsExit =>
        simp only [commit, Bool.and_eq_true, Bool.or_eq_true, Bool.not_eq_true'] at keeps ⊢
        refine ⟨_, ?_, up, rfl, fun y _ => .refl _ y, fun _ _ _ => rfl, id⟩
        unfold Env.tlsExit
        rcases keeps with ⟨notProceed, failure | starttls⟩
        · simp [notProceed, failure]
        · simp [notProceed, starttls]
  refine ⟨b', ?_, beside⟩
  unfold Env.objclose Env.closeElement
  simp only [namespace_eq, ok_bind, name_eq, focus, Heap.deref_of_live alive, same, if_true]
  exact lost

end Bus.Focused

/-! ## Documents -/

/-- Every end tag ends the innermost open element.  The names of the open elements are given,
innermost first. -/
def Nested : List Text → List Markup → Prop
  | _, [] => True
  | names, .startTag t :: rest => Nested (t.name.text :: names) rest
  | names, .endTag name _ :: rest => ∃ outer, names = name.text :: outer ∧ Nested outer rest
  | names, _ :: rest => Nested names rest

/-- What a byte asks for: the element that it opens can be opened, and the end of the element that
it closes does not reset the stream. -/
def Env.Fair (env : Env) (m : Memory) (s : PushParser × Bus) (c : Byte) : Prop :=
  (∀ name attrs, opensAt m s c = some (name, attrs) → env.Opens s.2 name attrs) ∧
    ∀ o, closesAt m s c = some o → env.keepsStream s.2 o = true

/-- The focus is a child of `r` and named as the element. -/
def Bus.FocusedBelow (b : Bus) (r : Addr) (name : Text) : Prop :=
  ∃ o, b.rObj = some o ∧ b.heap.live o = true ∧ b.heap.parent o = some r ∧
    eqText name (b.heap.name o) = true

/-- **The discipline of the focus** over a document.  A start tag moves the focus to a child that is
named as the element, the end tag moves it back to where it was, and text is put on the focus.
`back` lists the objects that the open elements lead back to, innermost first. -/
def Env.Disciplined (env : Env) (m : Memory) : List Addr → PushParser × Bus → List Markup → Prop
  | _, _, [] => True
  | back, s, .text bs _ :: rest => ∃ r s', s.2.rObj = some r ∧ run (env.step m) s bs = .ok s' ∧
      s'.2 = { s.2 with heap := s.2.heap.setContent r ((s.2.heap.content r).puts m bs) } ∧
      env.Disciplined m back s' rest
  | back, s, .startTag t :: rest => ∃ r s', s.2.rObj = some r ∧
      run (env.step m) s (Markup.startTag t).render = .ok s' ∧ s'.2.FocusedBelow r t.name.text ∧
      env.Disciplined m (r :: back) s' rest
  | back, s, .emptyTag t :: rest => ∃ r middle s', s.2.rObj = some r ∧
      run (env.step m) s (t.render ++ [ch '/']) = .ok middle ∧
      middle.2.FocusedBelow r t.name.text ∧ env.step m middle (ch '>') = .ok s' ∧
      s'.2.rObj = some r ∧ env.Disciplined m back s' rest
  | back, s, .endTag name trail :: rest => ∃ r outer s', back = r :: outer ∧
      run (env.step m) s (Markup.endTag name trail).render = .ok s' ∧ s'.2.rObj = some r ∧
      env.Disciplined m outer s' rest
  | back, s, .instruction bs noMark :: rest => ∃ s',
      run (env.step m) s (Markup.instruction bs noMark).render = .ok s' ∧ s'.2 = s.2 ∧
      env.Disciplined m back s' rest

/-- The objects of the open elements, and the bus behind them. -/
inductive Named (h : Heap) : List Text → List Addr → Prop
  | bus (x : Addr) : Named h [] [x]
  | element {name : Text} {names : List Text} {o : Addr} {line : List Addr} (fits : h.Fits name o)
      (outer : Named h names line) : Named h (name :: names) (o :: line)

theorem Named.congr {h h' : Heap} (named : Named h names line)
    (same : ∀ y ∈ line, h'.name y = h.name y) : Named h' names line := by
  induction named with
  | bus x => exact .bus x
  | element fits outer ih =>
      rw [List.forall_mem_cons] at same
      refine .element ?_ (ih same.2)
      rcases fits with ⟨prefixed, own, name_eq, fits⟩
      exact ⟨prefixed, own, name_eq, by rw [same.1, fits]⟩

theorem Named.fits {h : Heap} (named : Named h (name :: names) (o :: line)) : h.Fits name o := by
  cases named with
  | element fits outer => exact fits

/-- The line is the focus and what is around it. -/
theorem Named.exists_cons {h : Heap} (named : Named h names line) :
    ∃ r back, line = r :: back := by
  cases named with
  | bus x => exact ⟨x, [], rfl⟩
  | element fits outer => exact ⟨_, _, rfl⟩

/-- The state between two items of a document. -/
structure Between (names : List Text) (line : List Addr) (s : PushParser × Bus) : Prop where
  waiting : Waiting s.1
  register : names ≠ [] → s.1.r0.bytes = []
  focused : s.2.Focused line
  named : Named s.2.heap names line
  chained : s.2.heap.Chained

/-- A tag has been read up to the byte that opens its element, and this has been opened. -/
structure TagOpened (env : Env) (m : Memory) (s : PushParser × Bus) (t : Tag) (empty : Bool)
    (own : Text) (line : List Addr) (p q : PushParser) (ns : Text) (b' : Bus) (o : Addr) :
    Prop where
  read : run (env.step m) s t.render = .ok (p, s.2)
  opening : opensAt m (p, s.2) (tagEnd empty) = some (t.name.text, q.attrs)
  head : TagHead m s.1 t q
  asked : env.Opens s.2 t.name.text q.attrs
  namespaceOf : (s.2.declare (QName.split t.name.text) q.attrs).1.namespaceOf
    (QName.split t.name.text) (s.2.declare (QName.split t.name.text) q.attrs).2 = .ok (some ns)
  opened : Opened env (s.2.declare (QName.split t.name.text) q.attrs).1 own
    (ns.takeWhile (· ≠ ch '#')) (s.2.declare (QName.split t.name.text) q.attrs).2 line b' o
  result : run (env.step m) s (t.render ++ [tagEnd empty]) = .ok (enterTag m empty
    { q with attrs := (s.2.declare (QName.split t.name.text) q.attrs).2 }, b')

/-- The own part of a name consists of bytes of the name. -/
theorem QName.subset_of_split (name_eq : (QName.split name).name = some own) : own ⊆ name := by
  have part : (if (QName.split name).hasNs then (QName.split name).sname
      else (QName.split name).ns) = own := by
    unfold QName.name cbuf at name_eq
    by_cases empty : (if (QName.split name).hasNs then (QName.split name).sname
      else (QName.split name).ns) = []
    · rw [if_pos empty] at name_eq
      cases name_eq
    · rw [if_neg empty] at name_eq
      exact Option.some.inj name_eq
  rw [← part]
  split
  · exact fun c member => (List.dropWhile_suffix _).subset (List.mem_of_mem_tail member)
  · exact (List.takeWhile_prefix _).subset

/-- An opened object is closed by the name that opened it. -/
theorem Opened.fits {cut : Text} (name_eq : (QName.split name).name = some own)
    (oneLine : ch '\n' ∉ name) (asked : env.Opens b name attrs)
    (opened : Opened env (b.declare (QName.split name) attrs).1 own cut
      (b.declare (QName.split name) attrs).2 line b' o) : b'.heap.Fits name o := by
  refine ⟨fun hasNs => ?_, own, name_eq, ?_⟩
  · have declared := asked.declared
    rw [Bus.Declared, if_pos hasNs] at declared
    exact declared.1
  · rcases opened.source with ⟨reuses, same, -⟩ | ⟨-, same, -⟩
    · rw [same]
      exact (asked.reused own o name_eq reuses).1
    · have whole : objectName own = own := by
        refine List.takeWhile_eq_self_iff.mpr fun c member => decide_eq_true fun newline => ?_
        exact oneLine (newline ▸ QName.subset_of_split name_eq member)
      rw [same, whole]
      exact decide_eq_true rfl

/-- What is done beside the line leaves the names on it. -/
theorem Beside.named (beside : Beside line o b b') (named : Named b.heap names line) :
    Named b'.heap names line :=
  named.congr fun y member => (beside.place y member).name

namespace Between

variable (env m) in
/-- Bytes of text are put on the focus. -/
theorem text (between : Between names (r :: back) s) {bs : List Byte} (noBracket : ch '<' ∉ bs) :
    run (env.step m) s bs = .ok (s.1, { s.2 with
        heap := s.2.heap.setContent r ((s.2.heap.content r).puts m bs) }) ∧
      Between names (r :: back) (s.1, { s.2 with
        heap := s.2.heap.setContent r ((s.2.heap.content r).puts m bs) }) := by
  have keeps : ∀ b : Bus, b.Focused (r :: back) → ∀ text,
      ({ b with heap := b.heap.setContent r text } : Bus).Focused (r :: back) :=
        fun b focused text =>
    focused.of_samePlace (focused.linked.setContent _) rfl rfl fun _ _ => ⟨rfl, rfl, rfl, rfl, rfl⟩
  refine ⟨?_, between.waiting, between.register, keeps s.2 between.focused _,
    between.named.congr fun _ _ => rfl, between.chained.setContent _⟩
  have focused := between.focused
  have handler := between.waiting.handler
  clear between
  rcases s with ⟨p, b⟩
  induction bs generalizing b with
  | nil =>
      change Except.ok (p, b) = .ok (p, { b with heap := b.heap.setContent r (b.heap.content r) })
      rw [Heap.setContent, Function.update_eq_self]
  | cons c rest ih =>
      rw [List.mem_cons, not_or] at noBracket
      have focus : b.rObj = some r := focused.rObj
      have alive : b.heap.live r = true := focused.alive r List.mem_cons_self
      have stored : busPutchar m c (p, b) =
          .ok (p, { b with heap := b.heap.setContent r ((b.heap.content r).putc m c) }) := by
        unfold busPutchar
        simp only [focus, Heap.deref_of_live alive, ok_bind]
      have read := feed_textByte (env.callbacks m) m handler (Ne.symm noBracket.1) b rest
      rw [feed_callbacks] at read
      rw [read]
      change (busPutchar m c (p, b) >>= _) = _
      rw [stored, ok_bind, feed_callbacks, ih noBracket.2 _ (keeps b focused _) handler]
      simp only [Heap.setContent, Function.update_self, Function.update_idem, XString.puts_cons]

variable (env m) in
/-- A processing instruction does not reach the bus. -/
theorem instruction (between : Between names line s) {bs : List Byte} (noMark : ch '?' ∉ bs) :
    ∃ p, run (env.step m) s (Markup.instruction bs noMark).render = .ok (p, s.2) ∧
      Between names line (p, s.2) := by
  rcases quiet_instruction m between.waiting noMark with ⟨p, quiet, ready, -, -⟩
  refine ⟨p, ?_, ready.waiting, fun _ => ready.name_empty, between.focused, between.named,
    between.chained⟩
  have read := quiet Bus (env.callbacks m) s.2
  rwa [feed_callbacks] at read

/-- A tag up to the byte that opens its element. -/
theorem opens (between : Between names line s) (empty : Bool) (t : Tag)
    (name_eq : (QName.split t.name.text).name = some own)
    (fair : Along (env.step m) (env.Fair m) s (t.render ++ [tagEnd empty])) :
    ∃ p q ns b' o, TagOpened env m s t empty own line p q ns b' o ∧
      Named b'.heap (t.name.text :: names) (o :: line) := by
  rcases quiet_tag m between.waiting t with ⟨p, q, quiet, head, dispatched⟩
  have read : run (env.step m) s t.render = .ok (p, s.2) := by
    have read := quiet Bus (env.callbacks m) s.2
    rwa [feed_callbacks] at read
  have opening : opensAt m (p, s.2) (tagEnd empty) = some (t.name.text, q.attrs) := by
    simp only [opensAt, dispatched empty, if_true, head.name, Option.map_some]
  have asked : env.Opens s.2 t.name.text q.attrs :=
    ((along_append.mp fair).2 _ read).1.1 _ _ opening
  rcases @Bus.Focused.opens env (q, s.2) line t.name.text own between.focused
    between.chained name_eq
    asked with ⟨ns, b', o, performed, namespace_eq, opened⟩
  have stepped : env.step m (p, s.2) (tagEnd empty) = .ok (enterTag m empty
      { q with attrs := (s.2.declare (QName.split t.name.text) q.attrs).2 }, b') := by
    unfold Env.step putChar
    rw [dispatched empty, ok_bind, perform, head.name]
    change (env.objopen (some t.name.text) (q, s.2) >>= _) = _
    rw [performed]
    rfl
  have oneLine : ch '\n' ∉ t.name.text := fun member =>
    absurd (t.name.isNameChar_of_mem_text member) (by decide)
  refine ⟨p, q, ns, b', o, ⟨read, opening, head, asked, namespace_eq, opened,
    run_concat_eq_ok read stepped⟩, .element (opened.fits name_eq oneLine asked) ?_⟩
  exact between.named.congr fun y member => (opened.place y member).name

/-- The bracket that closes an element. -/
theorem closes {p : PushParser} (fair : env.Fair m (p, b) (ch '>')) (handler : p.rPutc = .tag)
    (control : p.cr1 = .objClosing) (name_eq : p.r0.cstr m = some name)
    (focused : b.Focused (o :: line)) (named : Named b.heap (name :: names) (o :: line)) :
    ∃ b', env.step m (p, b) (ch '>') = .ok (p.leaveObject m, b') ∧
      Beside line o { b with rObj := b.heap.parent o } b' ∧ Named b'.heap names line := by
  cases named with
  | element fits outer =>
      rcases outer.exists_cons with ⟨r, back, rfl⟩
      have focus : b.rObj = some o := focused.rObj
      have dispatched := dispatch_closeBracket m handler control
      have closing : closesAt m (p, b) (ch '>') = some o := by
        rcases fits with ⟨-, own, own_eq, same⟩
        simp only [closesAt, dispatched, if_true, name_eq]
        simp [Bus.closing, own_eq, focus, same]
      rcases @Bus.Focused.closes env m (p, b) o r back name focused fits (fair.2 o closing) with
        ⟨b', performed, beside⟩
      refine ⟨b', ?_, beside, beside.named outer⟩
      unfold Env.step putChar
      rw [dispatched, ok_bind, perform, name_eq]
      change (env.objclose m (some name) (p, b) >>= _) = _
      rw [performed]
      rfl

/-- Behind an end tag. -/
theorem left {p : PushParser} (stack_eq : p.stack = []) (chained : b.heap.Chained)
    (beside : Beside line o { b with rObj := b.heap.parent o } b')
    (named : Named b'.heap names line) : Between names line (p.leaveObject m, b') := by
  have ready : Ready (p.leaveObject m) := Ready.leaveObject m stack_eq
  exact ⟨ready.waiting, fun _ => ready.name_empty, beside.focused, named, beside.chained chained⟩

/-- A start tag. -/
theorem startTag (between : Between names line s) (t : Tag)
    (name_eq : (QName.split t.name.text).name = some own)
    (fair : Along (env.step m) (env.Fair m) s (Markup.startTag t).render) :
    ∃ p q ns s' o, TagOpened env m s t false own line p q ns s'.2 o ∧
      run (env.step m) s (Markup.startTag t).render = .ok s' ∧
      Between (t.name.text :: names) (o :: line) s' := by
  rcases between.opens false t name_eq fair with ⟨p, q, ns, b', o, tag, named⟩
  have ready : Ready (({ q with attrs := (s.2.declare (QName.split t.name.text) q.attrs).2 } :
      PushParser).enterContent m) := Ready.enterContent m tag.head.stack_eq
  exact ⟨p, q, ns, _, o, tag, tag.result, ready.waiting, fun _ => ready.name_empty,
    tag.opened.focused, named, tag.opened.chained⟩

/-- The tag of an empty element. -/
theorem emptyTag (between : Between names line s) (t : Tag)
    (name_eq : (QName.split t.name.text).name = some own)
    (fair : Along (env.step m) (env.Fair m) s (Markup.emptyTag t).render) :
    ∃ p q ns middle s' o, TagOpened env m s t true own line p q ns middle.2 o ∧
      run (env.step m) s (t.render ++ [ch '/']) = .ok middle ∧ middle.2.heap.Fits t.name.text o ∧
      env.step m middle (ch '>') = .ok s' ∧ run (env.step m) s (Markup.emptyTag t).render = .ok s' ∧
      Beside line o { middle.2 with rObj := middle.2.heap.parent o } s'.2 ∧
        Between names line s' := by
  rw [Markup.render, List.append_cons, along_append] at fair
  rcases between.opens true t name_eq fair.1 with ⟨p, q, ns, b', o, tag, named⟩
  rcases closes (fair.2 _ tag.result).1 tag.head.handler rfl tag.head.name tag.opened.focused named
    with ⟨b'', closed, beside, named'⟩
  refine ⟨p, q, ns, _, _, o, tag, tag.result, named.fits, closed, ?_, beside,
    left tag.head.stack_eq tag.opened.chained beside named'⟩
  rw [Markup.render, List.append_cons]
  exact run_concat_eq_ok tag.result closed

/-- An end tag. -/
theorem endTag {n : Name} (between : Between (n.text :: names) (o :: line) s) (trail : Space)
    (fair : Along (env.step m) (env.Fair m) s (Markup.endTag n trail).render) :
    ∃ s', run (env.step m) s (Markup.endTag n trail).render = .ok s' ∧
      Beside line o { s.2 with rObj := s.2.heap.parent o } s'.2 ∧ Between names line s' := by
  have waiting := between.waiting
  have ready : Ready s.1 := ⟨waiting.handler, waiting.control, waiting.stack_eq,
    between.register (List.cons_ne_nil _ _), waiting.drops⟩
  rcases quiet_endTag m ready n trail with ⟨q, quiet, foot⟩
  have read : run (env.step m) s (ch '<' :: ch '/' :: n.text ++ trail.1) = .ok (q, s.2) := by
    have read := quiet Bus (env.callbacks m) s.2
    rwa [feed_callbacks] at read
  rw [Markup.render, along_append] at fair
  rcases closes (fair.2 _ read).1 foot.handler foot.control foot.name between.focused between.named
    with ⟨b', closed, beside, named⟩
  exact ⟨_, run_concat_eq_ok read closed, beside,
    left foot.stack_eq between.chained beside named⟩

end Between

/-- A name without a prefix is all its own. -/
theorem QName.name_of_unprefixed {n : Name} (unprefixed : ch ':' ∉ n.text) :
    (QName.split n.text).name = some n.text := by
  have whole : n.text.takeWhile (· ≠ ch ':') = n.text := by
    refine List.takeWhile_eq_self_iff.mpr fun c member => decide_eq_true fun colon => ?_
    exact unprefixed (colon ▸ member)
  have split : (QName.split n.text).hasNs = false := decide_eq_false unprefixed
  rw [QName.name, split, if_neg (by simp), QName.split, whole, cbuf, if_neg (by simp [Name.text])]

/-- The object of an opened element is below the object that had the focus. -/
theorem Opened.focusedBelow {n : Name} {b₁ : Bus} {ns : Text} (unprefixed : ch ':' ∉ n.text)
    (opened : Opened env b₁ own ns attrs (r :: back) b' o) (fits : b'.heap.Fits n.text o) :
    b'.FocusedBelow r n.text := by
  rcases fits with ⟨-, own', own_eq, same⟩
  rw [QName.name_of_unprefixed unprefixed] at own_eq
  cases own_eq
  exact ⟨o, opened.focused.rObj, opened.focused.alive o List.mem_cons_self,
    opened.focused.parent_eq rfl, same⟩

/-- **The focus follows the elements** from any state between two items. -/
theorem Between.disciplined {doc : List Markup} (nested : Nested names doc)
    (unprefixed : ∀ t ∈ openings doc, ch ':' ∉ t.name.text) (between : Between names (r :: back) s)
    (fair : Along (env.step m) (env.Fair m) s (render doc)) : env.Disciplined m back s doc := by
  induction doc generalizing names r back s with
  | nil => trivial
  | cons item rest ih =>
      rw [render_cons, along_append] at fair
      rcases fair with ⟨here, later⟩
      have focus : s.2.rObj = some r := between.focused.rObj
      cases item with
      | text bs noBracket =>
          rcases between.text env m noBracket with ⟨result, between'⟩
          exact ⟨r, _, focus, result, rfl, ih nested unprefixed between' (later _ result)⟩
      | startTag t =>
          have plain := unprefixed t List.mem_cons_self
          rcases between.startTag t (QName.name_of_unprefixed plain) here with
            ⟨p, q, ns, s', o, tag, result, between'⟩
          refine ⟨r, s', focus, result, tag.opened.focusedBelow plain between'.named.fits, ?_⟩
          exact ih nested (fun t member => unprefixed t (List.mem_cons_of_mem _ member)) between'
            (later s' result)
      | emptyTag t =>
          have plain := unprefixed t List.mem_cons_self
          rcases between.emptyTag t (QName.name_of_unprefixed plain) here with
            ⟨p, q, ns, middle, s', o, tag, entered, fits, left, result, -, between'⟩
          refine ⟨r, middle, s', focus, entered, tag.opened.focusedBelow plain fits, left,
            between'.focused.rObj, ?_⟩
          exact ih nested (fun t member => unprefixed t (List.mem_cons_of_mem _ member)) between'
            (later s' result)
      | endTag name trail =>
          rcases nested with ⟨outer, rfl, nested⟩
          rcases between.endTag trail here with ⟨s', result, -, between'⟩
          rcases between'.named.exists_cons with ⟨r', back', rfl⟩
          exact ⟨r', back', s', rfl, result, between'.focused.rObj,
            ih nested unprefixed between' (later s' result)⟩
      | instruction bs noMark =>
          rcases between.instruction env m noMark with ⟨p, result, between'⟩
          exact ⟨_, result, rfl, ih nested unprefixed between' (later _ result)⟩

/-- A reset of a bus in order makes the state in front of a document. -/
theorem Between.started {s₀ : PushParser × Bus} (linked : s₀.2.heap.Linked)
    (alive : s₀.2.heap.live s₀.2.self = true) (root : s₀.2.heap.parent s₀.2.self = none)
    (started : env.resetStream m s₀ = .ok s) (chained : s.2.heap.Chained) :
    Between [] [s₀.2.self] s := by
  have focused := Env.focused_of_resetStream linked alive root started
  rcases Env.resetStream_eq_ok started with ⟨-, -, b', -, -, -, rfl⟩
  exact ⟨.reset m s₀.1, fun impossible => absurd rfl impossible, focused, .bus _, chained⟩

/-- **Focus discipline.**  From a reset on, as long as every element can be opened, an object that
is used again for one is named as it, and no end tag resets the stream, the focus follows the
elements of a document. -/
theorem Env.disciplined_of_along {s₀ : PushParser × Bus} {doc : List Markup}
    (linked : s₀.2.heap.Linked) (alive : s₀.2.heap.live s₀.2.self = true)
    (root : s₀.2.heap.parent s₀.2.self = none) (started : env.resetStream m s₀ = .ok s)
    (chained : s.2.heap.Chained) (nested : Nested [] doc)
    (unprefixed : ∀ t ∈ openings doc, ch ':' ∉ t.name.text)
    (fair : Along (env.step m) (env.Fair m) s (render doc)) : env.Disciplined m [] s doc := by
  have between := Between.started linked alive root started chained
  exact between.disciplined nested unprefixed fair

/-! ## Documents in the bus of the core classes -/

theorem isNameStart_x : isNameStart (ch 'x') = true := by
  decide +kernel

theorem isNameChar_of_mem_mlns : ∀ c ∈ lit "mlns", isNameChar c = true := by
  decide +kernel

theorem bracket_notMem_nil : ch '<' ∉ ([] : List Byte) := by
  simp

/-- The name `a`. -/
def Parser.Name.a : Name :=
  ⟨ch 'a', [], isNameStart_a, isNameChar_of_mem_nil⟩

/-- The attribute that declares a default namespace. -/
def Parser.AttrPair.declaring (ns : Text) (quote : apos ∉ ns) (nul : 0 ∉ ns) : AttrPair :=
  ⟨⟨ch 'x', lit "mlns", isNameStart_x, isNameChar_of_mem_mlns⟩, ns, quote, nul⟩

/-- An element `a` that declares a default namespace. -/
def Parser.Element.declaring (ns : Text) (quote : apos ∉ ns) (nul : 0 ∉ ns) (content : List Byte)
    (noBracket : ch '<' ∉ content) : Element :=
  ⟨.a, [.declaring ns quote nul], content, noBracket⟩

/-- The focus has no child, or only one whose name does not begin that of the element. -/
def Bus.Alone (b : Bus) (own : Text) : Prop :=
  ∃ r ∈ b.rObj, b.heap.sons r = none ∨
    ∃ x ∈ b.heap.sons r, b.heap.sibling x = none ∧ eqnText (b.heap.name x) own = false

/-- Nothing is used again then. -/
theorem Bus.Alone.not_reuses (alone : b.Alone own) : ¬env.Reuses b own attrs o := by
  rintro ⟨r, sons, start, chain, focus, path, first, -⟩
  rcases alone with ⟨r', focus', alone⟩
  rw [Option.mem_def, focus] at focus'
  cases focus'
  rcases alone with childless | ⟨x, son, last, other⟩
  · rw [childless] at path
    have empty : Path b.heap.sibling none [] none := rfl
    rw [path.unique empty] at first
    cases first
  · rw [Option.mem_def] at son
    have only : Path b.heap.sibling (b.heap.sons r) [x] none := ⟨son, last⟩
    rw [path.unique only, Heap.firstNamed, List.find?_cons_of_neg (by simp [other])] at first
    cases first

/-- A new element in plain sight: it declares its namespace itself or has a prefix that is known,
nothing is used again for it, its name and its namespace are short, and its name has room. -/
def Env.Begins (env : Env) (b : Bus) (name : Text) (attrs : AttrList) : Prop :=
  (if (QName.split name).hasNs then (QName.split name).ns ≠ [] ∧
      (b.nsmap.htGet (QName.split name).ns).isSome = true
    else (getattr xmlns attrs).isSome = true) ∧
  (∀ own ∈ (QName.split name).name, b.Alone own) ∧
  ∀ keys, env.classKeys b name attrs = .ok keys →
    ∀ key ∈ keys, key.1.length < lowcaseBuf ∧ key.2.length < lowcaseBuf ∧ NameFits key.1

instance (env : Env) (b : Bus) (name : Text) (attrs : AttrList) :
    Decidable (env.Begins b name attrs) :=
  inferInstanceAs (Decidable (_ ∧ (∀ own ∈ (QName.split name).name, ∃ r ∈ b.rObj, _ ∨
    ∃ x ∈ b.heap.sons r, _ ∧ _) ∧ _))

/-- Such an element can be opened. -/
theorem Env.Begins.opens (begins : env.Begins b name attrs) : env.Opens b name attrs := by
  rcases begins with ⟨resolved, alone, short⟩
  refine ⟨?_, fun own o name_eq reuses => ?_, fun cname ns keys => short _ keys _ rfl⟩
  · unfold Bus.Declared
    split at resolved
    · next prefixed =>
        rw [if_pos prefixed]
        exact ⟨resolved.1, .inr resolved.2⟩
    · next unprefixed =>
        rw [if_neg unprefixed]
        exact .inl resolved
  · exact absurd reuses (alone own name_eq).not_reuses

/-- When no chain goes on, all chains are in order. -/
theorem Heap.chained_of_next {h : Heap}
    (alone : ∀ x < h.top, h.live x = true → h.next x = none) : h.Chained := by
  have none : ∀ x, h.live x = true → h.next x = none := fun x alive =>
    alone x (h.live_lt x alive) alive
  refine ⟨fun x alive => ⟨[x], ⟨rfl, none x alive⟩, fun y member => ?_⟩, fun x alive _ =>
    none x alive⟩
  rw [List.mem_singleton.mp member]
  exact ⟨alive, rfl⟩

/-- An element with text in it. -/
def textElement : List Markup :=
  (Forest.node (.declaring (lit "u") (by decide) (by decide) (lit "t") (by decide))
    .nil .nil).markup

theorem Env.disciplined_of_along_text :
    ∃ s, (coreEnv fun _ => ⟨true, 1⟩).started = .ok s ∧
      (coreEnv fun _ => ⟨true, 1⟩).Disciplined (.filled 0) [] s textElement := by
  have concrete : (coreEnv fun _ => ⟨true, 1⟩).started.map (fun s => decide
      ((∀ x < s.2.heap.top, s.2.heap.live x = true → s.2.heap.next x = none) ∧
        Along ((coreEnv fun _ => ⟨true, 1⟩).step (.filled 0))
          (fun s c => (∀ call ∈ opensAt (.filled 0) s c,
              (coreEnv fun _ => ⟨true, 1⟩).Begins s.2 call.1 call.2) ∧
            ∀ o ∈ closesAt (.filled 0) s c, (coreEnv fun _ => ⟨true, 1⟩).keepsStream s.2 o = true)
          s (render textElement))) = .ok true := by
    decide +kernel
  rcases map_eq_ok_iff.mp concrete with ⟨s, started, holds⟩
  rcases of_decide_eq_true holds with ⟨alone, along⟩
  refine ⟨s, started, disciplined_of_along linked_newBus rfl rfl started
    (Heap.chained_of_next alone) ?_ ?_ ?_⟩
  · exact ⟨[], rfl, trivial⟩
  · decide +kernel
  · exact along.mono fun s c met =>
      ⟨fun name attrs opening => (met.1 (name, attrs) opening).opens, met.2⟩

/-- The features of a stream, and behind them an element whose name begins like theirs. -/
def featuresElement : List Markup :=
  (Forest.node (.declaring (lit "http://etherx.jabber.org/streams") (by decide) (by decide) []
      bracket_notMem_nil)
    (.node ⟨⟨ch 'f', lit "eatures", by decide +kernel, by decide +kernel⟩, [], [],
        bracket_notMem_nil⟩ .nil
      (.node ⟨⟨ch 'f', lit "eatures2", by decide +kernel, by decide +kernel⟩, [], [],
          bracket_notMem_nil⟩ .nil .nil)) .nil).markup

/-- The second element gets the object of the features. -/
theorem Env.not_disciplined_features :
    ∃ s, (coreEnv fun _ => ⟨true, 1⟩).started = .ok s ∧ s.2.heap.Chained ∧
      Nested [] featuresElement ∧ (∀ t ∈ openings featuresElement, ch ':' ∉ t.name.text) ∧
      ¬(coreEnv fun _ => ⟨true, 1⟩).Disciplined (.filled 0) [] s featuresElement := by
  have concrete : ((coreEnv fun _ => ⟨true, 1⟩).started >>= fun s =>
      (run ((coreEnv fun _ => ⟨true, 1⟩).step (.filled 0)) s
        (lit "<a xmlns='http://etherx.jabber.org/streams'>" ++ (lit "<features/" ++ (lit ">" ++
          lit "<features2/")))).map fun s' =>
        (decide (∀ x < s.2.heap.top, s.2.heap.live x = true → s.2.heap.next x = none),
          s'.2.rObj.map s'.2.heap.name)) = .ok (true, some (lit "features")) := by
    decide +kernel
  rcases bind_eq_ok_iff.mp concrete with ⟨s, started, ran⟩
  rcases map_eq_ok_iff.mp ran with ⟨s', result, values⟩
  rcases Prod.mk.inj values with ⟨alone, focusName⟩
  refine ⟨s, started, Heap.chained_of_next (of_decide_eq_true alone), ?_, by decide +kernel, ?_⟩
  · exact ⟨[], rfl, trivial⟩
  · intro disciplined
    rcases disciplined with ⟨r, s₁, -, first, -, disciplined⟩
    rcases disciplined with ⟨r₂, s₂, s₃, -, second, -, closed, -, disciplined⟩
    rcases disciplined with ⟨r₃, s₄, s₅, -, third, ⟨o, focus, -, -, named⟩, -⟩
    -- both runs over the bytes up to the second element end in the same state
    have upTo := run_concat_eq_ok second closed
    have same : s₄ = s' := by
      have whole := run_trans first (run_trans upTo third)
      exact Except.ok.inj (whole.symm.trans result)
    rw [same] at focus named
    rw [focus] at focusName
    rw [Option.some.inj focusName] at named
    revert named
    decide +kernel

end Xwbot
