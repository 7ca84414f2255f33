import Xwbot.Bus.Discipline
import Xwbot.Parser.Exactness

/-!
# Growing trees

What becomes of the heap of a bus when trees of elements that it has no class for arrive below the
focus: new objects with the fields of the elements, behind the children that are there, and nothing
else.
-/

namespace Xwbot

open Links Runs Xwbot.Parser Xwbot.Heap

/-! ## What arrives -/

namespace Parser

/-- Attributes as an object holds them. -/
def attrList (l : List AttrPair) : AttrList :=
  l.map fun a => (a.key.text, a.value)

/-- Attributes that the parser reads as they are written.  A namespace among them fits the buffer
of the class lookup. -/
structure PlainAttrs (l : List AttrPair) : Prop where
  clean : ∀ a ∈ l, a.key.isKey = true ∧ a.value ≠ []
  distinct : (l.map fun a => a.key.text).Nodup
  short : ∀ a ∈ l, a.key.text = xmlns → a.value.length < lowcaseBuf

/-- An element as it is read when `l` are the attributes that were read last. -/
def Element.received (l : List AttrPair) (e : Element) : Element :=
  if e.attrs = [] then { e with attrs := l } else e

namespace Forest

/-- The attributes that are read last. -/
def last (l : List AttrPair) : Forest → List AttrPair
  | nil => l
  | node e sons siblings => siblings.last (sons.last (e.received l).attrs)

/-- A forest as it is read. -/
def received (l : List AttrPair) : Forest → Forest
  | nil => nil
  | node e sons siblings =>
      node (e.received l) (sons.received (e.received l).attrs)
        (siblings.received (sons.last (e.received l).attrs))

/-- Every element. -/
def All (P : Element → Prop) : Forest → Prop
  | nil => True
  | node e sons siblings => P e ∧ sons.All P ∧ siblings.All P

/-- One forest behind another. -/
def append : Forest → Forest → Forest
  | nil, f => f
  | node e sons siblings, f => node e sons (siblings.append f)

end Forest

end Parser

/-- An element that the bus has no class for. -/
structure Env.Takes (env : Env) (e : Element) : Prop where
  unprefixed : ch ':' ∉ e.name.text
  short : e.name.text.length < lowcaseBuf
  fits : NameFits e.name.text
  unregistered : ∀ ns attrs, env.getClass e.name.text ns attrs = none
  attrs : PlainAttrs e.attrs

/-- The object is new and has the fields of the element. -/
structure Made (old h : Heap) (x : Addr) (e : Element) : Prop where
  new : old.live x = false
  objclass : h.objclass x = none
  shows : Shows h x e

/-- The objects of a list are new and, with what is below them, are the forest. -/
def Stored (old h : Heap) (kids : Kids) : List Addr → Forest → Prop
  | l, .nil => l = []
  | l, .node e sons siblings => ∃ x rest, l = x :: rest ∧ Made old h x e ∧
      Stored old h kids (kids x) sons ∧ Stored old h kids rest siblings

/-- An object is as it was, apart from its children. -/
structure Untouched (h h' : Heap) (y : Addr) : Prop where
  place : SamePlace h h' y
  attrs : h'.attrs y = h.attrs y
  content : h'.content y = h.content y

/-- The forest has arrived behind the children of `r`, and nothing else has changed. -/
structure Arrived (h h' : Heap) (kids kids' : Kids) (r : Addr) (f : Forest) : Prop where
  rep : h'.Rep kids'
  kept : ∀ y, h.live y = true → Untouched h h' y
  others : ∀ y, h.live y = true → y ≠ r → kids' y = kids y
  children : ∃ new, kids' r = kids r ++ new ∧ Stored h h' kids' new f

/-- Objects that may take new ones: the focus ignores its children, none of them is used again,
and a default namespace is in force. -/
structure Env.Hosts (env : Env) (h : Heap) (r : Addr) (line : List Addr) : Prop where
  quiet : ∀ b o, (env.classOf h r).onChildAppend.run () b o = b
  fresh : ∀ x, h.live x = true → h.parent x = some r →
    (env.classOf h x).match_ = protoclass.match_
  declared : ∃ y ∈ line, (h.xmlnsOf y).isSome
  short : ∀ y ∈ line, ∀ ns, h.xmlnsOf y = some ns → ns.length < lowcaseBuf

/-- The listeners of the application do nothing about objects without a class. -/
def Env.Passive (env : Env) : Prop :=
  ∀ b o, b.heap.objclass o = none → env.pathListeners.run () b o = b

variable {env : Env} {m : Memory} {s s' : PushParser × Bus} {b : Bus} {h h' h'' : Heap}
  {kids kids' kids'' : Kids} {r o x y : Addr} {line back : List Addr} {names : List Text}
  {e : Element} {f g : Forest} {l l' : List AttrPair} {new : List Addr}

/-! ## Keeping what is there -/

theorem Untouched.refl (h : Heap) (y : Addr) : Untouched h h y :=
  ⟨.refl h y, rfl, rfl⟩

theorem Untouched.trans (first : Untouched h h' y) (second : Untouched h' h'' y) :
    Untouched h h'' y :=
  ⟨first.place.trans second.place, second.attrs.trans first.attrs,
    second.content.trans first.content⟩

theorem Untouched.xmlnsOf (kept : Untouched h h' y) : h'.xmlnsOf y = h.xmlnsOf y := by
  rw [Heap.xmlnsOf, Heap.xmlnsOf, kept.attrs]

theorem Untouched.made {old : Heap} (kept : Untouched h h' x) (made : Made old h x e) :
    Made old h' x e where
  new := made.new
  objclass := kept.place.objclass.trans made.objclass
  shows := ⟨kept.place.live.trans made.shows.live, kept.place.name.trans made.shows.name,
    kept.attrs.trans made.shows.attrs, by rw [kept.content, made.shows.content]⟩

/-- What is stored stays, if its objects do. -/
theorem Stored.kept {old : Heap} (stored : Stored old h kids new f)
    (kept : ∀ y, h.live y = true → old.live y = false → Untouched h h' y ∧ kids' y = kids y) :
    Stored old h' kids' new f := by
  induction f generalizing new with
  | nil => exact stored
  | node e sons siblings ihSons ihSiblings =>
      rcases stored with ⟨x, rest, rfl, made, below, beside⟩
      rcases kept x made.shows.live made.new with ⟨same, kids_eq⟩
      refine ⟨x, rest, rfl, same.made made, ?_, ihSiblings beside⟩
      rw [kids_eq]
      exact ihSons below

/-- What was not there is not there before. -/
theorem Stored.older {old older : Heap} (stored : Stored old h kids new f)
    (grows : ∀ y, older.live y = true → old.live y = true) : Stored older h kids new f := by
  induction f generalizing new with
  | nil => exact stored
  | node e sons siblings ihSons ihSiblings =>
      rcases stored with ⟨x, rest, rfl, made, below, beside⟩
      have absent : older.live x = false := by
        rw [← Bool.not_eq_true]
        intro alive
        have present := grows x alive
        rw [made.new] at present
        cases present
      exact ⟨x, rest, rfl, ⟨absent, made.objclass, made.shows⟩, ihSons below, ihSiblings beside⟩

theorem Stored.append {old : Heap} {new' : List Addr} (first : Stored old h kids new f)
    (second : Stored old h kids new' g) : Stored old h kids (new ++ new') (f.append g) := by
  induction f generalizing new with
  | nil =>
      have nothing : new = [] := first
      rw [nothing, List.nil_append]
      exact second
  | node e sons siblings _ ih =>
      rcases first with ⟨x, rest, rfl, made, below, beside⟩
      exact ⟨x, rest ++ new', rfl, made, below, ih beside⟩

theorem Arrived.refl (rep : h.Rep kids) (r : Addr) : Arrived h h kids kids r .nil where
  rep := rep
  kept y _ := .refl h y
  others _ _ _ := rfl
  children := ⟨[], (List.append_nil _).symm, rfl⟩

/-- One forest arrives behind another. -/
theorem Arrived.trans (alive : h.live r = true) (first : Arrived h h' kids kids' r f)
    (second : Arrived h' h'' kids' kids'' r g) : Arrived h h'' kids kids'' r (f.append g) where
  rep := second.rep
  kept y there := (first.kept y there).trans
    (second.kept y ((first.kept y there).place.live.trans there))
  others y there other :=
    (second.others y ((first.kept y there).place.live.trans there) other).trans
      (first.others y there other)
  children := by
    rcases first.children with ⟨new, kids_eq, stored⟩
    rcases second.children with ⟨new', kids_eq', stored'⟩
    refine ⟨new ++ new', by rw [kids_eq', kids_eq, List.append_assoc], .append ?_ ?_⟩
    · refine stored.kept fun y there absent => ⟨second.kept y there, second.others y there ?_⟩
      rintro rfl
      rw [alive] at absent
      cases absent
    · exact stored'.older fun y there => (first.kept y there).place.live.trans there

/-! ## A new object -/

/-- A new object without a class has been put behind the children of `r`. -/
structure Born (h h' : Heap) (kids : Kids) (r : Addr) (name : Text) (attrs : AttrList) : Prop where
  linked : h'.Linked
  chained : h'.Chained
  rep : h'.Rep (extend r h.top (Function.update kids h.top []))
  kept : ∀ y, h.live y = true → Untouched h h' y
  live : h'.live h.top = true
  name : h'.name h.top = name
  parent : h'.parent h.top = some r
  objclass : h'.objclass h.top = none
  attrs : h'.attrs h.top = attrs
  content : h'.content h.top = .zero

/-- The links of a new object, and the message about it. -/
theorem born_of_linked (linked : h.Linked) (chained : h.Chained) (rep : h.Rep kids)
    (alive : h.live r = true) (name : Text) : ∃ h₁ h₂,
      (h.alloc name none).1.appendChildNoCb r h.top = .ok h₁ ∧ h₁.getIndex h.top = .ok () ∧
      h₁.notify = .ok h₂ ∧ h₁.objclass = (h.alloc name none).1.objclass ∧
      Born h h₂ kids r name [] := by
  have linked₀ := linked.alloc name none
  have chained₀ := chained.alloc name none
  have other : r ≠ h.top := ne_top alive
  have alive₀ : (h.alloc name none).1.live r = true := by
    rw [alloc_fst_live, Function.update_of_ne other, alive]
  have new : (h.alloc name none).1.live h.top = true := Function.update_self ..
  have orphan : (h.alloc name none).1.parent h.top = none := Function.update_self ..
  rcases linked₀.appendChildNoCb chained₀ alive₀ new orphan with ⟨h₁, appended, chained₁⟩
  rcases notify_eq_ok h₁ with ⟨h₂, notified, agree, top_eq⟩
  rcases appended_of_appendChildNoCb appended with ⟨-, -, placed⟩
  have rep₁ := (rep.alloc linked.allocated name none).appended orphan appended
  have live₁ : ∀ y, h.live y = true → h₁.live y = true := by
    intro y there
    rw [placed.live, alloc_fst_live, Function.update_of_ne (ne_top there), there]
  have new₁ : h₁.live h.top = true := by
    rw [placed.live, new]
  have indexed : h₁.getIndex h.top = .ok () := by
    refine rep₁.getIndex fun p above => ?_
    rw [placed.parent, Function.update_self] at above
    cases above
    exact live₁ r alive
  refine ⟨h₁, h₂, appended, indexed, notified, placed.objclass, ?_⟩
  constructor
  case linked =>
    exact (linked₀.appended orphan appended).agree agree (by rw [top_eq]; exact Nat.le_succ _)
  case chained => exact chained₁.agree agree
  case rep => exact rep₁.agree agree
  case kept =>
    intro y there
    have different := ne_top there
    have now := live₁ y there
    constructor
    case place =>
      constructor
      · rw [agree.live, placed.live, alloc_fst_live, Function.update_of_ne different]
      · rw [agree.parent y now, placed.parent, Function.update_of_ne different, alloc_fst_parent,
          Function.update_of_ne different]
      · rw [agree.name y now, placed.name, alloc_fst_name, Function.update_of_ne different]
      · rw [agree.bus y now, placed.bus, Function.update_of_ne different, alloc_fst_bus,
          Function.update_of_ne different]
      · rw [agree.objclass y now, placed.objclass, alloc_fst_objclass,
          Function.update_of_ne different]
    case attrs =>
      rw [agree.attrs y now, placed.attrs, alloc_fst_attrs, Function.update_of_ne different]
    case content =>
      rw [agree.content y now, placed.content, alloc_fst_content, Function.update_of_ne different]
  case live => rw [agree.live, new₁]
  case name => rw [agree.name _ new₁, placed.name, alloc_fst_name, Function.update_self]
  case parent => rw [agree.parent _ new₁, placed.parent, Function.update_self]
  case objclass =>
    rw [agree.objclass _ new₁, placed.objclass, alloc_fst_objclass, Function.update_self]
  case attrs => rw [agree.attrs _ new₁, placed.attrs, alloc_fst_attrs, Function.update_self]
  case content => rw [agree.content _ new₁, placed.content, alloc_fst_content, Function.update_self]

/-- The new object gets its attributes. -/
theorem Born.setAttrs {name : Text} (born : Born h h' kids r name []) (attrs : AttrList) :
    Born h (h'.setAttrs h.top attrs) kids r name attrs where
  linked := born.linked.setAttrs _
  chained := born.chained.setAttrs _
  rep := ⟨born.rep.path, born.rep.mem, born.rep.count, born.rep.loose⟩
  kept y there :=
    ⟨⟨(born.kept y there).place.live, (born.kept y there).place.parent,
      (born.kept y there).place.name, (born.kept y there).place.bus,
      (born.kept y there).place.objclass⟩,
      (Function.update_of_ne (ne_top there) ..).trans (born.kept y there).attrs,
      (born.kept y there).content⟩
  live := born.live
  name := born.name
  parent := born.parent
  objclass := born.objclass
  attrs := Function.update_self ..
  content := born.content

/-! ## Opening an element -/

theorem nodup_attrList (plain : PlainAttrs l) : (attrKeys (attrList l)).Nodup := by
  have keys : attrKeys (attrList l) = l.map fun a => a.key.text := by
    rw [attrKeys, attrList, List.map_map]
    rfl
  rw [keys]
  exact plain.distinct

/-- Assigning attributes that the parser has read puts them back in order. -/
theorem assigned_reverse {attrs : AttrList} (nodup : (attrKeys attrs).Nodup) :
    assigned attrs.reverse [] = attrs := by
  induction attrs with
  | nil => rfl
  | cons attr rest ih =>
      rw [attrKeys, List.map_cons, List.nodup_cons] at nodup
      have front : assigned (rest.reverse ++ [attr]) [] =
          setattr attr.1 (some attr.2) (assigned rest.reverse []) := by
        rw [assigned, List.foldl_append]
        rfl
      rw [List.reverse_cons, front, ih nodup.2]
      exact setattr_of_notMem nodup.1

theorem objectName_name (n : Name) : objectName n.text = n.text := by
  refine List.takeWhile_eq_self_iff.mpr fun c member => decide_eq_true fun newline => ?_
  rw [newline] at member
  exact absurd (n.isNameChar_of_mem_text member) (by decide)

/-- No child of the focus is used again. -/
theorem Env.Hosts.not_reuses (hosts : env.Hosts b.heap r line) (focused : b.Focused (r :: back))
    (chained : b.heap.Chained) {own : Text} {attrs : AttrList} : ¬env.Reuses b own attrs o := by
  rintro ⟨r', sons, start, chain, focus, path, first, path', found⟩
  rw [focused.rObj] at focus
  cases focus
  have alive := focused.alive r List.mem_cons_self
  rcases focused.linked.rep with ⟨kids, rep⟩
  have sons_eq : sons = kids r := path.unique (rep.path r alive)
  rw [sons_eq] at first
  have member := List.mem_of_find?_eq_some first
  have aliveS := rep.live_of_mem alive member
  have parentS := rep.parent_of_mem alive member
  rcases chained.path start aliveS with ⟨chain', path'', inside⟩
  rw [path'.unique path''] at found
  rcases inside o (List.mem_of_find?_eq_some found) with ⟨aliveO, same⟩
  have stops := List.find?_some found
  have answers := hosts.fresh o aliveO (same.trans parentS)
  rw [stopsFind, objectMatch, answers] at stops
  cases stops

theorem mem_of_getattr {k v : Text} {attrs : AttrList} (found : getattr k attrs = some v) :
    (k, v) ∈ attrs := by
  induction attrs with
  | nil => cases found
  | cons attr rest ih =>
      rw [getattr] at found
      split at found
      · next same =>
          cases found
          rw [← same]
          exact List.mem_cons_self
      · exact List.mem_cons_of_mem _ (ih found)

/-- The namespace of an element is found and fits its buffer. -/
theorem Env.Hosts.namespaceOf (hosts : env.Hosts b.heap r line) (focused : b.Focused line)
    {q : QName} (unprefixed : q.hasNs = false) (plain : PlainAttrs l) :
    ∃ ns, b.namespaceOf q (attrList l).reverse = .ok (some ns) ∧ ns.length < lowcaseBuf := by
  rw [Bus.namespaceOf, if_neg (by rw [unprefixed]; exact Bool.false_ne_true)]
  have nodup := nodup_attrList plain
  have turned : getattr xmlns (attrList l).reverse = getattr xmlns (attrList l) :=
    getattr_reverse nodup
  cases own : getattr xmlns (attrList l).reverse with
  | some ns =>
      rw [turned] at own
      have member := mem_of_getattr own
      rcases List.mem_map.mp member with ⟨a, inside, same⟩
      rcases Prod.mk.inj same with ⟨key, value⟩
      exact ⟨ns, rfl, value ▸ plain.short a inside key⟩
  | none =>
      dsimp only
      rw [focused.getenv]
      have found : (line.find? fun y => (getattr xmlns (b.heap.attrs y)).isSome).isSome := by
        rw [List.find?_isSome]
        exact hosts.declared
      rcases Option.isSome_iff_exists.mp found with ⟨z, first⟩
      have stops : (getattr xmlns (b.heap.attrs z)).isSome = true := by
        have stops := List.find?_some first
        exact stops
      rcases Option.isSome_iff_exists.mp stops with ⟨ns, value⟩
      refine ⟨ns, by rw [first, Option.bind_some, value], ?_⟩
      exact hosts.short z (List.mem_of_find?_eq_some first) ns value

theorem classOf_none {h : Heap} (objclass : h.objclass x = none) :
    env.classOf h x = protoclass := by
  rw [env.classOf_eq, objclass]
  rfl

/-- What opening an element without a class does. -/
theorem openElement_new (passive : env.Passive) (hosts : env.Hosts b.heap r (r :: back))
    (focused : b.Focused (r :: back)) (chained : b.heap.Chained) (rep : b.heap.Rep kids)
    (takes : env.Takes e) (plain : PlainAttrs l) :
    ∃ h', env.openElement b (QName.split e.name.text) (attrList l).reverse =
        .ok { b with heap := h', rObj := some b.heap.top } ∧
      Born b.heap h' kids r e.name.text (attrList l) := by
  have unprefixed : (QName.split e.name.text).hasNs = false := decide_eq_false takes.unprefixed
  have name_eq := QName.name_of_unprefixed takes.unprefixed
  rcases hosts.namespaceOf focused unprefixed plain with ⟨ns, namespace_eq, short⟩
  have cut : (ns.takeWhile (· ≠ ch '#')).length < lowcaseBuf :=
    (List.takeWhile_prefix _).length_le.trans_lt short
  rcases focused.search env chained e.name.text (attrList l).reverse with
    ⟨found, findEq, reuses⟩
  have none_eq : found = none := by
    rw [Option.eq_none_iff_forall_ne_some]
    intro o again
    exact hosts.not_reuses focused chained ((reuses o).mp again)
  have looked : env.lookup b (some e.name.text) (attrList l).reverse = .ok none :=
    Env.lookup_eq_ok_iff.mpr ⟨none_eq ▸ findEq, fun o impossible => by cases impossible⟩
  have alive := focused.alive r List.mem_cons_self
  have other : r ≠ b.heap.top := ne_top alive
  rcases born_of_linked focused.linked chained rep alive e.name.text with
    ⟨h₁, h₂, appended, indexed, notified, classes, born⟩
  refine ⟨h₂.setAttrs b.heap.top (attrList l), ?_, born.setAttrs _⟩
  have created : env.newNsMatch b e.name.text (ns.takeWhile (· ≠ ch '#')) (attrList l).reverse =
      .ok ({ b with heap := (b.heap.alloc e.name.text none).1 }, b.heap.top) := by
    have proto : env.classOf (b.heap.alloc e.name.text none).1 b.heap.top = protoclass :=
      classOf_none (Function.update_self ..)
    have creatable : Env.Creatable e.name.text (ns.takeWhile (· ≠ ch '#')) :=
      ⟨cut, (objectName_name e.name).symm ▸ takes.short, (objectName_name e.name).symm ▸ takes.fits⟩
    refine (env.newNsMatch_eq_ok_iff).mpr ⟨creatable, ?_⟩
    rw [Env.created, objectName_name, takes.unregistered]
    change _ = ((env.classOf (b.heap.alloc e.name.text none).1 b.heap.top).onCreate.run ()
      { b with heap := (b.heap.alloc e.name.text none).1 } b.heap.top, b.heap.top)
    rw [proto]
    rfl
  have announced : env.announce { b with heap := h₁ } r b.heap.top = { b with heap := h₁ } := by
    have focus_class : env.classOf h₁ r = env.classOf b.heap r := by
      rw [env.classOf_eq, env.classOf_eq, classes, alloc_fst_objclass, Function.update_of_ne other]
    have new_class : h₁.objclass b.heap.top = none := by
      rw [classes, alloc_fst_objclass, Function.update_self]
    rw [Env.announce]
    dsimp only
    rw [focus_class, hosts.quiet, classOf_none new_class]
    exact passive _ _ new_class
  have linked_eq : env.appendChild { b with heap := (b.heap.alloc e.name.text none).1 } r
      b.heap.top = .ok { b with heap := h₂ } := by
    rw [Env.appendChild_eq]
    dsimp only
    rw [appended, ok_bind, announced]
    dsimp only
    rw [indexed, ok_bind, notified]
    rfl
  have assigned_eq : env.enter { b with heap := h₂ } b.heap.top (attrList l).reverse =
      { b with heap := h₂.setAttrs b.heap.top (attrList l), rObj := some b.heap.top } := by
    have attrs : assigned (attrList l).reverse (h₂.attrs b.heap.top) = attrList l := by
      rw [born.attrs, assigned_reverse (nodup_attrList plain)]
    rw [Env.enter, Env.assign, classOf_none born.objclass]
    change Bus.mk (h₂.setAttrs b.heap.top (assigned (attrList l).reverse (h₂.attrs b.heap.top)))
      b.self (some b.heap.top) b.nsmap b.transport b.log = _
    rw [attrs]
  have focus : b.rObj = some r := focused.rObj
  rw [Env.openElement_eq namespace_eq, name_eq, looked, ok_bind]
  dsimp only
  rw [Env.instantiate]
  dsimp only
  rw [created, ok_bind]
  dsimp only
  split
  · next nowhere =>
      rw [focus] at nowhere
      cases nowhere
  · next r' there =>
      cases focus.symm.trans there
      rw [linked_eq, ok_bind, assigned_eq]

/-! ## The focus -/

theorem extend_top (alive : h.live r = true) :
    extend r h.top (Function.update kids h.top []) h.top = [] := by
  rw [extend, Function.update_of_ne (ne_top alive).symm, Function.update_self]

/-- The new object has the focus. -/
theorem Born.focused {name : Text} {attrs : AttrList} (born : Born b.heap h' kids r name attrs)
    (focused : b.Focused (r :: back)) :
    ({ b with heap := h', rObj := some b.heap.top } : Bus).Focused (b.heap.top :: r :: back) where
  linked := born.linked
  rObj := rfl
  path := by
    refine ⟨rfl, ?_⟩
    change Path h'.parent (h'.parent b.heap.top) (r :: back) none
    rw [born.parent]
    exact focused.path.congr fun y member => (born.kept y (focused.alive y member)).place.parent
  alive := List.forall_mem_cons.mpr ⟨born.live, fun y member =>
    (born.kept y (focused.alive y member)).place.live.trans (focused.alive y member)⟩
  self := by
    rw [List.getLast?_cons, focused.self]
    rfl

/-- A new object takes others in its turn. -/
theorem Born.hosts {name : Text} (born : Born b.heap h' kids r name (attrList l))
    (hosts : env.Hosts b.heap r (r :: back)) (focused : b.Focused (r :: back))
    (plain : PlainAttrs l) : env.Hosts h' b.heap.top (b.heap.top :: r :: back) where
  quiet := by
    rw [classOf_none born.objclass]
    exact fun _ _ => rfl
  fresh x alive above := by
    have member := (born.rep.mem _ born.live x).mpr ⟨alive, above⟩
    rw [extend_top (focused.alive r List.mem_cons_self)] at member
    cases member
  declared := by
    rcases hosts.declared with ⟨y, member, some⟩
    refine ⟨y, List.mem_cons_of_mem _ member, ?_⟩
    rw [(born.kept y (focused.alive y member)).xmlnsOf]
    exact some
  short := by
    rw [List.forall_mem_cons]
    constructor
    · intro ns own
      rw [Heap.xmlnsOf, born.attrs] at own
      rcases List.mem_map.mp (mem_of_getattr own) with ⟨a, inside, same⟩
      rcases Prod.mk.inj same with ⟨key, value⟩
      exact value ▸ plain.short a inside key
    · intro y member ns own
      rw [(born.kept y (focused.alive y member)).xmlnsOf] at own
      exact hosts.short y member ns own

theorem Stored.objclass {old : Heap} (stored : Stored old h kids new f) :
    ∀ x ∈ new, h.objclass x = none := by
  induction f generalizing new with
  | nil =>
      have nothing : new = [] := stored
      rw [nothing]
      exact fun x member => absurd member List.not_mem_nil
  | node e sons siblings _ ih =>
      rcases stored with ⟨x, rest, rfl, made, -, beside⟩
      exact List.forall_mem_cons.mpr ⟨made.objclass, ih beside⟩

/-- The focus takes more when a forest has arrived. -/
theorem Arrived.hosts (arrived : Arrived h h' kids kids' r f) (hosts : env.Hosts h r line)
    (rep : h.Rep kids) (alive : ∀ y ∈ r :: line, h.live y = true) : env.Hosts h' r line where
  quiet := by
    have same := (arrived.kept r (alive r List.mem_cons_self)).place.objclass
    rw [env.classOf_eq, same, ← env.classOf_eq]
    exact hosts.quiet
  fresh x there above := by
    have aliveR := alive r List.mem_cons_self
    have aliveR' := (arrived.kept r aliveR).place.live.trans aliveR
    rcases arrived.children with ⟨new, kids_eq, stored⟩
    have member := (arrived.rep.mem r aliveR' x).mpr ⟨there, above⟩
    rw [kids_eq, List.mem_append] at member
    rcases member with old | made
    · have aliveX := rep.live_of_mem aliveR old
      rw [env.classOf_eq, (arrived.kept x aliveX).place.objclass, ← env.classOf_eq]
      exact hosts.fresh x aliveX (rep.parent_of_mem aliveR old)
    · rw [classOf_none (stored.objclass x made)]
  declared := by
    rcases hosts.declared with ⟨y, member, some⟩
    refine ⟨y, member, ?_⟩
    rw [(arrived.kept y (alive y (List.mem_cons_of_mem r member))).xmlnsOf]
    exact some
  short y member ns own := by
    rw [(arrived.kept y (alive y (List.mem_cons_of_mem r member))).xmlnsOf] at own
    exact hosts.short y member ns own

/-- An element has arrived with what is below it. -/
theorem Born.arrived {t : XString} (born : Born h h' kids r e.name.text (attrList e.attrs))
    (alive : h.live r = true)
    (arrived : Arrived h' h'' (extend r h.top (Function.update kids h.top [])) kids' h.top f)
    (bytes : t.bytes = e.content) :
    Arrived h (h''.setContent h.top t) kids kids' r (.node e f .nil) := by
  have other : r ≠ h.top := ne_top alive
  have aliveR : h'.live r = true := (born.kept r alive).place.live.trans alive
  have own := arrived.kept h.top born.live
  have settled : ∀ y, y ≠ h.top → Untouched h'' (h''.setContent h.top t) y := fun y different =>
    ⟨⟨rfl, rfl, rfl, rfl, rfl⟩, rfl, Function.update_of_ne different ..⟩
  rcases arrived.children with ⟨new, kids_eq, stored⟩
  constructor
  case rep =>
    exact ⟨arrived.rep.path, arrived.rep.mem, arrived.rep.count, arrived.rep.loose⟩
  case kept =>
    intro y there
    have here := (born.kept y there).place.live.trans there
    exact ((born.kept y there).trans (arrived.kept y here)).trans (settled y (ne_top there))
  case others =>
    intro y there different
    rw [arrived.others y ((born.kept y there).place.live.trans there) (ne_top there), extend,
      Function.update_of_ne different, Function.update_of_ne (ne_top there)]
  case children =>
    refine ⟨[h.top], ?_, h.top, [], rfl, ⟨h.live_top, ?_, ?_⟩, ?_, rfl⟩
    · rw [arrived.others r aliveR other, extend, Function.update_self, Function.update_of_ne other]
    · exact own.place.objclass.trans born.objclass
    · refine ⟨own.place.live.trans born.live, own.place.name.trans born.name, ?_, ?_⟩
      · exact own.attrs.trans born.attrs
      · rw [setContent_content, Function.update_self, bytes]
    · rw [kids_eq, extend_top alive, List.nil_append]
      have later : ∀ y, h''.live y = true → h'.live y = false →
          Untouched h'' (h''.setContent h.top t) y ∧ kids' y = kids' y := by
        intro y _ absent
        refine ⟨settled y ?_, rfl⟩
        rintro rfl
        rw [born.live] at absent
        cases absent
      exact (stored.kept later).older fun y there => (born.kept y there).place.live.trans there

end Xwbot
