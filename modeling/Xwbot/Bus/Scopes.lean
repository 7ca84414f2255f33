import Xwbot.Bus.Discipline

/-!
# Namespaces in scope

The namespace of an element is the one of the innermost declaration around it.  The bus keeps the
prefixes in one map, in which a declaration stays when its element is closed, and looks for the
default namespace among the attributes of the objects around the focus, where
`__x_bus_fill_nsmap` writes the namespace of a prefixed element as well.
-/

namespace Xwbot

open Links Runs Xwbot.Parser

variable {env : Env} {m : Memory} {b b' : Bus} {s s' : PushParser × Bus} {o : Addr}
  {line : List Addr} {attrs : AttrList} {name own uri key : Text} {names : List Text} {t : Tag}

/-! ## What is declared -/

/-- The attribute that declares the namespace of an element. -/
def declarationOf (name : Text) : Text :=
  if (QName.split name).hasNs then lit "xmlns:" ++ (QName.split name).ns else xmlns

/-- The first declaration in the attributes of some elements. -/
def firstDeclared (key : Text) (elements : List AttrList) : Option Text :=
  elements.findSome? (getattr key)

/-- A place in a document: the attributes of the elements around it, innermost first, and those of
all elements before it, latest first. -/
structure Scope where
  around : List AttrList
  before : List AttrList

/-- The place behind an item. -/
def Scope.after (scope : Scope) : Markup → Scope
  | .startTag t => ⟨t.pairs :: scope.around, t.pairs :: scope.before⟩
  | .emptyTag t => ⟨scope.around, t.pairs :: scope.before⟩
  | .endTag _ _ => ⟨scope.around.tail, scope.before⟩
  | _ => scope

/-- The tag that begins an element, and whether it is that of an empty one. -/
def Parser.Markup.opening : Markup → Option (Tag × Bool)
  | .startTag t => some (t, false)
  | .emptyTag t => some (t, true)
  | _ => none

/-- The namespace with which `__x_bus_objopen` looks up the class of an element. -/
def Bus.classNamespace (b : Bus) (name : Text) (attrs : AttrList) : Except Fault Text := do
  let q := QName.split name
  let declared := b.declare q attrs
  let ns ← declared.1.namespaceOf q declared.2
  cutNamespace ns

/-- The class is looked up with this namespace. -/
theorem Env.classNamespace_of_classKeys {cname ns : Text}
    (keys : env.classKeys b name attrs = .ok (some (cname, ns))) :
    b.classNamespace name attrs = .ok ns := by
  rcases bind_eq_ok_iff.mp keys with ⟨whole, namespace_eq, keys⟩
  rcases bind_eq_ok_iff.mp keys with ⟨cut, cut_eq, keys⟩
  rcases bind_eq_ok_iff.mp keys with ⟨start, -, keys⟩
  rcases bind_eq_ok_iff.mp keys with ⟨found, -, keys⟩
  have same : cut = ns := by
    cases found with
    | some o => cases keys
    | none =>
        cases name_eq : (QName.split name).name with
        | none =>
            rw [name_eq] at keys
            cases keys
        | some given =>
            rw [name_eq] at keys
            cases keys
            rfl
  unfold Bus.classNamespace
  dsimp only
  rw [namespace_eq, ok_bind, cut_eq, same]

/-- Something holds of every element of a document at the byte that opens it. -/
def Env.AtOpenings (env : Env) (m : Memory) (holds : Scope → Bus → Tag → AttrList → Prop) :
    Scope → PushParser × Bus → List Markup → Prop
  | _, _, [] => True
  | scope, s, item :: rest =>
      (∀ t empty, item.opening = some (t, empty) → ∀ s', run (env.step m) s t.render = .ok s' →
        ∀ attrs, opensAt m s' (tagEnd empty) = some (t.name.text, attrs) →
          holds scope s'.2 t attrs) ∧
      ∀ s', run (env.step m) s item.render = .ok s' →
        env.AtOpenings m holds (scope.after item) s' rest

/-- What can be decided of an element can be decided of a document. -/
instance Env.decidableAtOpenings (env : Env) (m : Memory)
    (holds : Scope → Bus → Tag → AttrList → Prop)
    [∀ scope b t attrs, Decidable (holds scope b t attrs)] :
    ∀ scope s doc, Decidable (env.AtOpenings m holds scope s doc)
  | _, _, [] => .isTrue trivial
  | scope, s, item :: rest =>
      let here : Decidable (∀ t empty, item.opening = some (t, empty) →
          ∀ s', run (env.step m) s t.render = .ok s' →
            ∀ attrs, opensAt m s' (tagEnd empty) = some (t.name.text, attrs) →
              holds scope s'.2 t attrs) :=
        decidable_of_iff (∀ tag ∈ item.opening, ∀ s', run (env.step m) s tag.1.render = .ok s' →
            ∀ call ∈ opensAt m s' (tagEnd tag.2), call.1 = tag.1.name.text →
              holds scope s'.2 tag.1 call.2)
          ⟨fun all t empty opening s' result attrs opens =>
            all (t, empty) opening s' result (t.name.text, attrs) opens rfl,
          fun all tag opening s' result call opens same =>
            all tag.1 tag.2 opening s' result call.2 (same ▸ opens)⟩
      let later : Decidable (∀ s', run (env.step m) s item.render = .ok s' →
          env.AtOpenings m holds (scope.after item) s' rest) :=
        @decidableForallOk _ _ _ _ fun s' =>
          Env.decidableAtOpenings env m holds (scope.after item) s' rest
      @instDecidableAnd _ _ here later

theorem Env.AtOpenings.mono {holds holds' : Scope → Bus → Tag → AttrList → Prop} {scope : Scope}
    {doc : List Markup}
    (weaker : ∀ scope b t attrs, holds scope b t attrs → holds' scope b t attrs)
    (each : env.AtOpenings m holds scope s doc) : env.AtOpenings m holds' scope s doc := by
  induction doc generalizing scope s with
  | nil => trivial
  | cons item rest ih =>
      rcases each with ⟨here, later⟩
      refine ⟨fun t empty opening s' result attrs opens => ?_, fun s' result =>
        ih (later s' result)⟩
      exact weaker _ _ _ _ (here t empty opening s' result attrs opens)

/-- **Namespace scoping** over a document: the class of every element is looked up with the
namespace of the innermost declaration, cut at `#`. -/
def Env.Scoped (env : Env) (m : Memory) : Scope → PushParser × Bus → List Markup → Prop
  | _, _, [] => True
  | scope, s, item :: rest =>
      (∀ t empty, item.opening = some (t, empty) → ∃ s' attrs uri,
        run (env.step m) s t.render = .ok s' ∧
        opensAt m s' (tagEnd empty) = some (t.name.text, attrs) ∧
        firstDeclared (declarationOf t.name.text) (t.pairs :: scope.around) = some uri ∧
        s'.2.classNamespace t.name.text attrs = .ok (uri.takeWhile (· ≠ ch '#'))) ∧
      ∃ s', run (env.step m) s item.render = .ok s' ∧ env.Scoped m (scope.after item) s' rest

/-- What an element asks for: its attributes come as they are written, an element in scope declares
its namespace `uri`, for a prefix also as the last before it, and its object gets the default
namespace that it declares itself. -/
structure Env.Plain (env : Env) (scope : Scope) (b : Bus) (t : Tag) (attrs : AttrList)
    (uri : Text) : Prop where
  default : getattr xmlns attrs = getattr xmlns t.pairs
  prefixes : ∀ pre, declaredIn pre attrs = getattr (lit "xmlns:" ++ pre) t.pairs
  inScope : firstDeclared (declarationOf t.name.text) (t.pairs :: scope.around) = some uri
  last : (QName.split t.name.text).hasNs = true →
    firstDeclared (declarationOf t.name.text) (t.pairs :: scope.before) = some uri
  reused : ∀ own o, (QName.split t.name.text).name = some own →
    env.Reuses b own (b.declare (QName.split t.name.text) attrs).2 o →
      (env.classOf b.heap o).onAssign.xmlns (b.declare (QName.split t.name.text) attrs).2
        (b.heap.xmlnsOf o) = getattr xmlns t.pairs
  created : ∀ own, (QName.split t.name.text).name = some own →
    (¬∃ o, env.Reuses b own (b.declare (QName.split t.name.text) attrs).2 o) →
      env.newXmlns b (env.classAt (env.getClass (objectName own) (uri.takeWhile (· ≠ ch '#'))
        (b.declare (QName.split t.name.text) attrs).2))
        (b.declare (QName.split t.name.text) attrs).2 = getattr xmlns t.pairs

/-! ## What the bus keeps -/

/-- The objects around the focus have the default namespaces that their elements declare. -/
inductive Declares (h : Heap) : List AttrList → List Addr → Prop
  | bus (x : Addr) : Declares h [] [x]
  | element {pairs : AttrList} {around : List AttrList} {o : Addr} {line : List Addr}
      (own : h.xmlnsOf o = getattr xmlns pairs) (outer : Declares h around line) :
      Declares h (pairs :: around) (o :: line)

theorem Declares.congr {h h' : Heap} {around : List AttrList} (declares : Declares h around line)
    (same : ∀ y ∈ line, h'.xmlnsOf y = h.xmlnsOf y) : Declares h' around line := by
  induction declares with
  | bus x => exact .bus x
  | element own outer ih =>
      rw [List.forall_mem_cons] at same
      exact .element (same.1.trans own) (ih same.2)

theorem firstDeclared_cons (key : Text) (pairs : AttrList) (rest : List AttrList) :
    firstDeclared key (pairs :: rest) = (getattr key pairs).or (firstDeclared key rest) := by
  rw [firstDeclared, List.findSome?_cons]
  cases getattr key pairs <;> rfl

/-- The search through the objects finds the innermost declaration. -/
theorem Declares.getenv {h : Heap} {around : List AttrList} (declares : Declares h around line)
    (found : firstDeclared xmlns around = some uri) :
    ((line.find? fun y => (getattr xmlns (h.attrs y)).isSome).bind fun y =>
      getattr xmlns (h.attrs y)) = some uri := by
  induction declares with
  | bus x => cases found
  | @element pairs around o line own outer ih =>
      rw [firstDeclared_cons, ← own] at found
      change ((getattr xmlns (h.attrs o)).or _) = some uri at found
      cases value : getattr xmlns (h.attrs o) with
      | some v =>
          rw [value] at found
          rw [List.find?_cons_of_pos (by rw [value]; rfl), Option.bind_some, value]
          exact found
      | none =>
          rw [value, Option.none_or] at found
          rw [List.find?_cons_of_neg (by rw [value]; simp)]
          exact ih found

/-- The map holds the last declaration of every prefix, and the objects their own. -/
structure Scoping (scope : Scope) (line : List Addr) (b : Bus) : Prop where
  map : ∀ pre uri, firstDeclared (lit "xmlns:" ++ pre) scope.before = some uri →
    b.nsmap.htGet pre = some uri
  objects : Declares b.heap scope.around line

namespace Scoping

variable {scope : Scope} {p q : PushParser} {empty : Bool} {ns : Text}

/-- The namespace of an element. -/
theorem namespaceOf (scoping : Scoping scope line s.2) (focused : s.2.Focused line)
    (tag : TagOpened env m s t empty own line p q ns b' o)
    (plain : env.Plain scope s.2 t q.attrs uri) : ns = uri := by
  have computed := tag.namespaceOf
  have inScope := plain.inScope
  have last := plain.last
  rw [firstDeclared_cons] at inScope last
  unfold declarationOf at inScope last
  unfold Bus.namespaceOf at computed
  cases prefixed : (QName.split t.name.text).hasNs with
  | true =>
      have declared := tag.asked.declared
      rw [Bus.Declared, if_pos prefixed] at declared
      rw [if_pos prefixed, cbuf, if_neg declared.1] at computed
      dsimp only at computed
      rw [htGet_declare, plain.prefixes] at computed
      have found := last prefixed
      rw [if_pos prefixed] at found
      cases own : getattr (lit "xmlns:" ++ (QName.split t.name.text).ns) t.pairs with
      | some v =>
          rw [own] at computed found
          exact (Option.some.inj (Except.ok.inj computed)).symm.trans (Option.some.inj found)
      | none =>
          rw [own, Option.none_or] at computed found
          rw [scoping.map _ _ found] at computed
          exact (Option.some.inj (Except.ok.inj computed)).symm
  | false =>
      rw [if_neg (by simp [prefixed])] at computed inScope
      rw [attrs_declare prefixed, plain.default] at computed
      cases own : getattr xmlns t.pairs with
      | some v =>
          rw [own] at computed inScope
          exact (Option.some.inj (Except.ok.inj computed)).symm.trans (Option.some.inj inScope)
      | none =>
          rw [own] at computed
          rw [own, Option.none_or] at inScope
          have around : (s.2.declare (QName.split t.name.text) q.attrs).1.heap.getenv
              (s.2.declare (QName.split t.name.text) q.attrs).1.rObj xmlns = .ok (some uri) :=
            (focused.getenv xmlns).trans (congrArg Except.ok (scoping.objects.getenv inScope))
          dsimp only at computed
          rw [around] at computed
          exact (Option.some.inj (Except.ok.inj computed)).symm

/-- The class of the element is looked up with it. -/
theorem classNamespace (tag : TagOpened env m s t empty own line p q ns b' o) (same : ns = uri) :
    s.2.classNamespace t.name.text q.attrs = .ok (uri.takeWhile (· ≠ ch '#')) := by
  unfold Bus.classNamespace
  dsimp only
  rw [tag.namespaceOf, ok_bind, same]
  rfl

/-- Opening an element. -/
theorem opens (scoping : Scoping scope line s.2)
    (tag : TagOpened env m s t empty own line p q ns b' o)
    (name_eq : (QName.split t.name.text).name = some own)
    (plain : env.Plain scope s.2 t q.attrs uri) (same : ns = uri) :
    Scoping ⟨t.pairs :: scope.around, t.pairs :: scope.before⟩ (o :: line) b' := by
  subst same
  have opened := tag.opened
  refine ⟨fun pre v found => ?_, .element ?_ (scoping.objects.congr opened.xmlns)⟩
  · rw [firstDeclared_cons] at found
    rw [opened.nsmap, htGet_declare, plain.prefixes]
    cases own : getattr (lit "xmlns:" ++ pre) t.pairs with
    | some v' =>
        rw [own] at found
        exact found
    | none =>
        rw [own, Option.none_or] at found
        rw [Option.none_or]
        exact scoping.map pre v found
  · rcases opened.source with ⟨reuses, -, stored⟩ | ⟨fresh, -, stored⟩
    · exact stored.trans (plain.reused own o name_eq reuses)
    · exact stored.trans (plain.created own name_eq fresh)

/-- Closing an element. -/
theorem closes {pairs : AttrList} {before : List AttrList} {around : List AttrList}
    (scoping : Scoping ⟨pairs :: around, before⟩ (o :: line) b)
    (focused : b.Focused (o :: line))
    (beside : Beside line o { b with rObj := b.heap.parent o } b') :
    Scoping ⟨around, before⟩ line b' := by
  have nodup := focused.path.nodup
  rw [List.nodup_cons] at nodup
  have outer : Declares b.heap around line := by
    cases scoping.objects with
    | element own outer => exact outer
  refine ⟨fun pre v found => ?_, outer.congr fun y member => ?_⟩
  · rw [beside.nsmap]
    exact scoping.map pre v found
  · exact beside.xmlns y member (ne_of_mem_of_not_mem member nodup.1)

end Scoping

/-- **The namespaces are those in scope**, from any state between two items. -/
theorem Between.inScope {doc : List Markup} {scope : Scope} (nested : Nested names doc)
    (proper : ∀ t ∈ openings doc, (QName.split t.name.text).name ≠ none)
    (between : Between names line s) (scoping : Scoping scope line s.2)
    (fair : Along (env.step m) (env.Fair m) s (render doc))
    (plain : env.AtOpenings m (fun scope b t attrs => ∃ uri, env.Plain scope b t attrs uri) scope s
      doc) : env.Scoped m scope s doc := by
  induction doc generalizing names line scope s with
  | nil => trivial
  | cons item rest ih =>
      rw [render_cons, along_append] at fair
      rcases fair with ⟨here, later⟩
      rcases plain with ⟨plain, plainRest⟩
      cases item with
      | text bs noBracket =>
          rcases between.named.exists_cons with ⟨r, back, rfl⟩
          rcases between.text env m noBracket with ⟨result, between'⟩
          refine ⟨by rintro t empty ⟨⟩, _, result, ?_⟩
          exact ih nested proper between' ⟨scoping.map, scoping.objects.congr fun _ _ => rfl⟩
            (later _ result) (plainRest _ result)
      | startTag t =>
          rcases Option.ne_none_iff_exists'.mp (proper t List.mem_cons_self) with ⟨own, name_eq⟩
          rcases between.startTag t name_eq here with ⟨p, q, ns, s', o, tag, result, between'⟩
          rcases plain t false rfl _ tag.read _ tag.opening with ⟨uri, asked⟩
          have same := scoping.namespaceOf between.focused tag asked
          have looked := Scoping.classNamespace tag same
          refine ⟨?_, s', result, ?_⟩
          · rintro t' empty ⟨⟩
            exact ⟨_, _, uri, tag.read, tag.opening, asked.inScope, looked⟩
          · exact ih nested (fun t member => proper t (List.mem_cons_of_mem _ member)) between'
              (scoping.opens tag name_eq asked same) (later s' result) (plainRest s' result)
      | emptyTag t =>
          rcases Option.ne_none_iff_exists'.mp (proper t List.mem_cons_self) with ⟨own, name_eq⟩
          rcases between.emptyTag t name_eq here with
            ⟨p, q, ns, middle, s', o, tag, -, -, -, result, beside, between'⟩
          rcases plain t true rfl _ tag.read _ tag.opening with ⟨uri, asked⟩
          have same := scoping.namespaceOf between.focused tag asked
          have looked := Scoping.classNamespace tag same
          refine ⟨?_, s', result, ?_⟩
          · rintro t' empty ⟨⟩
            exact ⟨_, _, uri, tag.read, tag.opening, asked.inScope, looked⟩
          · have inside := scoping.opens tag name_eq asked same
            exact ih nested (fun t member => proper t (List.mem_cons_of_mem _ member)) between'
              (inside.closes tag.opened.focused beside) (later s' result) (plainRest s' result)
      | endTag name trail =>
          rcases nested with ⟨outer, rfl, nested⟩
          rcases between.named.exists_cons with ⟨o, line', rfl⟩
          rcases between.endTag trail here with ⟨s', result, beside, between'⟩
          rcases between'.named.exists_cons with ⟨r, back, rfl⟩
          refine ⟨by rintro t empty ⟨⟩, s', result, ?_⟩
          rcases scope with ⟨around, before⟩
          cases around with
          | nil => cases scoping.objects
          | cons pairs around =>
              exact ih nested proper between' (scoping.closes between.focused beside)
                (later s' result) (plainRest s' result)
      | instruction bs noMark =>
          rcases between.instruction env m noMark with ⟨p, result, between'⟩
          refine ⟨by rintro t empty ⟨⟩, _, result, ?_⟩
          exact ih nested proper between' scoping (later _ result) (plainRest _ result)

/-- **Namespace scoping.**  From a reset on, as long as the focus follows the elements, their
attributes come as they are written, the last declaration of a prefix in front of a prefixed element
is one in scope, and every object gets the default namespace that its element declares, the class of
every element of a document is looked up with the namespace in scope. -/
theorem Env.scoped_of_along {s₀ : PushParser × Bus} {doc : List Markup}
    (linked : s₀.2.heap.Linked) (alive : s₀.2.heap.live s₀.2.self = true)
    (root : s₀.2.heap.parent s₀.2.self = none) (started : env.resetStream m s₀ = .ok s)
    (chained : s.2.heap.Chained) (nested : Nested [] doc)
    (proper : ∀ t ∈ openings doc, (QName.split t.name.text).name ≠ none)
    (fair : Along (env.step m) (env.Fair m) s (render doc))
    (plain : env.AtOpenings m (fun scope b t attrs => ∃ uri, env.Plain scope b t attrs uri) ⟨[], []⟩
      s doc) : env.Scoped m ⟨[], []⟩ s doc := by
  have between := Between.started linked alive root started chained
  have scoping : Scoping ⟨[], []⟩ [s₀.2.self] s.2 :=
    ⟨fun pre uri impossible => (by cases impossible), .bus _⟩
  exact between.inScope nested proper scoping fair plain

/-! ## Attributes as they are written -/

/-- A key declares the prefix that is written behind the colon. -/
theorem isNsDecl_and_iff {key : Text} (pre : Text)
    (written : isNsDecl key = true → key.take 6 = lit "xmlns:") :
    (isNsDecl key && declaredPrefix key = pre) = true ↔ key = lit "xmlns:" ++ pre := by
  rw [Bool.and_eq_true, decide_eq_true_eq]
  constructor
  · rintro ⟨decl, same⟩
    have split : key = lit "xmlns:" ++ key.drop 6 := by
      conv_lhs => rw [← List.take_append_drop 6 key, written decl]
    have behind : declaredPrefix (lit "xmlns:" ++ key.drop 6) = key.drop 6 := rfl
    rw [← split] at behind
    rw [← same, behind]
    exact split
  · rintro rfl
    exact ⟨decide_eq_true rfl, rfl⟩

/-- With keys that are different, and declarations that are written in small letters, what is
declared for a prefix is the value of its attribute. -/
theorem declaredIn_eq_getattr {l : AttrList} (nodup : (attrKeys l).Nodup)
    (written : ∀ k ∈ attrKeys l, isNsDecl k = true → k.take 6 = lit "xmlns:") (pre : Text) :
    declaredIn pre l = getattr (lit "xmlns:" ++ pre) l := by
  have first : ∀ l : AttrList,
      (∀ k ∈ attrKeys l, isNsDecl k = true → k.take 6 = lit "xmlns:") →
      (l.find? fun p => isNsDecl p.1 && declaredPrefix p.1 = pre).map Prod.snd =
        getattr (lit "xmlns:" ++ pre) l := by
    intro l written
    induction l with
    | nil => rfl
    | cons cell rest ih =>
        rcases cell with ⟨k, v⟩
        rw [attrKeys, List.map_cons, List.forall_mem_cons] at written
        have declares := isNsDecl_and_iff pre written.1
        rw [getattr]
        by_cases same : k = lit "xmlns:" ++ pre
        · simp only [List.find?_cons, declares.mpr same, if_pos same, Option.map_some]
        · have other : (isNsDecl k && decide (declaredPrefix k = pre)) = false :=
            Bool.eq_false_iff.mpr fun found => same (declares.mp found)
          simp only [List.find?_cons, other, if_neg same]
          exact ih written.2
  rw [declaredIn, first l.reverse ?_, getattr_reverse nodup]
  intro k member
  rw [attrKeys, List.map_reverse, List.mem_reverse] at member
  exact written k member

/-- Attributes that the parser hands over as they are written declare what is written. -/
theorem declaredIn_reverse {l : AttrList} (nodup : (attrKeys l).Nodup)
    (written : ∀ k ∈ attrKeys l, isNsDecl k = true → k.take 6 = lit "xmlns:") (pre : Text) :
    declaredIn pre l.reverse = getattr (lit "xmlns:" ++ pre) l := by
  have keys : attrKeys l.reverse = (attrKeys l).reverse := List.map_reverse
  rw [declaredIn_eq_getattr (by rw [keys]; exact List.nodup_reverse.mpr nodup) ?_,
    getattr_reverse nodup]
  intro k member
  rw [keys, List.mem_reverse] at member
  exact written k member

/-! ## Documents in the bus of the core classes -/

theorem isNameChar_of_mem_mlnsPrefix : ∀ c ∈ lit "mlns:p", isNameChar c = true := by
  decide +kernel

/-- The attribute that declares the prefix `p`. -/
def Parser.AttrPair.declaringPrefix (ns : Text) (quote : apos ∉ ns) (nul : 0 ∉ ns) : AttrPair :=
  ⟨⟨ch 'x', lit "mlns:p", isNameStart_x, isNameChar_of_mem_mlnsPrefix⟩, ns, quote, nul⟩

/-- The name `p:b`. -/
def Parser.Name.prefixed : Name :=
  ⟨ch 'p', lit ":b", by decide +kernel, by decide +kernel⟩

/-- An element with a default namespace and a prefix, and in it one with the prefix. -/
def prefixedElement : List Markup :=
  [.startTag ⟨.a, [(AttrPair.declaring (lit "d") (by decide) (by decide)).spec,
      (AttrPair.declaringPrefix (lit "1") (by decide) (by decide)).spec], ⟨[], isBlank_of_mem_nil⟩⟩,
    .emptyTag ⟨.prefixed, [], ⟨[ch ' '], isBlank_of_mem_space⟩⟩,
    .endTag .a ⟨[], isBlank_of_mem_nil⟩]

/-- A new element in plain sight whose attributes are as they are written. -/
def Env.BeginsPlain (env : Env) (scope : Scope) (b : Bus) (t : Tag) (attrs : AttrList) : Prop :=
  env.Begins b t.name.text attrs ∧ attrs = t.pairs.reverse ∧ (attrKeys t.pairs).Nodup ∧
    (∀ k ∈ attrKeys t.pairs, isNsDecl k = true → k.take 6 = lit "xmlns:") ∧
    ∃ uri ∈ firstDeclared (declarationOf t.name.text) (t.pairs :: scope.around),
      ((QName.split t.name.text).hasNs = true →
        firstDeclared (declarationOf t.name.text) (t.pairs :: scope.before) = some uri) ∧
      ∀ own ∈ (QName.split t.name.text).name,
        env.newXmlns b (env.classAt (env.getClass (objectName own) (uri.takeWhile (· ≠ ch '#'))
          (b.declare (QName.split t.name.text) attrs).2))
          (b.declare (QName.split t.name.text) attrs).2 = getattr xmlns t.pairs

instance (env : Env) (scope : Scope) (b : Bus) (t : Tag) (attrs : AttrList) :
    Decidable (env.BeginsPlain scope b t attrs) :=
  inferInstanceAs (Decidable (_ ∧ _ ∧ _ ∧ _ ∧ ∃ uri ∈ firstDeclared (declarationOf t.name.text) _,
    _ ∧ ∀ own ∈ (QName.split t.name.text).name, _))

theorem Env.BeginsPlain.plain {scope : Scope} (begins : env.BeginsPlain scope b t attrs) :
    ∃ uri, env.Plain scope b t attrs uri := by
  rcases begins with ⟨begins, rfl, nodup, written, uri, inScope, last, created⟩
  refine ⟨uri, getattr_reverse nodup, declaredIn_reverse nodup written, inScope, last,
    fun own o name_eq reuses => ?_, fun own name_eq _ => created own name_eq⟩
  exact absurd reuses (begins.2.1 own name_eq).not_reuses

theorem Env.scoped_of_along_prefixed :
    ∃ s, (coreEnv fun _ => ⟨true, 1⟩).started = .ok s ∧
      (coreEnv fun _ => ⟨true, 1⟩).Scoped (.filled 0) ⟨[], []⟩ s prefixedElement := by
  have concrete : (coreEnv fun _ => ⟨true, 1⟩).started.map (fun s => decide
      ((∀ x < s.2.heap.top, s.2.heap.live x = true → s.2.heap.next x = none) ∧
        Along ((coreEnv fun _ => ⟨true, 1⟩).step (.filled 0))
          (fun s c => (∀ call ∈ opensAt (.filled 0) s c,
              (coreEnv fun _ => ⟨true, 1⟩).Begins s.2 call.1 call.2) ∧
            ∀ o ∈ closesAt (.filled 0) s c, (coreEnv fun _ => ⟨true, 1⟩).keepsStream s.2 o = true)
          s (render prefixedElement) ∧
        (coreEnv fun _ => ⟨true, 1⟩).AtOpenings (.filled 0)
          (coreEnv fun _ => ⟨true, 1⟩).BeginsPlain ⟨[], []⟩ s prefixedElement)) = .ok true := by
    decide +kernel
  rcases map_eq_ok_iff.mp concrete with ⟨s, started, holds⟩
  rcases of_decide_eq_true holds with ⟨alone, along, plain⟩
  refine ⟨s, started, scoped_of_along linked_newBus rfl rfl started (Heap.chained_of_next alone)
    ?_ ?_ ?_ ?_⟩
  · exact ⟨[], rfl, trivial⟩
  · decide +kernel
  · exact along.mono fun s c met =>
      ⟨fun name attrs opening => (met.1 (name, attrs) opening).opens, met.2⟩
  · exact plain.mono fun scope b t attrs begins => begins.plain

/-- An element that declares a prefix, in it one that declares the prefix anew and is closed, and
behind that one with the prefix. -/
def redeclaringElement : List Markup :=
  [.startTag ⟨.a, [(AttrPair.declaring (lit "d") (by decide) (by decide)).spec,
      (AttrPair.declaringPrefix (lit "1") (by decide) (by decide)).spec], ⟨[], isBlank_of_mem_nil⟩⟩,
    .emptyTag ⟨.a, [(AttrPair.declaringPrefix (lit "2") (by decide) (by decide)).spec],
      ⟨[], isBlank_of_mem_nil⟩⟩,
    .emptyTag ⟨.prefixed, [], ⟨[ch ' '], isBlank_of_mem_space⟩⟩,
    .endTag .a ⟨[], isBlank_of_mem_nil⟩]

/-- The declaration of the closed element counts. -/
theorem Env.not_scoped_redeclared :
    ∃ s, (coreEnv fun _ => ⟨true, 1⟩).started = .ok s ∧ s.2.heap.Chained ∧
      Nested [] redeclaringElement ∧
      (∀ t ∈ openings redeclaringElement, (QName.split t.name.text).name ≠ none) ∧
      ¬(coreEnv fun _ => ⟨true, 1⟩).Scoped (.filled 0) ⟨[], []⟩ s redeclaringElement := by
  have concrete : ((coreEnv fun _ => ⟨true, 1⟩).started >>= fun s =>
      (run ((coreEnv fun _ => ⟨true, 1⟩).step (.filled 0)) s
        (lit "<a xmlns='d' xmlns:p='1'>" ++ (lit "<a xmlns:p='2'/>" ++ lit "<p:b "))).map fun s' =>
        (decide (∀ x < s.2.heap.top, s.2.heap.live x = true → s.2.heap.next x = none),
          (opensAt (.filled 0) s' (ch '/')).map fun call =>
            (s'.2.classNamespace call.1 call.2).toOption)) =
      .ok (true, some (some (lit "2"))) := by
    decide +kernel
  rcases bind_eq_ok_iff.mp concrete with ⟨s, started, ran⟩
  rcases map_eq_ok_iff.mp ran with ⟨s', result, values⟩
  rcases Prod.mk.inj values with ⟨alone, looked⟩
  refine ⟨s, started, Heap.chained_of_next (of_decide_eq_true alone), ⟨[], rfl, trivial⟩,
    by decide +kernel, fun right => ?_⟩
  rcases right with ⟨-, s₁, first, right⟩
  rcases right with ⟨-, s₂, second, third, -⟩
  rcases third _ _ rfl with ⟨s₃, attrs, uri, read, opens, inScope, found⟩
  -- both runs over the bytes up to the last element end in the same state
  have whole := run_trans first (run_trans second read)
  have same : s₃ = s' := Except.ok.inj (whole.symm.trans result)
  have outer : uri = lit "1" := by
    have declared : firstDeclared (declarationOf (lit "p:b"))
        [[], [(lit "xmlns", lit "d"), (lit "xmlns:p", lit "1")]] = some (lit "1") := by
      decide +kernel
    exact Option.some.inj (inScope.symm.trans declared)
  subst same outer
  change opensAt (.filled 0) s₃ (ch '/') = _ at opens
  rw [opens, Option.map_some, found] at looked
  revert looked
  decide +kernel

end Xwbot
