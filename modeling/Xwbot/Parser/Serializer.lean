import Xwbot.Parser.Recording
import Xwbot.Parser.Walk

/-!
# Writing an object tree

`Forest` is a tree whose texts the parser can read back, and `Forest.markup` the markup that
is written for it.
-/

namespace Xwbot.Parser

/-- `x_parser_object_to_string`. -/
def objectToString (m : Memory) (h : Heap) (xobj : Addr) (fuel : Nat) (xstr : XString) :
    Except Fault XString := do
  let out ← serialize h xobj fuel
  .ok (out.foldl (XString.write m) xstr)

theorem bytes_foldl_write (m : Memory) (xstr : XString) (out : List Text) :
    (out.foldl (XString.write m) xstr).bytes = xstr.bytes ++ out.flatten := by
  induction out generalizing xstr with
  | nil => simp
  | cons text rest ih => rw [List.foldl_cons, ih, XString.bytes_write, List.flatten_cons,
      List.append_assoc]

/-! ## The tree -/

/-- An attribute whose value has no apostrophe. -/
structure AttrPair where
  key : Name
  value : Text
  value_apos : apos ∉ value
  value_nul : 0 ∉ value

/-- An object whose text has no `<`. -/
structure Element where
  name : Name
  attrs : List AttrPair
  content : List Byte
  noBracket : ch '<' ∉ content

/-- A list of siblings with everything below them. -/
inductive Forest where
  | nil
  | node (e : Element) (sons siblings : Forest)

/-- The fields of the object `x` are those of the element. -/
structure Shows (h : Heap) (x : Addr) (e : Element) : Prop where
  live : h.live x = true
  name : h.name x = e.name.text
  attrs : h.attrs x = e.attrs.map fun a => (a.key.text, a.value)
  content : (h.content x).bytes = e.content

/-- The siblings from `start` on have the given parent and, with what is below
them, are the forest. -/
def Represents (h : Heap) : Option Addr → Option Addr → Forest → Prop
  | _, start, .nil => start = none
  | parent, start, .node e sons siblings =>
      ∃ x, start = some x ∧ Shows h x e ∧ h.parent x = parent ∧
        Represents h (some x) (h.sons x) sons ∧ Represents h parent (h.sibling x) siblings

/-- The object `p` is the root of a tree. -/
structure IsTree (h : Heap) (p : Addr) (e : Element) (sons : Forest) : Prop where
  shows : Shows h p e
  below : Represents h (some p) (h.sons p) sons

namespace Forest

/-- There is no object. -/
def isNil : Forest → Bool
  | nil => true
  | node _ _ _ => false

end Forest

/-- The links of a forest. -/
theorem Represents.stands {h : Heap} {f : Forest} {start parent : Option Addr}
    (rep : Represents h parent start f) :
    ∃ g : Grove, g.Stands h parent start ∧ g.isNil = f.isNil := by
  induction f generalizing start parent with
  | nil => exact ⟨.nil, rep, rfl⟩
  | node e sons siblings ihSons ihSiblings =>
      rcases rep with ⟨x, rfl, fields, parent_eq, below, beside⟩
      rcases ihSons below with ⟨g, inside, -⟩
      rcases ihSiblings beside with ⟨g', behind, -⟩
      exact ⟨.node x g g', ⟨rfl, fields.live, parent_eq, inside, behind⟩, rfl⟩

/-! ## What is written -/

theorem isBlank_of_mem_nil : ∀ c ∈ ([] : Text), isBlank c = true := by
  simp

theorem isBlank_of_mem_space : ∀ c ∈ [ch ' '], isBlank c = true := by
  intro c member
  rw [List.mem_singleton.mp member]
  decide

theorem space_ne_nil : [ch ' '] ≠ [] :=
  List.cons_ne_nil _ _

theorem isQuote_apos : isQuote apos = true :=
  isQuote_iff.mpr (.inl rfl)

/-- The attribute as it is written. -/
def AttrPair.spec (a : AttrPair) : AttrSpec where
  lead := ⟨[ch ' '], isBlank_of_mem_space⟩
  name := a.key
  before := ⟨[], isBlank_of_mem_nil⟩
  after := ⟨[], isBlank_of_mem_nil⟩
  quote := apos
  value := a.value
  lead_ne := space_ne_nil
  quote_ok := isQuote_apos
  value_quote := a.value_apos
  value_nul := a.value_nul

/-- The opening tag of an element. -/
def Element.tag (e : Element) : Tag where
  name := e.name
  attrs := e.attrs.map AttrPair.spec
  trail := ⟨[], isBlank_of_mem_nil⟩

/-- The end tag of an element. -/
def Element.endTag (e : Element) : Markup :=
  .endTag e.name ⟨[], isBlank_of_mem_nil⟩

/-- An element around what is written for its sons. -/
def Element.wrap (e : Element) (noSons : Bool) (sons : List Markup) : List Markup :=
  if noSons && e.content.isEmpty then [.emptyTag e.tag]
  else .startTag e.tag :: sons ++ [.text e.content e.noBracket, e.endTag]

/-- The markup of a forest. -/
def Forest.markup : Forest → List Markup
  | nil => []
  | node e sons siblings => e.wrap sons.isNil sons.markup ++ siblings.markup

/-- The bytes of an opening tag without its end. -/
theorem openTag_eq {h : Heap} {x : Addr} {e : Element} (fields : Shows h x e) :
    openTag h x = e.tag.render := by
  rw [openTag, fields.name, fields.attrs, List.flatMap_map]
  simp [Tag.render, Element.tag, List.flatMap_map, AttrSpec.render, AttrPair.spec]

/-- What is written for an element. -/
theorem render_wrap (e : Element) (noSons : Bool) (sons : List Markup) :
    render (e.wrap noSons sons) =
      if noSons && e.content.isEmpty then e.tag.render ++ [ch '/', ch '>']
      else e.tag.render ++ [ch '>'] ++ render sons ++ (e.content ++ e.endTag.render) := by
  unfold Element.wrap
  split
  · simp [Markup.render]
  · simp [Markup.render]

theorem enclose_eq_render {h : Heap} {x : Addr} {e : Element} (fields : Shows h x e)
    (noSons : Bool) (sons : List Markup) :
    enclose h x noSons (render sons) = render (e.wrap noSons sons) := by
  have tail_eq : closeTag h x = e.endTag.render := by
    simp [closeTag, fields.name, Element.endTag, Markup.render]
  rw [render_wrap, enclose, openTag_eq fields, fields.content, tail_eq]

/-- What the recursion says for a forest is its markup. -/
theorem ser_eq_render {h : Heap} {f : Forest} {g : Grove} {start parent : Option Addr}
    (rep : Represents h parent start f) (stands : g.Stands h parent start) :
    g.isNil = f.isNil ∧ g.ser h = render f.markup := by
  induction f generalizing g start parent with
  | nil =>
      cases g with
      | nil => exact ⟨rfl, rfl⟩
      | node y sons siblings =>
          have start_eq : start = none := rep
          rw [start_eq] at stands
          cases stands.1
  | node e sons siblings ihSons ihSiblings =>
      rcases rep with ⟨x, rfl, fields, -, below, beside⟩
      cases g with
      | nil => cases stands
      | node y sons' siblings' =>
          rcases stands with ⟨same, -, -, below', beside'⟩
          cases same
          rcases ihSons below below' with ⟨noSons, inside⟩
          rw [Grove.ser, Forest.markup, render_append, noSons, inside,
            (ihSiblings beside beside').2,
            enclose_eq_render fields]
          exact ⟨rfl, rfl⟩

/-- **Spec of the serializer** for a tree that can be read back: the loop ends, and it has
written the markup of the tree. -/
theorem serialize_eq_render {h : Heap} {p : Addr} {e : Element} {sons : Forest}
    (tree : IsTree h p e sons) :
    ∃ n, ∀ fuel, n ≤ fuel → ∃ out, serialize h p fuel = .ok out ∧
      out.flatten = render (e.wrap sons.isNil sons.markup) := by
  rcases tree.below.stands with ⟨g, stands, -⟩
  rcases ser_eq_render tree.below stands with ⟨noSons, inside⟩
  rcases serialize_eq_ser ⟨tree.shows.live, stands⟩ with ⟨n, written⟩
  refine ⟨n, fun fuel enough => ?_⟩
  rcases written fuel enough with ⟨out, result, flatten_eq⟩
  refine ⟨out, result, ?_⟩
  rw [flatten_eq, ser, noSons, inside, enclose_eq_render tree.shows]

/-! ## Writing and reading back -/

/-- The calls that a tree stands for, without attribute lists: an object opens,
then come its sons, its content and its end. -/
def Forest.calls : Forest → List Event
  | nil => []
  | node e sons siblings =>
      [.xobjopen (some e.name.text) []] ++ sons.calls ++ e.content.map .xputchar ++
        [.xobjclose (some e.name.text)] ++ siblings.calls

/-- The calls for the tree below and with an element. -/
def Element.calls (e : Element) (sons : Forest) : List Event :=
  (Forest.node e sons .nil).calls

theorem calls_wrap (e : Element) (sons : Forest)
    (below : sons.markup.flatMap Markup.calls = sons.calls) :
    (e.wrap sons.isNil sons.markup).flatMap Markup.calls =
      [.xobjopen (some e.name.text) []] ++ sons.calls ++ e.content.map .xputchar ++
        [.xobjclose (some e.name.text)] := by
  unfold Element.wrap
  split
  · next empty =>
      rw [Bool.and_eq_true, List.isEmpty_iff] at empty
      cases sons with
      | nil => simp [Markup.calls, Element.tag, Forest.calls, empty.2]
      | node => cases empty.1
  · simp [Markup.calls, Element.tag, Element.endTag, below]

theorem calls_markup (f : Forest) : f.markup.flatMap Markup.calls = f.calls := by
  induction f with
  | nil => rfl
  | node e sons siblings ihSons ihSiblings =>
      rw [Forest.markup, List.flatMap_append, calls_wrap e sons ihSons, ihSiblings, Forest.calls]

/-- What is written for a tree is read back as the calls it stands for, and the
parser is then between two items. -/
theorem feed_objectToString (m : Memory) {h : Heap} {p : Addr} {e : Element} {sons : Forest}
    (tree : IsTree h p e sons) :
    ∃ n, ∀ fuel, n ≤ fuel → ∃ xstr s, objectToString m h p fuel .zero = .ok xstr ∧
      feed recorder.callbacks m (PushParser.init m, []) xstr.bytes = .ok s ∧
      s.2.map Event.bare = e.calls sons ∧ Ready s.1 := by
  obtain ⟨n, written⟩ := serialize_eq_render tree
  refine ⟨n, fun fuel enough => ?_⟩
  obtain ⟨out, result, flatten_eq⟩ := written fuel enough
  obtain ⟨q, events, recorded, run⟩ :=
    feed_render m (Ready.init m) (e.wrap sons.isNil sons.markup) []
  refine ⟨_, (q, events), by rw [objectToString, result, ok_bind], ?_, ?_, recorded.ready⟩
  · rw [bytes_foldl_write, XString.bytes_zero, List.nil_append, flatten_eq]
    exact run
  · rw [recorded.bare, calls_wrap e sons (calls_markup sons), Element.calls, Forest.calls,
      Forest.calls, List.append_nil]

/-- **Round trip.**  Writing a tree and parsing the text gives the calls of the
tree and no other, and the parser ends in text. -/
theorem parse_objectToString (m : Memory) {h : Heap} {p : Addr} {e : Element} {sons : Forest}
    (tree : IsTree h p e sons) :
    ∃ n, ∀ fuel, n ≤ fuel → ∃ xstr s, objectToString m h p fuel .zero = .ok xstr ∧
      feed recorder.callbacks m (PushParser.init m, []) xstr.bytes = .ok s ∧
      s.2.map Event.bare = e.calls sons ∧ s.1.rPutc = .txt ∧ s.1.stack = [] := by
  obtain ⟨n, parsed⟩ := feed_objectToString m tree
  refine ⟨n, fun fuel enough => ?_⟩
  obtain ⟨xstr, s, written, run, calls_eq, ready⟩ := parsed fuel enough
  exact ⟨xstr, s, written, run, calls_eq, ready.handler, ready.stack_eq⟩

/-- A single object named `a` with the given content. -/
def single (content : List Byte) : Heap :=
  let h := (Heap.empty.alloc (lit "a") none).1
  { h with content := Function.update h.content 0 (XString.zero.write (.filled 0) content) }

theorem isNameStart_a : isNameStart (ch 'a') = true := by
  decide

theorem isNameChar_of_mem_nil : ∀ c ∈ ([] : Text), isNameChar c = true := by
  simp

theorem noBracket_nil : ch '<' ∉ ([] : Text) :=
  List.not_mem_nil

/-- The element of `single`. -/
def singleElement (content : List Byte) (noBracket : ch '<' ∉ content) : Element :=
  ⟨⟨ch 'a', [], isNameStart_a, isNameChar_of_mem_nil⟩, [], content, noBracket⟩

theorem isTree_single (content : List Byte) (noBracket : ch '<' ∉ content) :
    IsTree (single content) 0 (singleElement content noBracket) .nil where
  shows := ⟨rfl, rfl, rfl, by
    change (XString.zero.write (.filled 0) content).bytes = content
    rw [XString.bytes_write, XString.bytes_zero, List.nil_append]⟩
  below := rfl

/-- `<a k='value'><b>text</b></a>` -/
def family (value text : Text) : Heap :=
  let h := Heap.newObjects [lit "b", lit "a"]
  let h := (h.setSons 0 (some 1)).setParent 1 (some 0)
  let h := h.setAttrs 0 [(lit "k", value)]
  h.setContent 1 (XString.zero.write (.filled 0) text)

theorem isNameStart_b : isNameStart (ch 'b') = true := by
  decide

theorem isNameStart_k : isNameStart (ch 'k') = true := by
  decide

/-- The elements of `family`. -/
def familyElement (value : Text) (quote : apos ∉ value) (nul : 0 ∉ value) : Element :=
  ⟨⟨ch 'a', [], isNameStart_a, isNameChar_of_mem_nil⟩,
    [⟨⟨ch 'k', [], isNameStart_k, isNameChar_of_mem_nil⟩, value, quote, nul⟩], [], noBracket_nil⟩

def sonElement (text : Text) (noBracket : ch '<' ∉ text) : Element :=
  ⟨⟨ch 'b', [], isNameStart_b, isNameChar_of_mem_nil⟩, [], text, noBracket⟩

theorem isTree_family (value text : Text) (quote : apos ∉ value) (nul : 0 ∉ value)
    (noBracket : ch '<' ∉ text) :
    IsTree (family value text) 0 (familyElement value quote nul)
      (.node (sonElement text noBracket) .nil .nil) where
  shows := ⟨rfl, rfl, rfl, rfl⟩
  below := by
    refine ⟨1, rfl, ⟨rfl, rfl, rfl, ?_⟩, rfl, rfl, rfl⟩
    change (XString.zero.write (.filled 0) text).bytes = text
    rw [XString.bytes_write, XString.bytes_zero, List.nil_append]

theorem parse_objectToString_family :
    ∃ n, ∀ fuel, n ≤ fuel → ∃ xstr s,
      objectToString (.filled 0) (family (lit "v>") (lit "x>")) 0 fuel .zero = .ok xstr ∧
      feed recorder.callbacks (.filled 0) (PushParser.init (.filled 0), []) xstr.bytes = .ok s ∧
      s.2.map Event.bare = [.xobjopen (some (lit "a")) [], .xobjopen (some (lit "b")) [],
        .xputchar (ch 'x'), .xputchar (ch '>'), .xobjclose (some (lit "b")),
        .xobjclose (some (lit "a"))] ∧
      s.1.rPutc = .txt ∧ s.1.stack = [] :=
  parse_objectToString (.filled 0) (isTree_family (lit "v>") (lit "x>")
    (by decide) (by decide) (by decide))

/-! ## The structure of what is read back -/

/-- The calls that open or close an object. -/
def Event.isTag : Event → Bool
  | .xputchar _ => false
  | _ => true

/-- The objects that a sequence of calls opens and closes. -/
def tagCalls (events : List Event) : List Event :=
  (events.map Event.bare).filter Event.isTag

/-- The objects of a forest, in pre-order. -/
def Forest.tagCalls : Forest → List Event
  | nil => []
  | node e sons siblings =>
      [.xobjopen (some e.name.text) []] ++ sons.tagCalls ++ [.xobjclose (some e.name.text)] ++
        siblings.tagCalls

theorem filter_calls (f : Forest) : f.calls.filter Event.isTag = f.tagCalls := by
  induction f with
  | nil => rfl
  | node e sons siblings ihSons ihSiblings =>
      have noText : (e.content.map Event.xputchar).filter Event.isTag = [] := by
        rw [List.filter_eq_nil_iff]
        simp [Event.isTag]
      simp only [Forest.calls, Forest.tagCalls, List.filter_append, ihSons, ihSiblings, noText,
        List.append_nil]
      rfl

/-- The trees differ in attribute values and content only. -/
def SameTags : Forest → Forest → Prop
  | .nil, .nil => True
  | .node e sons siblings, .node e' sons' siblings' =>
      e.name.text = e'.name.text ∧
        e.attrs.map (fun a => a.key.text) = e'.attrs.map (fun a => a.key.text) ∧
        SameTags sons sons' ∧ SameTags siblings siblings'
  | _, _ => False

theorem SameTags.tagCalls_eq {f g : Forest} (same : SameTags f g) : f.tagCalls = g.tagCalls := by
  induction f generalizing g with
  | nil =>
      cases g with
      | nil => rfl
      | node => cases same
  | node e sons siblings ihSons ihSiblings =>
      cases g with
      | nil => cases same
      | node e' sons' siblings' =>
          obtain ⟨name_eq, -, below, beside⟩ := same
          rw [Forest.tagCalls, Forest.tagCalls, name_eq, ihSons below, ihSiblings beside]

/-- The text written for an object is parsed to the end, and opens and closes
the given objects. -/
def ParsesTo (m : Memory) (h : Heap) (p : Addr) (objects : List Event) : Prop :=
  ∃ n, ∀ fuel, n ≤ fuel → ∃ xstr s, objectToString m h p fuel .zero = .ok xstr ∧
    feed recorder.callbacks m (PushParser.init m, []) xstr.bytes = .ok s ∧
    tagCalls s.2 = objects

/-- **No injection.**  Values without an apostrophe and content without `<` do
not show in the structure that is read back: it is that of the tree, for two
trees that differ in such text as for one. -/
theorem parsesTo_of_sameTags (m : Memory) {h h' : Heap} {p p' : Addr} {e e' : Element}
    {sons sons' : Forest} (tree : IsTree h p e sons) (tree' : IsTree h' p' e' sons')
    (same : SameTags (.node e sons .nil) (.node e' sons' .nil)) :
    ParsesTo m h p (Forest.node e sons .nil).tagCalls ∧
      ParsesTo m h' p' (Forest.node e sons .nil).tagCalls := by
  constructor
  · obtain ⟨n, parsed⟩ := feed_objectToString m tree
    refine ⟨n, fun fuel enough => ?_⟩
    obtain ⟨xstr, s, written, run, calls_eq, -⟩ := parsed fuel enough
    exact ⟨xstr, s, written, run, by rw [tagCalls, calls_eq, Element.calls, filter_calls]⟩
  · obtain ⟨n, parsed⟩ := feed_objectToString m tree'
    refine ⟨n, fun fuel enough => ?_⟩
    obtain ⟨xstr, s, written, run, calls_eq, -⟩ := parsed fuel enough
    exact ⟨xstr, s, written, run, by
      rw [tagCalls, calls_eq, Element.calls, filter_calls, same.tagCalls_eq]⟩

theorem parsesTo_of_sameTags_family :
    ParsesTo (.filled 0) (family (lit "v>") (lit "x>")) 0
        [.xobjopen (some (lit "a")) [], .xobjopen (some (lit "b")) [],
          .xobjclose (some (lit "b")), .xobjclose (some (lit "a"))] ∧
      ParsesTo (.filled 0) (family (lit "</a>") []) 0
        [.xobjopen (some (lit "a")) [], .xobjopen (some (lit "b")) [],
          .xobjclose (some (lit "b")), .xobjclose (some (lit "a"))] :=
  parsesTo_of_sameTags (.filled 0)
    (isTree_family (lit "v>") (lit "x>") (by decide) (by decide) (by decide))
    (isTree_family (lit "</a>") [] (by decide) (by decide) (by decide))
    ⟨rfl, rfl, ⟨rfl, rfl, trivial, trivial⟩, trivial⟩

/-- Content with an element in it opens that element: the text of an object named
`a` without sons does not parse to that object alone. -/
theorem not_parsesTo_element_in_content :
    ¬ ParsesTo (.filled 0) (single (lit "<b/>")) 0
        [.xobjopen (some (lit "a")) [], .xobjclose (some (lit "a"))] := by
  rintro ⟨n, parsed⟩
  obtain ⟨xstr, s, written, run, tags⟩ := parsed (n + 2) (Nat.le_add_right n 2)
  have text : (objectToString (.filled 0) (single (lit "<b/>")) 0 (n + 2) .zero).map
      XString.bytes = .ok (lit "<a><b/></a>") := by
    rfl
  rw [written] at text
  have bytes_eq : xstr.bytes = _ := Except.ok.inj text
  have calls : (feed recorder.callbacks (.filled 0) (PushParser.init (.filled 0), [])
      (lit "<a><b/></a>")).map (tagCalls ∘ Prod.snd) =
        .ok [.xobjopen (some (lit "a")) [], .xobjopen (some (lit "b")) [],
          .xobjclose (some (lit "b")), .xobjclose (some (lit "a"))] := by
    rfl
  rw [bytes_eq] at run
  rw [run] at calls
  have tags' : tagCalls s.2 = _ := Except.ok.inj calls
  rw [tags] at tags'
  revert tags'
  decide

end Xwbot.Parser
