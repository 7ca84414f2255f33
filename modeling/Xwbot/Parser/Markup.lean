import Xwbot.AttrList

/-!
# Markup

The abstract side of the push parser: the tags, texts and processing
instructions of a well-formed stream, and the bytes they are written as.  Every
structure carries the proofs that it is well formed.
-/

namespace Xwbot.Parser

/-- A name: `[A-Za-z_:][A-Za-z0-9_:.-]*`, and any byte from `0x80` on. -/
structure Name where
  first : Byte
  rest : Text
  first_ok : isNameStart first = true
  rest_ok : ∀ c ∈ rest, isNameChar c = true

/-- The bytes of a name. -/
def Name.text (n : Name) : Text :=
  n.first :: n.rest

/-- White space. -/
def Space : Type :=
  { s : Text // ∀ c ∈ s, isBlank c = true }

/-- One attribute of a tag, with the white space in front of it and around its
equality sign. -/
structure AttrSpec where
  lead : Space
  name : Name
  before : Space
  after : Space
  quote : Byte
  value : Text
  lead_ne : lead.1 ≠ []
  quote_ok : isQuote quote = true
  value_quote : quote ∉ value
  value_nul : 0 ∉ value

/-- The bytes of an attribute. -/
def AttrSpec.render (a : AttrSpec) : Text :=
  a.lead.1 ++ a.name.text ++ a.before.1 ++ [ch '='] ++ a.after.1 ++ [a.quote] ++
    a.value ++ [a.quote]

/-- The pair that an attribute stands for. -/
def AttrSpec.pair (a : AttrSpec) : Text × Text :=
  (a.name.text, a.value)

/-- What a start tag and an empty-element tag have in common. -/
structure Tag where
  name : Name
  attrs : List AttrSpec
  trail : Space

namespace Tag

/-- A tag from its bracket to the byte that ends it. -/
def render (t : Tag) : Text :=
  ch '<' :: t.name.text ++ t.attrs.flatMap AttrSpec.render ++ t.trail.1

/-- The pairs written in a tag. -/
def pairs (t : Tag) : AttrList :=
  t.attrs.map AttrSpec.pair

/-- White space follows the name. -/
def spaced (t : Tag) : Bool :=
  !t.attrs.isEmpty || !t.trail.1.isEmpty

theorem attrs_eq_nil {t : Tag} (unspaced : t.spaced = false) : t.attrs = [] := by
  simp only [spaced, Bool.or_eq_false_iff, Bool.not_eq_false', List.isEmpty_iff] at unspaced
  exact unspaced.1

end Tag

/-- An item of a stream. -/
inductive Markup where
  /-- Text, which does not contain `<`. -/
  | text (bs : List Byte) (noBracket : ch '<' ∉ bs)
  | startTag (t : Tag)
  | emptyTag (t : Tag)
  | endTag (name : Name) (trail : Space)
  /-- A processing instruction, which does not contain `?`. -/
  | instruction (bs : List Byte) (noMark : ch '?' ∉ bs)

/-- The bytes of an item. -/
def Markup.render : Markup → Text
  | .text bs _ => bs
  | .startTag t => t.render ++ [ch '>']
  | .emptyTag t => t.render ++ [ch '/', ch '>']
  | .endTag name trail => ch '<' :: ch '/' :: name.text ++ trail.1 ++ [ch '>']
  | .instruction bs _ => ch '<' :: ch '?' :: bs ++ [ch '?', ch '>']

/-- The bytes of a stream. -/
def render (doc : List Markup) : Text :=
  doc.flatMap Markup.render

/-- The start tags and empty-element tags of a stream. -/
def openings : List Markup → List Tag
  | [] => []
  | .startTag t :: rest => t :: openings rest
  | .emptyTag t :: rest => t :: openings rest
  | _ :: rest => openings rest

@[simp]
theorem render_nil : render [] = [] :=
  rfl

@[simp]
theorem render_cons (item : Markup) (rest : List Markup) :
    render (item :: rest) = item.render ++ render rest := by
  simp [render]

@[simp]
theorem render_append (first second : List Markup) :
    render (first ++ second) = render first ++ render second := by
  simp [render]

/-! ## What the parser keeps of a key -/

/-- A key without the bytes that the key phase of `x_parser_ctx_attr` skips. -/
def Name.key (n : Name) : Text :=
  n.first :: n.rest.filter isKeyChar

theorem Name.isKeyChar_of_mem_key {n : Name} {c : Byte} (member : c ∈ n.key) :
    isKeyChar c = true := by
  rcases List.mem_cons.mp member with rfl | member
  · exact isKeyChar_of_isNameStart n.first_ok
  · exact (List.mem_filter.mp member).2

/-- A name survives as a key when it has no `-` and no `.`. -/
def Name.isKey (n : Name) : Bool :=
  n.rest.all isKeyChar

theorem Name.key_eq_text {n : Name} (plain : n.isKey = true) : n.key = n.text := by
  rw [Name.key, Name.text, List.filter_eq_self.mpr (List.all_eq_true.mp plain)]

theorem Name.zero_notMem_key (n : Name) : (0 : Byte) ∉ n.key :=
  fun member => absurd (Name.isKeyChar_of_mem_key member) (by decide)

theorem Name.isNameChar_of_mem_text {n : Name} {c : Byte} (member : c ∈ n.text) :
    isNameChar c = true := by
  rcases List.mem_cons.mp member with rfl | member
  · exact isNameChar_of_isKeyChar (isKeyChar_of_isNameStart n.first_ok)
  · exact n.rest_ok c member

theorem Name.zero_notMem_text (n : Name) : (0 : Byte) ∉ n.text :=
  fun member => absurd (Name.isNameChar_of_mem_text member) (by decide)

end Xwbot.Parser
