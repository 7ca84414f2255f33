import Xwbot.Parser.Core
import Xwbot.Parser.Markup

/-!
# Reading markup

What the push parser does with each piece of a well-formed stream, for any
callbacks.  Bytes between two callbacks only move the parser (`Quiet`); a tag
ends in one callback, or two for an empty element.
-/

namespace Xwbot.Parser

open PushParser

/-! ## Quiet stretches -/

/-- The bytes lead from `p` to `q` without a callback. -/
def Quiet (m : Memory) (p : PushParser) (bs : List Byte) (q : PushParser) : Prop :=
  ∀ (σ : Type) (cb : Callbacks σ) (u : σ), feed cb m (p, u) bs = .ok (q, u)

namespace Quiet

variable {m : Memory} {p q r : PushParser} {c : Byte} {bs cs : List Byte}

theorem nil : Quiet m p [] p :=
  fun _ _ _ => rfl

theorem single (step : dispatch m p c = .ok (.quiet q)) : Quiet m p [c] q := by
  intro σ cb u
  rw [feed_cons, putChar, step]
  rfl

theorem append (first : Quiet m p bs q) (second : Quiet m q cs r) : Quiet m p (bs ++ cs) r := by
  intro σ cb u
  rw [feed_append, first σ cb u, ok_bind, second σ cb u]

theorem cons (step : dispatch m p c = .ok (.quiet q)) (rest : Quiet m q bs r) :
    Quiet m p (c :: bs) r :=
  (single step).append rest

/-- A rejected byte changes nothing. -/
theorem reject (step : dispatch m p c = .ok (.reject p)) : Quiet m p [c] p := by
  intro σ cb u
  rw [feed_cons, putChar, step]
  rfl

/-- Bytes that each leave the parser as it is. -/
theorem stay (steps : ∀ c ∈ bs, Quiet m p [c] p) : Quiet m p bs p := by
  induction bs with
  | nil => exact nil
  | cons c rest ih =>
      rw [List.forall_mem_cons] at steps
      exact steps.1.append (ih steps.2)

theorem feed {σ : Type} (quiet : Quiet m p bs q) (cb : Callbacks σ) (u : σ) (rest : List Byte) :
    feed cb m (p, u) (bs ++ rest) = feed cb m (q, u) rest := by
  rw [feed_append, quiet σ cb u, ok_bind]

end Quiet

/-- A byte that ends in a callback. -/
theorem feed_of_call {σ : Type} (cb : Callbacks σ) {m : Memory} {p : PushParser} {c : Byte}
    {o : Outcome} (step : dispatch m p c = .ok o) (u : σ) (rest : List Byte) :
    feed cb m (p, u) (c :: rest) =
      perform cb m o.call (o.parser, u) >>= fun s => feed cb m (o.resume s.1, s.2) rest := by
  rw [feed_cons, putChar, step, ok_bind]
  cases perform cb m o.call (o.parser, u) <;> rfl

/-! ## Collecting bytes in a register -/

section Registers

variable {m : Memory} {p : PushParser} {bs : List Byte}

/-- The name of an opening tag. -/
theorem quiet_openName (handler : p.rPutc = .tag) (control : p.cr1 = .objOpening)
    (chars : ∀ c ∈ bs, isNameChar c = true) : Quiet m p bs { p with r0 := p.r0.puts m bs } := by
  induction bs generalizing p with
  | nil => exact Quiet.nil
  | cons c rest ih =>
      rw [List.forall_mem_cons] at chars
      refine Quiet.cons (q := { p with r0 := p.r0.putc m c }) ?_ (ih handler control chars.2)
      simp only [dispatch, handler, ctxTag, control, chars.1, if_true]

/-- The name of an end tag. -/
theorem quiet_closeName (handler : p.rPutc = .tag) (control : p.cr1 = .objClosing)
    (chars : ∀ c ∈ bs, isNameChar c = true) : Quiet m p bs { p with r0 := p.r0.puts m bs } := by
  induction bs generalizing p with
  | nil => exact Quiet.nil
  | cons c rest ih =>
      rw [List.forall_mem_cons] at chars
      refine Quiet.cons (q := { p with r0 := p.r0.putc m c }) ?_ (ih handler control chars.2)
      simp only [dispatch, handler, ctxTag, control, chars.1, (ne_of_isNameChar chars.1).1,
        if_true, if_false]

/-- An attribute key loses the bytes that the key phase has no branch for. -/
theorem quiet_key (handler : p.rPutc = .attr) (control : p.cr1 = .kvKey)
    (chars : ∀ c ∈ bs, isNameChar c = true) :
    Quiet m p bs { p with r1 := p.r1.puts m (bs.filter isKeyChar) } := by
  induction bs generalizing p with
  | nil => exact Quiet.nil
  | cons c rest ih =>
      rw [List.forall_mem_cons] at chars
      by_cases keyChar : isKeyChar c = true
      · rw [List.filter_cons_of_pos keyChar]
        refine Quiet.cons (q := { p with r1 := p.r1.putc m c }) ?_ (ih handler control chars.2)
        simp only [dispatch, handler, ctxAttr, control, keyChar, if_true]
      · rw [List.filter_cons_of_neg keyChar]
        refine Quiet.cons (q := p) ?_ (ih handler control chars.2)
        have notBlank := isBlank_of_isNameChar chars.1
        obtain ⟨-, -, notEquals, -⟩ := ne_of_isNameChar chars.1
        simp only [dispatch, handler, ctxAttr, control, keyChar, notBlank, notEquals, if_false,
          Bool.false_eq_true]

/-- A quoted value. -/
theorem quiet_value (handler : p.rPutc = .idle) (collects : p.g2 = true)
    (inside : p.g1 ∉ bs) : Quiet m p bs { p with r2 := p.r2.puts m bs } := by
  induction bs generalizing p with
  | nil => exact Quiet.nil
  | cons c rest ih =>
      rw [List.mem_cons, not_or] at inside
      refine Quiet.cons (q := { p with r2 := p.r2.putc m c }) ?_ (ih handler collects inside.2)
      simp only [dispatch, handler, ctxIdle, isTerminator, inside.1, collects, if_true,
        decide_false, Bool.false_and, Bool.false_eq_true, if_false]

/-- Skipped bytes. -/
theorem quiet_skip (handler : p.rPutc = .idle) (drops : p.g2 = false) (inside : p.g1 ∉ bs) :
    Quiet m p bs p := by
  refine Quiet.stay fun c member => Quiet.single ?_
  have other : p.g1 ≠ c := fun same => inside (same ▸ member)
  simp only [dispatch, handler, ctxIdle, isTerminator, other, drops, decide_false,
    Bool.false_and, Bool.false_eq_true, if_false]

end Registers

/-! ## Attributes -/

section Attributes

variable {m : Memory} {p : PushParser}

/-- The attribute handler waits for a key. -/
structure BetweenAttrs (p : PushParser) : Prop where
  handler : p.rPutc = .attr
  control : p.cr1 = .ini ∨ p.cr1 = .objOpening
  stack_eq : p.stack = []
  key_empty : p.r1.bytes = []
  key_buffer : p.r1.cbuf.isSome

/-- The attribute handler has read a value that it has not stored yet. -/
structure AfterValue (m : Memory) (p : PushParser) (k v : Text) : Prop where
  handler : p.rPutc = .attr
  control : p.cr1 = .kvLav
  stack_eq : p.stack = []
  key : p.r1.cstr m = some k
  value : p.r2.cstr m = some v

/-- The registers after an attribute. -/
def PushParser.readAttr (m : Memory) (p : PushParser) (a : AttrSpec) : PushParser :=
  { p with
    r1 := p.r1.puts m a.name.key
    r2 := (p.r2.clear m).puts m a.value
    g1 := a.quote
    g2 := true
    cr1 := .kvLav
    rPutc := .attr
    stack := [] }

theorem quiet_between {c : Byte} (between : BetweenAttrs p) (blank : isBlank c = true) :
    Quiet m p [c] p := by
  apply Quiet.single
  have notStart := isNameStart_of_isBlank blank
  rcases between.control with control | control <;>
    simp only [dispatch, between.handler, ctxAttr, control, notStart, blank, Bool.false_eq_true,
      if_false, if_true]

/-- White space before the equality sign. -/
theorem quiet_equals (handler : p.rPutc = .attr) (control : p.cr1 = .kvKey) {s : List Byte}
    (blanks : ∀ c ∈ s, isBlank c = true) :
    Quiet m p (s ++ [ch '=']) { p with cr1 := .kvVal } := by
  cases s with
  | nil =>
      apply Quiet.single
      simp only [dispatch, handler, ctxAttr, control]
      rfl
  | cons c rest =>
      rw [List.forall_mem_cons] at blanks
      have waits : dispatch m p c = .ok (.quiet { p with cr1 := .kvWantVal }) := by
        have notKey := isKeyChar_of_isBlank blanks.1
        obtain ⟨-, -, notEquals, -⟩ := ne_of_isBlank blanks.1
        simp only [dispatch, handler, ctxAttr, control, notKey, notEquals, blanks.1,
          Bool.false_eq_true, if_false, if_true]
      refine Quiet.cons waits (Quiet.append (Quiet.stay fun d member => Quiet.single ?_)
        (Quiet.single ?_))
      · have blank := blanks.2 d member
        obtain ⟨-, -, notEquals, -⟩ := ne_of_isBlank blank
        simp only [dispatch, handler, ctxAttr, notEquals, blank, if_false, if_true]
      · simp only [dispatch, handler, ctxAttr, if_true]

/-- The quotation marks around a value and the value between them. -/
theorem quiet_quoted (handler : p.rPutc = .attr) (control : p.cr1 = .kvVal)
    (stack_eq : p.stack = []) (a : AttrSpec) :
    Quiet m p ([a.quote] ++ a.value ++ [a.quote]) { p with
      r2 := (p.r2.clear m).puts m a.value, g1 := a.quote, g2 := true, cr1 := .kvLav } := by
  obtain ⟨low, notBlank⟩ := isHigh_of_isQuote a.quote_ok
  have opens : dispatch m p a.quote = .ok (.quiet { p with
      r2 := p.r2.clear m, g1 := a.quote, g2 := true, cr1 := .kvLav, rPutc := .idle,
      stack := [.attr] }) := by
    simp only [dispatch, handler, ctxAttr, control, notBlank, a.quote_ok, Bool.false_eq_true,
      if_false, if_true]
    rw [push_of_nil .attr (by exact stack_eq), ok_bind]
  refine Quiet.append (Quiet.append (Quiet.single opens)
    (quiet_value rfl rfl a.value_quote)) (Quiet.single ?_)
  simp only [dispatch, ctxIdle, isTerminator, low, decide_true, Bool.not_false, Bool.and_true,
    if_true]
  rw [@pop_of_cons _ .attr [] rfl, ok_bind]
  simp only [← handler, ← stack_eq]

/-- An attribute, without the white space in front of it. -/
theorem quiet_attr (between : BetweenAttrs p) (a : AttrSpec) :
    Quiet m p (a.name.text ++ a.before.1 ++ [ch '='] ++ a.after.1 ++ [a.quote] ++ a.value ++
      [a.quote]) (p.readAttr m a) := by
  have starts : dispatch m p a.name.first =
      .ok (.quiet { p with r1 := p.r1.putc m a.name.first, cr1 := .kvKey }) := by
    rcases between.control with control | control <;>
      simp only [dispatch, between.handler, ctxAttr, control, a.name.first_ok, if_true]
  have name := Quiet.cons starts
    (quiet_key (by exact between.handler) rfl a.name.rest_ok)
  have equals := name.append (quiet_equals (by exact between.handler) rfl a.before.2)
  have blanks := equals.append (@Quiet.stay _ _ a.after.1 fun c member => Quiet.single (by
    simp only [dispatch, between.handler, ctxAttr, a.after.2 c member, if_true]))
  have value := blanks.append (quiet_quoted (by exact between.handler) rfl
    (by exact between.stack_eq) a)
  simpa only [readAttr, Name.text, Name.key, XString.puts_cons, List.append_assoc,
    List.cons_append, ← between.handler, ← between.stack_eq] using value

/-- The value that a reader of `r2` sees is the one written, unless that is
empty: then the buffer still shows what was in it. -/
theorem afterValue_readAttr (between : BetweenAttrs p) (a : AttrSpec) :
    ∃ v, AfterValue m (p.readAttr m a) a.name.key v ∧ (a.value ≠ [] → v = a.value) ∧
      (p.r2.Dirty → v ≠ []) := by
  have key : (p.r1.puts m a.name.key).cstr m = some a.name.key :=
    XString.cstr_puts m between.key_empty (by simp [Name.key]) a.name.zero_notMem_key
  have buffer := XString.cbuf_isSome_puts m (XString.cbuf_isSome_clear m p.r2) a.value
  obtain ⟨block, cbuf_eq⟩ := Option.isSome_iff_exists.mp buffer
  have read : ((p.r2.clear m).puts m a.value).cstr m = some (m.cstr block) := by
    rw [XString.cstr, cbuf_eq, Option.map_some]
  refine ⟨m.cstr block, ⟨rfl, rfl, rfl, key, read⟩, fun nonempty => ?_, fun dirty empty => ?_⟩
  · have written := XString.cstr_puts m (XString.bytes_clear m p.r2) nonempty a.value_nul
    rw [read] at written
    exact Option.some.inj written
  · rw [empty] at read
    exact ((dirty.clear m).puts m a.value_nul).cstr_ne m read

/-- The lists that a tag's attributes can make of the list `l`.  An empty value
is replaced by an unknown one, which is not empty when `r2` was dirty. -/
inductive Handed (dirty : Prop) : AttrList → List AttrSpec → AttrList → Prop where
  | nil (l : AttrList) : Handed dirty l [] l
  | cons {l l' : AttrList} {a : AttrSpec} {rest : List AttrSpec} {v : Text}
      (written : a.value ≠ [] → v = a.value) (stale : dirty → v ≠ [])
      (tail : Handed dirty (setattr a.name.key (some v) l) rest l') : Handed dirty l (a :: rest) l'

theorem Handed.mono {dirty dirty' : Prop} (weaker : dirty' → dirty) {l l' : AttrList}
    {attrs : List AttrSpec} (handed : Handed dirty l attrs l') : Handed dirty' l attrs l' := by
  induction handed with
  | nil => exact .nil _
  | cons written stale _ ih => exact .cons written (stale ∘ weaker) ih

/-- The attribute handler has read `l`; its last pair may still have to be stored. -/
inductive InTag (m : Memory) : PushParser → AttrList → Prop where
  | between {p : PushParser} (between : BetweenAttrs p) : InTag m p p.attrs
  | after {p : PushParser} {k v : Text} (after : AfterValue m p k v) :
      InTag m p (setattr k (some v) p.attrs)

theorem InTag.stack_eq {l : AttrList} (inTag : InTag m p l) : p.stack = [] := by
  cases inTag with
  | between between => exact between.stack_eq
  | after after => exact after.stack_eq

theorem commitAttr_eq {k v : Text} (after : AfterValue m p k v) :
    commitAttr m p = .ok { p with attrs := setattr k (some v) p.attrs } := by
  simp only [commitAttr, after.key, after.value]

/-- What a stretch inside a tag leaves alone. -/
structure SameTag (p q : PushParser) : Prop where
  name : q.r0 = p.r0
  dirty : p.r2.Dirty → q.r2.Dirty

theorem SameTag.trans {q r : PushParser} (first : SameTag p q) (second : SameTag q r) :
    SameTag p r :=
  ⟨second.name.trans first.name, second.dirty ∘ first.dirty⟩

/-- White space stores the pair that was read last. -/
theorem quiet_space {l : AttrList} (inTag : InTag m p l) {s : List Byte} (nonempty : s ≠ [])
    (blanks : ∀ c ∈ s, isBlank c = true) :
    ∃ q, Quiet m p s q ∧ BetweenAttrs q ∧ q.attrs = l ∧ SameTag p q := by
  cases inTag with
  | between between =>
      exact ⟨p, Quiet.stay fun c member => quiet_between between (blanks c member), between, rfl,
        rfl, id⟩
  | @after k v after =>
      obtain ⟨c, rest, rfl⟩ := List.exists_cons_of_ne_nil nonempty
      rw [List.forall_mem_cons] at blanks
      let q : PushParser := { p with
        attrs := setattr k (some v) p.attrs, r1 := p.r1.clear m, r2 := p.r2.clear m, cr1 := .ini }
      have between : BetweenAttrs q :=
        ⟨after.handler, .inl rfl, after.stack_eq, XString.bytes_clear m _,
          XString.cbuf_isSome_clear m _⟩
      have stores : dispatch m p c = .ok (.quiet q) := by
        have notStart := isNameStart_of_isBlank blanks.1
        simp only [q, dispatch, after.handler, ctxAttr, after.control, notStart, blanks.1,
          commitAttr_eq after, ok_bind, Bool.false_eq_true, if_false, if_true]
      exact ⟨q, Quiet.cons stores (Quiet.stay fun d member => quiet_between between
        (blanks.2 d member)), between, rfl, rfl, fun dirty => dirty.clear m⟩

/-- All attributes of a tag. -/
theorem quiet_attrs {l : AttrList} (inTag : InTag m p l) (attrs : List AttrSpec) :
    ∃ q l', Quiet m p (attrs.flatMap AttrSpec.render) q ∧ InTag m q l' ∧
      Handed p.r2.Dirty l attrs l' ∧ SameTag p q := by
  induction attrs generalizing p l with
  | nil => exact ⟨p, l, Quiet.nil, inTag, .nil l, rfl, id⟩
  | cons a rest ih =>
      obtain ⟨q, lead, between, rfl, same⟩ := quiet_space inTag a.lead_ne a.lead.2
      obtain ⟨v, after, written, stale⟩ := afterValue_readAttr (m := m) between a
      have sameAttr : SameTag q (q.readAttr m a) :=
        ⟨rfl, fun dirty => (dirty.clear m).puts m a.value_nul⟩
      obtain ⟨r, l', tail, inTag', handed, same'⟩ := ih (InTag.after after)
      refine ⟨r, l', ?_, inTag', ?_, (same.trans sameAttr).trans same'⟩
      · have bytes := (lead.append (quiet_attr between a)).append tail
        simpa only [List.flatMap_cons, AttrSpec.render, List.append_assoc] using bytes
      · exact .cons written (stale ∘ same.dirty)
          (handed.mono (same.trans sameAttr).dirty)

end Attributes

/-! ## Whole items -/

/-- The parser between two items. -/
structure Ready (p : PushParser) : Prop where
  handler : p.rPutc = .txt
  control : p.cr1 = .ini
  stack_eq : p.stack = []
  name_empty : p.r0.bytes = []
  drops : p.g2 = false

/-- The parser waits for an item that is not an end tag.  A reset leaves it so, whatever was in the
register of the name. -/
structure Waiting (p : PushParser) : Prop where
  handler : p.rPutc = .txt
  control : p.cr1 = .ini
  stack_eq : p.stack = []
  drops : p.g2 = false

theorem Ready.waiting {p : PushParser} (ready : Ready p) : Waiting p :=
  ⟨ready.handler, ready.control, ready.stack_eq, ready.drops⟩

theorem Waiting.reset (m : Memory) (p : PushParser) : Waiting (p.reset m) :=
  ⟨rfl, rfl, rfl, rfl⟩

theorem Ready.init (m : Memory) : Ready (PushParser.init m) :=
  ⟨rfl, rfl, rfl, rfl, rfl⟩

theorem Ready.enterContent (m : Memory) {p : PushParser} (stack_eq : p.stack = []) :
    Ready (p.enterContent m) :=
  ⟨rfl, rfl, stack_eq, XString.bytes_clear m _, rfl⟩

theorem Ready.leaveObject (m : Memory) {p : PushParser} (stack_eq : p.stack = []) :
    Ready (p.leaveObject m) :=
  ⟨rfl, rfl, stack_eq, XString.bytes_clear m _, rfl⟩

/-- The parser that `xobjopen` finds for a tag read from the state `p`. -/
structure TagHead (m : Memory) (p : PushParser) (t : Tag) (q : PushParser) : Prop where
  name : q.r0.cstr m = some t.name.text
  handler : q.rPutc = .tag
  stack_eq : q.stack = []
  /-- Only white space behind the name clears the list. -/
  inherited : t.spaced = false → q.attrs = p.attrs
  own : t.spaced = true → Handed p.r2.Dirty [] t.attrs q.attrs
  dirty : p.r2.Dirty → q.r2.Dirty

/-- The byte that ends a tag, of an empty element or not. -/
def tagEnd (empty : Bool) : Byte :=
  if empty then ch '/' else ch '>'

/-- What follows `xobjopen` on that byte. -/
def enterTag (m : Memory) (empty : Bool) : PushParser → PushParser :=
  if empty then enterClosing m else enterContent m

theorem tagEnd_class :
    ∀ empty, isNameStart (tagEnd empty) = false ∧ isBlank (tagEnd empty) = false := by
  decide

theorem ctxTag_tagEnd (m : Memory) {p : PushParser} (control : p.cr1 = .objOpening)
    (empty : Bool) :
    ctxTag m p (tagEnd empty) = .ok ⟨p, .xobjopen, enterTag m empty, 0⟩ := by
  cases empty <;> simp only [ctxTag, control] <;> rfl

theorem dispatch_tagEnd {m : Memory} {p : PushParser} {l : AttrList} (inTag : InTag m p l)
    (empty : Bool) :
    dispatch m p (tagEnd empty) = .ok ⟨{ p with
      attrs := l, r1 := p.r1.clear m, r2 := p.r2.clear m, cr1 := .objOpening, rPutc := .tag },
      .xobjopen, enterTag m empty, 0⟩ := by
  obtain ⟨notStart, notBlank⟩ := tagEnd_class empty
  cases inTag with
  | between between =>
      rcases between.control with control | control <;>
        simp only [dispatch, between.handler, ctxAttr, control, notStart, notBlank, retToTag,
          Bool.false_eq_true, if_false] <;>
        rw [ctxTag_tagEnd m (by rfl), ok_bind]
  | after after =>
      simp only [dispatch, after.handler, ctxAttr, after.control, notStart, notBlank, retToTag,
        commitAttr_eq after, ok_bind, Bool.false_eq_true, if_false]
      rw [ctxTag_tagEnd m (by rfl), ok_bind]

/-- The bytes of a name behind its bracket. -/
theorem quiet_tagName (m : Memory) {p : PushParser} (waiting : Waiting p) (n : Name) :
    Quiet m p (ch '<' :: n.text)
      { p with r0 := (p.r0.clear m).puts m n.text, cr1 := .objOpening, rPutc := .tag } := by
  have bracket : dispatch m p (ch '<') = .ok (.quiet { p with rPutc := .tag }) := by
    simp only [dispatch, waiting.handler, ctxTxt, if_true]
  have first : dispatch m { p with rPutc := .tag } n.first = .ok (.quiet { p with
      r0 := (p.r0.clear m).putc m n.first, cr1 := .objOpening, rPutc := .tag }) := by
    simp only [dispatch, ctxTag, waiting.control, n.first_ok, if_true]
  exact Quiet.cons bracket (Quiet.cons first (quiet_openName rfl rfl n.rest_ok))

/-- The parser after the first white space of a tag. -/
def PushParser.openAttrs (m : Memory) (p : PushParser) : PushParser :=
  { p.clearPair m with attrs := [], attrFlag := true, rPutc := .attr }

theorem BetweenAttrs.openAttrs (m : Memory) {p : PushParser} (control : p.cr1 = .objOpening)
    (stack_eq : p.stack = []) : BetweenAttrs (p.openAttrs m) :=
  ⟨rfl, .inr control, stack_eq, XString.bytes_clear m _, XString.cbuf_isSome_clear m _⟩

/-- Behind the name, white space is read as it is between attributes. -/
theorem Quiet.of_openAttrs {m : Memory} {p q : PushParser} (handler : p.rPutc = .tag)
    (control : p.cr1 = .objOpening) (stack_eq : p.stack = []) {c : Byte} {bs : List Byte}
    (blank : isBlank c = true) (rest : Quiet m (p.openAttrs m) (c :: bs) q) :
    Quiet m p (c :: bs) q := by
  have opens : dispatch m p c = .ok (.quiet (p.openAttrs m)) := by
    have notName := isNameChar_of_isBlank blank
    obtain ⟨notBracket, notSlash, -⟩ := ne_of_isBlank blank
    simp only [dispatch, handler, ctxTag, control, notName, notBracket, notSlash, blank,
      Bool.false_eq_true, if_false, if_true]
    rfl
  have stays := quiet_between (m := m) (BetweenAttrs.openAttrs m control stack_eq) blank
  intro σ cb u
  have skipped := stays.feed cb u bs
  rw [List.singleton_append, rest σ cb u] at skipped
  have opened := (Quiet.single opens).feed cb u bs
  rw [List.singleton_append, ← skipped] at opened
  exact opened

/-- The first byte behind the name of a spaced tag is white space. -/
theorem Tag.exists_blank {t : Tag} (spaced : t.spaced = true) :
    ∃ c bs, t.attrs.flatMap AttrSpec.render ++ t.trail.1 = c :: bs ∧ isBlank c = true := by
  cases attrs_eq : t.attrs with
  | nil =>
      simp only [Tag.spaced, attrs_eq, List.isEmpty_nil, Bool.not_true, Bool.false_or,
        Bool.not_eq_true', List.isEmpty_eq_false_iff] at spaced
      obtain ⟨c, bs, trail_eq⟩ := List.exists_cons_of_ne_nil spaced
      exact ⟨c, bs, trail_eq, t.trail.2 c (by simp [trail_eq])⟩
  | cons a rest =>
      obtain ⟨c, lead, lead_eq⟩ := List.exists_cons_of_ne_nil a.lead_ne
      have blank : isBlank c = true := a.lead.2 c (by simp [lead_eq])
      rw [List.flatMap_cons, AttrSpec.render, lead_eq]
      exact ⟨c, _, rfl, blank⟩

/-- A tag up to the byte that ends it: the parser then calls `xobjopen`. -/
theorem quiet_tag (m : Memory) {p : PushParser} (waiting : Waiting p) (t : Tag) :
    ∃ q r, Quiet m p t.render q ∧ TagHead m p t r ∧
      ∀ empty, dispatch m q (tagEnd empty) = .ok ⟨r, .xobjopen, enterTag m empty, 0⟩ := by
  let named : PushParser :=
    { p with r0 := (p.r0.clear m).puts m t.name.text, cr1 := .objOpening, rPutc := .tag }
  have name : Quiet m p (ch '<' :: t.name.text) named := quiet_tagName m waiting t.name
  have read : named.r0.cstr m = some t.name.text :=
    XString.cstr_puts m (XString.bytes_clear m _) (by simp [Name.text]) t.name.zero_notMem_text
  cases spaced : t.spaced with
  | false =>
      simp only [Tag.spaced, Bool.or_eq_false_iff, Bool.not_eq_false', List.isEmpty_iff] at spaced
      refine ⟨named, named, ?_, ⟨read, rfl, waiting.stack_eq, fun _ => rfl, fun h => ?_, id⟩, ?_⟩
      · simpa only [Tag.render, spaced.1, spaced.2, List.flatMap_nil, List.append_nil] using name
      · simp [Tag.spaced, spaced] at h
      · exact ctxTag_tagEnd m (p := named) rfl
  | true =>
      have between : BetweenAttrs (named.openAttrs m) :=
        BetweenAttrs.openAttrs m rfl waiting.stack_eq
      obtain ⟨q, l, attrs, inTag, handed, same⟩ := quiet_attrs (InTag.between between) t.attrs
      obtain ⟨r, trail, inTag', same'⟩ :
          ∃ r, Quiet m q t.trail.1 r ∧ InTag m r l ∧ SameTag q r := by
        by_cases empty : t.trail.1 = []
        · exact ⟨q, empty ▸ Quiet.nil, inTag, rfl, id⟩
        · obtain ⟨r, quiet, between', rfl, same'⟩ := quiet_space inTag empty t.trail.2
          exact ⟨r, quiet, .between between', same'⟩
      obtain ⟨c, bs, bytes_eq, blank⟩ := Tag.exists_blank spaced
      have behind := attrs.append trail
      rw [bytes_eq] at behind
      have whole := name.append (Quiet.of_openAttrs (p := named) rfl rfl waiting.stack_eq
        blank behind)
      rw [← bytes_eq, ← List.append_assoc] at whole
      have untouched := same.trans same'
      have dirtyOpen : p.r2.Dirty → (named.openAttrs m).r2.Dirty := fun dirty => dirty.clear m
      refine ⟨r, _, whole, ⟨?_, rfl, ?_, fun h => ?_, fun _ => ?_, ?_⟩, dispatch_tagEnd inTag'⟩
      · change r.r0.cstr m = some t.name.text
        rw [untouched.name]
        exact read
      · exact inTag'.stack_eq
      · rw [spaced] at h
        cases h
      · exact handed.mono dirtyOpen
      · exact fun dirty => (untouched.dirty (dirtyOpen dirty)).clear m

/-- The bracket that ends an end tag, and the tag of an empty element. -/
theorem dispatch_closeBracket (m : Memory) {p : PushParser} (handler : p.rPutc = .tag)
    (control : p.cr1 = .objClosing) :
    dispatch m p (ch '>') = .ok ⟨p, .xobjclose, leaveObject m, 0⟩ := by
  simp only [dispatch, handler, ctxTag, control, if_true]

/-- The end tag of an element, and of an empty element. -/
theorem feed_closeBracket {σ : Type} (cb : Callbacks σ) (m : Memory) {p : PushParser}
    (handler : p.rPutc = .tag) (control : p.cr1 = .objClosing) (u : σ) (rest : List Byte) :
    feed cb m (p, u) (ch '>' :: rest) =
      cb.xobjclose (p.r0.cstr m) (p, u) >>= fun s => feed cb m (s.1.leaveObject m, s.2) rest :=
  feed_of_call cb (dispatch_closeBracket m handler control) u rest

/-- A start tag. -/
theorem feed_startTag (m : Memory) {p : PushParser} (waiting : Waiting p) (t : Tag) :
    ∃ q, TagHead m p t q ∧ ∀ (σ : Type) (cb : Callbacks σ) (u : σ) (rest : List Byte),
      feed cb m (p, u) ((Markup.startTag t).render ++ rest) =
        cb.xobjopen (some t.name.text) (q, u) >>= fun s =>
          feed cb m (s.1.enterContent m, s.2) rest := by
  obtain ⟨before, q, quiet, head, opens⟩ := quiet_tag m waiting t
  refine ⟨q, head, fun σ cb u rest => ?_⟩
  rw [Markup.render, List.append_assoc, quiet.feed cb u, List.singleton_append]
  have called := feed_of_call cb (opens false) u rest
  rw [perform, head.name] at called
  exact called

/-- An empty-element tag up to its last byte. -/
theorem feed_emptyTag (m : Memory) {p : PushParser} (waiting : Waiting p) (t : Tag) :
    ∃ q, TagHead m p t q ∧ ∀ (σ : Type) (cb : Callbacks σ) (u : σ) (rest : List Byte),
      feed cb m (p, u) ((Markup.emptyTag t).render ++ rest) =
        cb.xobjopen (some t.name.text) (q, u) >>= fun s =>
          feed cb m (s.1.enterClosing m, s.2) (ch '>' :: rest) := by
  obtain ⟨before, q, quiet, head, opens⟩ := quiet_tag m waiting t
  refine ⟨q, head, fun σ cb u rest => ?_⟩
  rw [Markup.render, List.append_assoc, quiet.feed cb u, List.cons_append, List.singleton_append]
  have called := feed_of_call cb (opens true) u (ch '>' :: rest)
  rw [perform, head.name] at called
  exact called

/-- The parser at the bracket of an end tag. -/
structure TagFoot (m : Memory) (p : PushParser) (name : Name) (q : PushParser) : Prop where
  name : q.r0.cstr m = some name.text
  handler : q.rPutc = .tag
  control : q.cr1 = .objClosing
  stack_eq : q.stack = []
  attrs : q.attrs = p.attrs
  dirty : p.r2.Dirty → q.r2.Dirty

/-- An end tag up to its bracket. -/
theorem quiet_endTag (m : Memory) {p : PushParser} (ready : Ready p) (name : Name) (trail : Space) :
    ∃ q, Quiet m p (ch '<' :: ch '/' :: name.text ++ trail.1) q ∧ TagFoot m p name q := by
  let q : PushParser := { p.clearPair m with
    r0 := p.r0.puts m name.text, cr1 := .objClosing, rPutc := .tag }
  have bracket : dispatch m p (ch '<') = .ok (.quiet { p with rPutc := .tag }) := by
    simp only [dispatch, ready.handler, ctxTxt, if_true]
  have slash : dispatch m { p with rPutc := .tag } (ch '/') =
      .ok (.quiet { p.clearPair m with cr1 := .objClosing, rPutc := .tag }) := by
    simp only [dispatch, ctxTag, ready.control]
    rfl
  have chars : Quiet m { p.clearPair m with cr1 := .objClosing, rPutc := .tag } name.text q :=
    quiet_closeName rfl rfl fun c member => name.isNameChar_of_mem_text member
  have blanks : Quiet m q trail.1 q := by
    refine Quiet.stay fun c member => Quiet.reject ?_
    have blank := trail.2 c member
    have notName := isNameChar_of_isBlank blank
    obtain ⟨notBracket, -⟩ := ne_of_isBlank blank
    simp only [q, dispatch, ctxTag, notName, notBracket, Bool.false_eq_true, if_false]
  have read : q.r0.cstr m = some name.text :=
    XString.cstr_puts m ready.name_empty (by simp [Name.text]) name.zero_notMem_text
  exact ⟨q, (Quiet.cons bracket (Quiet.cons slash chars)).append blanks,
    ⟨read, rfl, rfl, ready.stack_eq, rfl, fun dirty => dirty.clear m⟩⟩

/-- An end tag. -/
theorem feed_endTag (m : Memory) {p : PushParser} (ready : Ready p) (name : Name) (trail : Space) :
    ∃ q : PushParser, TagFoot m p name q ∧
      ∀ (σ : Type) (cb : Callbacks σ) (u : σ) (rest : List Byte),
        feed cb m (p, u) ((Markup.endTag name trail).render ++ rest) =
          cb.xobjclose (some name.text) (q, u) >>= fun s =>
            feed cb m (s.1.leaveObject m, s.2) rest := by
  obtain ⟨q, quiet, foot⟩ := quiet_endTag m ready name trail
  refine ⟨q, foot, fun σ cb u rest => ?_⟩
  rw [Markup.render, List.append_assoc, quiet.feed cb u, List.singleton_append,
    feed_closeBracket cb m foot.handler foot.control u rest, foot.name]

/-- A byte of text. -/
theorem feed_textByte {σ : Type} (cb : Callbacks σ) (m : Memory) {p : PushParser}
    (handler : p.rPutc = .txt) {c : Byte} (noBracket : c ≠ ch '<') (u : σ) (rest : List Byte) :
    feed cb m (p, u) (c :: rest) = cb.xputchar c (p, u) >>= fun s => feed cb m s rest := by
  have step : dispatch m p c = .ok ⟨p, .xputchar c, id, 0⟩ := by
    simp only [dispatch, handler, ctxTxt, noBracket, if_false]
  exact feed_of_call cb step u rest

/-- A processing instruction. -/
theorem quiet_instruction (m : Memory) {p : PushParser} (waiting : Waiting p) {bs : List Byte}
    (noMark : ch '?' ∉ bs) :
    ∃ q, Quiet m p (Markup.instruction bs noMark).render q ∧ Ready q ∧ q.attrs = p.attrs ∧
      q.r2 = p.r2 := by
  let q : PushParser := { p with r0 := p.r0.clear m, g1 := ch '?' }
  refine ⟨q, ?_, ⟨waiting.handler, waiting.control, waiting.stack_eq, XString.bytes_clear m _,
    waiting.drops⟩, rfl, rfl⟩
  have bracket : dispatch m p (ch '<') = .ok (.quiet { p with rPutc := .tag }) := by
    simp only [dispatch, waiting.handler, ctxTxt, if_true]
  let skipping : PushParser := { p with g1 := ch '?', rPutc := .idle, stack := [.tag] }
  have mark : dispatch m { p with rPutc := .tag } (ch '?') = .ok (.quiet skipping) := by
    simp only [skipping, dispatch, ctxTag, waiting.control]
    rw [if_neg (by decide), if_pos trivial, push_of_nil .tag (by exact waiting.stack_eq), ok_bind]
  have body : Quiet m skipping bs skipping := quiet_skip rfl waiting.drops noMark
  have endMark : dispatch m skipping (ch '?') =
      .ok (.quiet { p with g1 := ch '?', rPutc := .tag, stack := [] }) := by
    simp only [skipping, dispatch, ctxIdle, isTerminator]
    rw [if_pos (by decide), @pop_of_cons _ .tag [] rfl, ok_bind]
  have endBracket : dispatch m { p with g1 := ch '?', rPutc := .tag, stack := [] } (ch '>') =
      .ok (.quiet q) := by
    simp only [q, dispatch, ctxTag, waiting.control, waiting.handler, waiting.stack_eq]
    rfl
  have whole := (Quiet.cons bracket (Quiet.cons mark body)).append
    (Quiet.cons endMark (Quiet.single endBracket))
  exact whole

end Xwbot.Parser
