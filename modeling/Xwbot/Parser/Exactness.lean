import Xwbot.Parser.Recording

/-!
# When the attribute lists are exact

The list that `xobjopen` gets for an element is the one its tag has written,
provided that the key phase drops no byte of a name, that no value is empty, and
that a tag without white space does not follow one that left a list behind.
Without the last two the registers show what earlier tags, or the allocator, put
there.
-/

namespace Xwbot.Parser

/-- A stream of markup in which no tag repeats an attribute name. -/
structure Stream where
  items : List Markup
  distinct : ∀ t ∈ openings items, (t.attrs.map fun a => a.name.text).Nodup

/-- The parser hands out, for each tag, the name and exactly the pairs written in it. -/
def AttrsExact (m : Memory) (doc : List Markup) : Prop :=
  ∃ s, feed recorder.callbacks m (PushParser.init m, []) (render doc) = .ok s ∧
    List.Forall₂ (fun (t : Tag) call => call.1 = some t.name.text ∧ call.2.Perm t.pairs)
      (openings doc) (opens s.2)

/-- Attributes that the parser reads as they are written. -/
def Tag.Clean (t : Tag) : Prop :=
  ∀ a ∈ t.attrs, a.name.isKey = true ∧ a.value ≠ []

/-- Every tag is clean, and a tag without white space comes only where the last
tag with white space, if any, has no attributes.  `full` says that it has some. -/
def CleanFrom : Bool → List Tag → Prop
  | _, [] => True
  | full, t :: rest =>
      t.Clean ∧ (t.spaced = false → full = false) ∧
        CleanFrom (if t.spaced then !t.attrs.isEmpty else full) rest

/-! ## What a tag can hand out -/

theorem attrKeys_cons (k v : Text) (l : AttrList) : attrKeys ((k, v) :: l) = k :: attrKeys l :=
  rfl

/-- Clean attributes with distinct names are put in front one after the other. -/
theorem Handed.eq_of_clean {dirty : Prop} {l l' : AttrList} {attrs : List AttrSpec}
    (handed : Handed dirty l attrs l')
    (clean : ∀ a ∈ attrs, a.name.isKey = true ∧ a.value ≠ [])
    (distinct : (attrs.map fun a => a.name.text).Nodup)
    (fresh : ∀ a ∈ attrs, a.name.text ∉ attrKeys l) :
    l' = (attrs.map AttrSpec.pair).reverse ++ l := by
  induction handed with
  | nil => rfl
  | @cons l l' a rest v written _ _ ih =>
      rw [List.forall_mem_cons] at clean fresh
      rw [List.map_cons, List.nodup_cons] at distinct
      have key_eq := Name.key_eq_text clean.1.1
      have set_eq : setattr a.name.key (some v) l = a.pair :: l := by
        rw [key_eq, setattr_of_notMem fresh.1, written clean.1.2]
        rfl
      rw [set_eq] at ih
      rw [ih clean.2 distinct.2 fun b member => ?_, List.map_cons, List.reverse_cons,
        List.append_assoc, List.singleton_append]
      rw [AttrSpec.pair, attrKeys_cons, List.mem_cons, not_or]
      refine ⟨fun same => distinct.1 ?_, fresh.2 b member⟩
      exact same ▸ List.mem_map_of_mem member

/-- No key that is handed out has a byte that the key phase skips. -/
theorem Handed.keys {dirty : Prop} {l l' : AttrList} {attrs : List AttrSpec}
    (handed : Handed dirty l attrs l')
    (plain : ∀ k ∈ attrKeys l, ∀ c ∈ k, isKeyChar c = true) :
    ∀ k ∈ attrKeys l', ∀ c ∈ k, isKeyChar c = true := by
  induction handed with
  | nil => exact plain
  | @cons l l' a rest v _ _ _ ih =>
      refine ih fun k member c inside => ?_
      rcases mem_attrKeys_setattr.mp member with rfl | member
      · exact Name.isKeyChar_of_mem_key inside
      · exact plain k member c inside

/-- With a dirty value register no empty value is handed out. -/
theorem Handed.values {l l' : AttrList} {attrs : List AttrSpec}
    (handed : Handed True l attrs l') (nonempty : ∀ pair ∈ l, pair.2 ≠ []) :
    ∀ pair ∈ l', pair.2 ≠ [] := by
  induction handed with
  | nil => exact nonempty
  | @cons l l' a rest v _ stale _ ih =>
      refine ih fun pair member => ?_
      rcases mem_setattr member with rfl | member
      · exact stale trivial
      · exact nonempty pair member

/-! ## Whole streams -/

theorem forall₂_of_cleanFrom {dirty : Prop} {l l' : AttrList} {ts : List Tag}
    {es : List (Option Text × AttrList)} (opened : Opened dirty l ts es l') {full : Bool}
    (clean : CleanFrom full ts) (emptyList : full = false → l = [])
    (distinct : ∀ t ∈ ts, (t.attrs.map fun a => a.name.text).Nodup) :
    List.Forall₂ (fun (t : Tag) call => call.1 = some t.name.text ∧ call.2.Perm t.pairs) ts es := by
  induction opened generalizing full with
  | nil => exact .nil
  | @cons l l' l'' t ts es inherited own tail ih =>
      rw [List.forall_mem_cons] at distinct
      obtain ⟨clean, notFull, cleanRest⟩ := clean
      cases spaced : t.spaced with
      | true =>
          have list_eq := (own spaced).eq_of_clean clean distinct.1 (by simp [attrKeys])
          rw [List.append_nil] at list_eq
          rw [spaced, if_pos rfl] at cleanRest
          refine .cons ⟨rfl, ?_⟩ (ih cleanRest (fun noAttrs => ?_) distinct.2)
          · rw [list_eq]
            exact List.reverse_perm _
          · rw [Bool.not_eq_false', List.isEmpty_iff] at noAttrs
            rw [list_eq, noAttrs]
            rfl
      | false =>
          have list_eq : l' = [] := (inherited spaced).trans (emptyList (notFull spaced))
          have noAttrs := Tag.attrs_eq_nil spaced
          rw [spaced, if_neg Bool.false_ne_true] at cleanRest
          refine .cons ⟨rfl, ?_⟩ (ih cleanRest (fun _ => list_eq) distinct.2)
          rw [list_eq, Tag.pairs, noAttrs]
          exact .nil

theorem cleanFrom_of_forall₂ {l l' : AttrList} {ts : List Tag}
    {es : List (Option Text × AttrList)} (opened : Opened True l ts es l') {full : Bool}
    (fullList : full = true → l ≠ [])
    (holds : List.Forall₂
      (fun (t : Tag) call => call.1 = some t.name.text ∧ call.2.Perm t.pairs) ts es) :
    CleanFrom full ts := by
  induction opened generalizing full with
  | nil => trivial
  | @cons l l' l'' t ts es inherited own tail ih =>
      obtain ⟨⟨-, perm⟩, exactRest⟩ := List.forall₂_cons.mp holds
      cases spaced : t.spaced with
      | true =>
          have handed := own spaced
          refine ⟨fun a member => ?_, fun h => ?_, ?_⟩
          · have pair : a.pair ∈ l' := perm.mem_iff.mpr (List.mem_map_of_mem member)
            refine ⟨List.all_eq_true.mpr fun c inside => ?_, ?_⟩
            · exact handed.keys (by simp [attrKeys]) a.name.text (List.mem_map_of_mem pair) c
                (List.mem_cons_of_mem _ inside)
            · exact handed.values (by simp) a.pair pair
          · rw [spaced] at h
            cases h
          · rw [spaced, if_pos rfl]
            refine ih (fun someAttrs none => ?_) exactRest
            rw [none, List.nil_perm, Tag.pairs, List.map_eq_nil_iff] at perm
            simp [perm] at someAttrs
      | false =>
          have noAttrs := Tag.attrs_eq_nil spaced
          rw [Tag.pairs, noAttrs, List.map_nil, List.perm_nil] at perm
          have list_eq := inherited spaced
          refine ⟨by simp [Tag.Clean, noAttrs], fun _ => ?_, ?_⟩
          · by_contra isFull
            exact fullList (by simpa using isFull) (list_eq ▸ perm)
          · rw [spaced, if_neg Bool.false_ne_true]
            exact ih (fun isFull => list_eq ▸ fullList isFull) exactRest

/-- The value register of a new parser in memory that is not zero. -/
theorem dirty_init {c : Byte} (nonzero : c ≠ 0) : (PushParser.init (.filled c)).r2.Dirty := by
  refine ⟨c, List.replicate 31 c, ?_, nonzero⟩
  rfl

/-- **Exactness of attribute lists.**  Whatever the memory holds, the lists are
exact for precisely the clean streams. -/
theorem attrsExact_iff_cleanFrom (doc : Stream) :
    (∀ m, AttrsExact m doc.items) ↔ CleanFrom false (openings doc.items) := by
  constructor
  · intro holds
    obtain ⟨s, run, pairs⟩ := holds (.filled (ch 'x'))
    obtain ⟨q, events, recorded, run'⟩ :=
      feed_render (.filled (ch 'x')) (Ready.init _) doc.items []
    rw [run, List.nil_append] at run'
    cases run'
    refine cleanFrom_of_forall₂ (recorded.opened.mono fun _ => dirty_init (by decide)) ?_ pairs
    exact fun h => absurd h Bool.false_ne_true
  · intro clean m
    obtain ⟨q, events, recorded, run⟩ := feed_render m (Ready.init m) doc.items []
    exact ⟨(q, events), run, forall₂_of_cleanFrom recorded.opened clean (fun _ => rfl) doc.distinct⟩

/-- The stream `<a b-c='1'></a>`. -/
def hyphenated : Stream where
  items :=
    [.startTag {
        name := ⟨ch 'a', [], by decide, by simp⟩
        attrs := [{
          lead := ⟨[ch ' '], by decide +kernel⟩
          name := ⟨ch 'b', [ch '-', ch 'c'], by decide, by decide +kernel⟩
          before := ⟨[], by simp⟩
          after := ⟨[], by simp⟩
          quote := apos
          value := [ch '1']
          lead_ne := by decide
          quote_ok := by decide
          value_quote := by decide
          value_nul := by decide }]
        trail := ⟨[], by simp⟩ },
      .endTag ⟨ch 'a', [], by decide, by simp⟩ ⟨[], by simp⟩]
  distinct := by simp [openings]

/-- The attribute `b-c` is handed out as `bc`. -/
theorem not_attrsExact_hyphenated : ¬ AttrsExact (.filled 0) hyphenated.items := by
  rintro ⟨s, run, pairs⟩
  have calls : (feed recorder.callbacks (.filled 0) (PushParser.init (.filled 0), [])
      (render hyphenated.items)).map (opens ∘ Prod.snd) =
        .ok [(some [ch 'a'], [([ch 'b', ch 'c'], [ch '1'])])] := by
    rfl
  rw [run] at calls
  have opens_eq : opens s.2 = _ := Except.ok.inj calls
  rw [opens_eq] at pairs
  obtain ⟨⟨-, perm⟩, -⟩ := List.forall₂_cons.mp pairs
  have member := perm.mem_iff.mp List.mem_cons_self
  revert member
  decide

end Xwbot.Parser
