import Xwbot.Parser.Reading

/-!
# The calls for a stream of markup

A recording user sees one call for each tag, two for an empty element and one
for each byte of text.  The attribute lists in these calls are described by
`Handed`; everything else in them is what the stream says.
-/

namespace Xwbot.Parser

open PushParser

/-- A call without its attribute list. -/
def Event.bare : Event → Event
  | .xobjopen name _ => .xobjopen name []
  | event => event

/-- The calls that an item stands for, without attribute lists. -/
def Markup.calls : Markup → List Event
  | .text bs _ => bs.map .xputchar
  | .startTag t => [.xobjopen (some t.name.text) []]
  | .emptyTag t => [.xobjopen (some t.name.text) [], .xobjclose (some t.name.text)]
  | .endTag name _ => [.xobjclose (some name.text)]
  | .instruction _ _ => []

/-- The name and the attribute list of each `xobjopen`. -/
def opens : List Event → List (Option Text × AttrList)
  | [] => []
  | .xobjopen name attrs :: rest => (name, attrs) :: opens rest
  | _ :: rest => opens rest

theorem opens_append (first second : List Event) :
    opens (first ++ second) = opens first ++ opens second := by
  induction first with
  | nil => rfl
  | cons event rest ih => cases event <;> simp [opens, ih]

/-- The lists handed out for a sequence of tags, from the list `l` to `l'`.  A tag
without white space gets the list of the tag before it. -/
inductive Opened (dirty : Prop) :
    AttrList → List Tag → List (Option Text × AttrList) → AttrList → Prop where
  | nil (l : AttrList) : Opened dirty l [] [] l
  | cons {l l' l'' : AttrList} {t : Tag} {ts : List Tag} {es : List (Option Text × AttrList)}
      (inherited : t.spaced = false → l' = l)
      (own : t.spaced = true → Handed dirty [] t.attrs l')
      (tail : Opened dirty l' ts es l'') :
      Opened dirty l (t :: ts) ((some t.name.text, l') :: es) l''

theorem Opened.mono {dirty dirty' : Prop} (weaker : dirty' → dirty) {l l' : AttrList}
    {ts : List Tag} {es : List (Option Text × AttrList)} (opened : Opened dirty l ts es l') :
    Opened dirty' l ts es l' := by
  induction opened with
  | nil => exact .nil _
  | cons inherited own _ ih =>
      exact .cons inherited (fun spaced => (own spaced).mono weaker) ih

theorem Opened.append {dirty : Prop} {l l' l'' : AttrList} {ts ts' : List Tag}
    {es es' : List (Option Text × AttrList)} (first : Opened dirty l ts es l')
    (second : Opened dirty l' ts' es' l'') : Opened dirty l (ts ++ ts') (es ++ es') l'' := by
  induction first with
  | nil => exact second
  | cons inherited own _ ih => exact .cons inherited own (ih second)

/-- What a recording user sees between the states `p` and `q`. -/
structure Recorded (doc : List Markup) (p q : PushParser) (events : List Event) : Prop where
  ready : Ready q
  bare : events.map Event.bare = doc.flatMap Markup.calls
  opened : Opened p.r2.Dirty p.attrs (openings doc) (opens events) q.attrs
  dirty : p.r2.Dirty → q.r2.Dirty

theorem openings_append (first second : List Markup) :
    openings (first ++ second) = openings first ++ openings second := by
  induction first with
  | nil => rfl
  | cons item rest ih => cases item <;> simp [openings, ih]

theorem Recorded.append {first second : List Markup} {p q r : PushParser}
    {events events' : List Event} (before : Recorded first p q events)
    (after : Recorded second q r events') :
    Recorded (first ++ second) p r (events ++ events') where
  ready := after.ready
  bare := by rw [List.map_append, before.bare, after.bare, List.flatMap_append]
  opened := by
    rw [openings_append, opens_append]
    exact before.opened.append (after.opened.mono before.dirty)
  dirty := after.dirty ∘ before.dirty

/-- The text bytes of a stream are passed on one by one. -/
theorem feed_text (m : Memory) {p : PushParser} (handler : p.rPutc = .txt) (events : List Event)
    {bs : List Byte} (noBracket : ch '<' ∉ bs) (rest : List Byte) :
    feed recorder.callbacks m (p, events) (bs ++ rest) =
      feed recorder.callbacks m (p, events ++ bs.map .xputchar) rest := by
  induction bs generalizing events with
  | nil => simp
  | cons c bs ih =>
      rw [List.mem_cons, not_or] at noBracket
      rw [List.cons_append, feed_textByte recorder.callbacks m handler (Ne.symm noBracket.1)]
      change feed recorder.callbacks m (p, events ++ [.xputchar c]) (bs ++ rest) = _
      rw [ih _ noBracket.2, List.map_cons, List.append_assoc, List.singleton_append]

/-- **Spec of an item.** -/
theorem feed_item (m : Memory) {p : PushParser} (ready : Ready p) (item : Markup) :
    ∃ q events, Recorded [item] p q events ∧ ∀ before rest,
      feed recorder.callbacks m (p, before) (item.render ++ rest) =
        feed recorder.callbacks m (q, before ++ events) rest := by
  cases item with
  | text bs noBracket =>
      refine ⟨p, bs.map .xputchar, ⟨ready, ?_, ?_, id⟩, fun before rest =>
        feed_text m ready.handler before noBracket rest⟩
      · simp [Markup.calls, Event.bare]
      · have none : opens (bs.map .xputchar) = [] := by
          induction bs with
          | nil => rfl
          | cons c bs ih => exact ih fun member => noBracket (List.mem_cons_of_mem c member)
        rw [none]
        exact .nil _
  | startTag t =>
      obtain ⟨q, head, step⟩ := feed_startTag m ready.waiting t
      refine ⟨q.enterContent m, [.xobjopen (some t.name.text) q.attrs],
        ⟨Ready.enterContent m head.stack_eq, rfl, .cons head.inherited head.own (.nil _),
          fun dirty => (head.dirty dirty).clear m⟩, fun before rest => ?_⟩
      rw [step _ recorder.callbacks before rest]
      rfl
  | emptyTag t =>
      obtain ⟨q, head, step⟩ := feed_emptyTag m ready.waiting t
      refine ⟨(q.enterClosing m).leaveObject m,
        [.xobjopen (some t.name.text) q.attrs, .xobjclose (some t.name.text)],
        ⟨Ready.leaveObject m head.stack_eq, rfl, .cons head.inherited head.own (.nil _),
          fun dirty => ((head.dirty dirty).clear m).clear m⟩, fun before rest => ?_⟩
      rw [step _ recorder.callbacks before rest]
      have closed := feed_closeBracket recorder.callbacks m (p := q.enterClosing m) head.handler
        rfl (before ++ [.xobjopen (some t.name.text) q.attrs]) rest
      rw [show (q.enterClosing m).r0.cstr m = some t.name.text from head.name] at closed
      change feed recorder.callbacks m
        (q.enterClosing m, before ++ [.xobjopen (some t.name.text) q.attrs]) (ch '>' :: rest) = _
      rw [closed]
      change feed recorder.callbacks m ((q.enterClosing m).leaveObject m,
        before ++ [.xobjopen (some t.name.text) q.attrs] ++
          [.xobjclose (some t.name.text)]) rest = _
      rw [List.append_assoc, List.singleton_append]
  | endTag name trail =>
      obtain ⟨q, foot, step⟩ := feed_endTag m ready name trail
      refine ⟨q.leaveObject m, [.xobjclose (some name.text)],
        ⟨Ready.leaveObject m foot.stack_eq, rfl, ?_, fun h => (foot.dirty h).clear m⟩,
        fun before rest => ?_⟩
      · change Opened _ p.attrs [] [] q.attrs
        rw [foot.attrs]
        exact .nil _
      · rw [step _ recorder.callbacks before rest]
        rfl
  | instruction bs noMark =>
      obtain ⟨q, quiet, ready', attrs_eq, r2_eq⟩ := quiet_instruction m ready.waiting noMark
      refine ⟨q, [], ⟨ready', rfl, ?_, fun dirty => r2_eq ▸ dirty⟩, fun before rest => ?_⟩
      · change Opened _ p.attrs [] [] q.attrs
        rw [attrs_eq]
        exact .nil _
      · rw [quiet.feed recorder.callbacks before rest, List.append_nil]

/-- **Spec of a stream.** -/
theorem feed_render (m : Memory) {p : PushParser} (ready : Ready p) (doc : List Markup)
    (before : List Event) :
    ∃ q events, Recorded doc p q events ∧
      feed recorder.callbacks m (p, before) (render doc) = .ok (q, before ++ events) := by
  induction doc generalizing p before with
  | nil => exact ⟨p, [], ⟨ready, rfl, .nil _, id⟩, by rw [List.append_nil]; rfl⟩
  | cons item rest ih =>
      obtain ⟨q, events, recorded, step⟩ := feed_item m ready item
      obtain ⟨r, events', recorded', run⟩ := ih recorded.ready (before ++ events)
      refine ⟨r, events ++ events', recorded.append recorded', ?_⟩
      rw [render_cons, step before, run, List.append_assoc]

end Xwbot.Parser
