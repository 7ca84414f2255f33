import Xwbot.Bus.Messages

/-!
# Bodies of messages

Between two stanzas there is nothing in a message object that it would write, because `msg_exit`
empties what it has written.  Every element that fits keeps this for the objects behind the stanza,
so that a stanza writes what its own body puts there.
-/

namespace Xwbot.Messages

open Runs

variable {env : Env} {place : Place} {name ns : Text} {attrs : AttrMap} {text : List Byte}
  {w w' w'' : World} {parts before behind inner : List Part} {o o' : Part}

/-! ## What would be written -/

/-- What a message object above these objects would write. -/
def bodyBytes (parts : List Part) : List Byte :=
  ((bodyOf parts).map fun body => body.content.bytes).getD []

@[simp]
theorem bodyBytes_nil : bodyBytes [] = [] :=
  rfl

theorem bodyBytes_cons (x : Part) (rest : List Part) : bodyBytes (x :: rest) =
    if eqnText x.name (lit "body") then x.content.bytes else bodyBytes rest := by
  rw [bodyBytes, bodyOf, List.find?_cons]
  cases eqnText x.name (lit "body") with
  | true => rfl
  | false => rfl

theorem takesBody_nil (o : Part) : takesBody [] o = eqnText o.name (lit "body") :=
  Bool.and_true _

theorem takesBody_cons (x : Part) (before : List Part) (o : Part) : takesBody (x :: before) o =
    (!eqnText x.name (lit "body") && takesBody before o) := by
  rw [takesBody, takesBody, List.all_cons, Bool.and_left_comm]

theorem takesBody_congr (before : List Part) (same : o'.name = o.name) :
    takesBody before o' = takesBody before o := by
  rw [takesBody, takesBody, same]

theorem bodyBytes_of_takes (takes : takesBody before o = true) :
    bodyBytes (before ++ o :: behind) = o.content.bytes := by
  induction before with
  | nil =>
      rw [takesBody_nil] at takes
      rw [List.nil_append, bodyBytes_cons, if_pos takes]
  | cons x before ih =>
      rw [takesBody_cons, Bool.and_eq_true, Bool.not_eq_true'] at takes
      rw [List.cons_append, bodyBytes_cons, takes.1, if_neg Bool.false_ne_true]
      exact ih takes.2

/-- An object that is not looked up may change. -/
theorem bodyBytes_of_passed (passed : takesBody before o = false) (same : o'.name = o.name) :
    bodyBytes (before ++ o' :: behind) = bodyBytes (before ++ o :: behind) := by
  induction before with
  | nil =>
      rw [takesBody_nil] at passed
      rw [List.nil_append, List.nil_append, bodyBytes_cons, bodyBytes_cons, same, passed]
      rfl
  | cons x before ih =>
      rw [List.cons_append, List.cons_append, bodyBytes_cons, bodyBytes_cons]
      cases here : eqnText x.name (lit "body") with
      | true => rfl
      | false =>
          rw [takesBody_cons, here] at passed
          exact ih passed

theorem bodyBytes_rewBody (parts : List Part) : bodyBytes (rewBody parts) = [] := by
  induction parts with
  | nil => rfl
  | cons x rest ih =>
      cases here : eqnText x.name (lit "body") with
      | true =>
          rw [rewBody, if_pos here, bodyBytes_cons, if_pos here]
          exact XString.bytes_rew _
      | false =>
          rw [rewBody, here, if_neg Bool.false_ne_true, bodyBytes_cons, here,
            if_neg Bool.false_ne_true]
          exact ih

/-! ## Opening an element -/

/-- The object was there and is found, or it is new and the last. -/
theorem openPart_cases (opened : openPart name ns attrs parts = .ok (before, o, behind)) :
    (parts = before ++ o :: behind ∧ found parts name attrs o = true) ∨
      (parts = before ∧ o = Part.new name ns ∧ behind = []) := by
  unfold openPart at opened
  split at opened
  · next x rest tail =>
      cases opened
      refine Or.inl ⟨?_, ?_⟩
      · rw [← tail, List.takeWhile_append_dropWhile]
      · have passes := List.head?_dropWhile_not (fun o => !found parts name attrs o) parts
        rw [tail] at passes
        simpa using passes
  · split at opened
    · cases opened
      exact Or.inr ⟨rfl, rfl, rfl⟩
    · cases opened

theorem openPart_of_opens (opens : Opens name ns attrs parts) :
    ∃ before o behind, openPart name ns attrs parts = .ok (before, o, behind) := by
  unfold openPart
  split
  · exact ⟨_, _, _, rfl⟩
  · next none =>
      rcases opens with ⟨o, member, there⟩ | creatable
      · have passed := List.dropWhile_eq_nil_iff.mp none o member
        rw [there] at passed
        cases passed
      · exact ⟨_, _, _, if_pos creatable⟩

/-- A new object has no text. -/
theorem bodyBytes_opened (opened : openPart name ns attrs parts = .ok (before, o, behind)) :
    bodyBytes (before ++ o :: behind) = bodyBytes parts := by
  rcases openPart_cases opened with ⟨rfl, -⟩ | ⟨rfl, rfl, rfl⟩
  · rfl
  · clear opened
    induction parts with
    | nil =>
        rw [List.nil_append, bodyBytes_cons]
        exact ite_self _
    | cons x rest ih =>
        rw [List.cons_append, bodyBytes_cons, bodyBytes_cons, ih]

theorem mem_opened (opened : openPart name ns attrs parts = .ok (before, o, behind)) {x : Part}
    (member : x ∈ before ++ o :: behind) : x ∈ parts ∨ x = Part.new name ns := by
  rcases openPart_cases opened with ⟨rfl, -⟩ | ⟨rfl, rfl, rfl⟩
  · exact Or.inl member
  · rcases List.mem_append.mp member with old | new
    · exact Or.inl old
    · exact Or.inr (List.mem_singleton.mp new)

/-! ## Elements -/

/-- In no message object here there is anything that it would write. -/
inductive Rested : Part → Prop where
  | intro (o : Part) (empty : o.cls = .message → bodyBytes o.sons = [])
      (sons : ∀ x ∈ o.sons, Rested x) : Rested o

theorem Rested.empty (rested : Rested o) : o.cls = .message → bodyBytes o.sons = [] := by
  cases rested with
  | intro o empty sons => exact empty

theorem Rested.sons (rested : Rested o) : ∀ x ∈ o.sons, Rested x := by
  cases rested with
  | intro o empty sons => exact sons

theorem rested_new (name ns : Text) : Rested (Part.new name ns) :=
  .intro _ (fun _ => rfl) fun _ member => absurd member List.not_mem_nil

/-- Nothing is written, and the sessions stay. -/
structure World.Keeps (w w' : World) : Prop where
  written : w'.written = w.written
  sessions : ∀ xcs ∈ w.store.sessions, xcs ∈ w'.store.sessions

theorem World.Keeps.refl (w : World) : w.Keeps w :=
  ⟨rfl, fun _ member => member⟩

theorem World.Keeps.trans (first : w.Keeps w') (second : w'.Keeps w'') : w.Keeps w'' :=
  ⟨second.written.trans first.written,
    fun xcs member => second.sessions xcs (first.sessions xcs member)⟩

/-- The session of an object is one with the sender that the object has an attribute for. -/
def Part.Answers (o : Part) (w : World) : Prop :=
  ∃ addr xcs sender, o.session = some addr ∧ xcs ∈ w.store.sessions ∧ xcs.addr = addr ∧
    o.attrs.get (lit "from") = some sender ∧ eqText xcs.remote sender = true

theorem Part.Answers.mono (answers : o.Answers w)
    (sessions : ∀ xcs ∈ w.store.sessions, xcs ∈ w'.store.sessions) : o.Answers w' := by
  rcases answers with ⟨addr, xcs, sender, session, member, same, attr, remote⟩
  exact ⟨addr, xcs, sender, session, sessions xcs member, same, attr, remote⟩

/-- Without an identifier no session is found. -/
theorem lookup_none (s : Store) (jid : Text) : s.lookup jid none = none := by
  rw [Store.lookup, Option.bind_eq_none_iff]
  intro peer _
  rw [List.find?_eq_none]
  intro xcs _
  exact Bool.false_ne_true

theorem mem_sessions_xSessionOpen (s : Store) (jid random : Text) (fresh : Nat) {xcs : Session}
    (member : xcs ∈ s.sessions) :
    xcs ∈ (s.xSessionOpen jid none true random fresh).1.sessions := by
  simp only [Store.xSessionOpen, lookup_none, if_true]
  exact List.mem_append_left _ member

/-- A session with the peer is created. -/
theorem xSessionOpen_none (s : Store) (jid random : Text) (fresh : Nat) :
    (s.xSessionOpen jid none true random fresh).2 = some fresh ∧
      ∃ xcs ∈ (s.xSessionOpen jid none true random fresh).1.sessions,
        xcs.addr = fresh ∧ xcs.remote = jid := by
  simp only [Store.xSessionOpen, lookup_none, if_true]
  exact ⟨trivial, _, List.mem_append_right _ List.mem_cons_self, rfl, rfl⟩

/-- A message object that is ready gets its attributes and, if it has none yet, a session with its
sender. -/
theorem msgOnAssign_of_ready (cls : o.cls = .message) (ready : Ready env o attrs w) :
    ∃ session w', msgOnAssign env o attrs w =
        .ok ({ o with attrs := o.attrs.assign attrs.cells, session := session }, w') ∧
      w.Keeps w' ∧
      (o.session = none → ({ o with attrs := o.attrs.assign attrs.cells, session := session } :
        Part).Answers w') ∧
      ∀ addr, o.session = some addr → session = some addr := by
  cases session : o.session with
  | some addr =>
      refine ⟨some addr, w, ?_, World.Keeps.refl w, nofun, fun _ same => same⟩
      rw [← session]
      simp only [msgOnAssign, session]
  | none =>
      rcases ready cls session with ⟨transports, jid, attr, hosts⟩
      let opened := w.store.xSessionOpen jid none true (env.random w.top) w.top
      rcases xSessionOpen_none w.store jid (env.random w.top) w.top with
        ⟨fresh, xcs, member, addr, remote⟩
      refine ⟨opened.2, { w with store := opened.1, top := w.top + 1 }, ?_, ⟨rfl, ?_⟩, fun _ => ?_,
        nofun⟩
      · simp only [msgOnAssign, session, Option.mem_def.mp attr, if_pos hosts, transports, if_true]
        rfl
      · intro xcs member
        exact mem_sessions_xSessionOpen _ _ _ _ member
      · exact ⟨w.top, xcs, jid, fresh, member, addr, attr, remote ▸ eqText_refl jid⟩

/-- Attributes change nothing but themselves and, once, the session. -/
theorem onAssign_of_ready (ready : Ready env o attrs w) :
    ∃ session w', onAssign env o attrs w =
        .ok ({ o with attrs := o.attrs.assign attrs.cells, session := session }, w') ∧
      w.Keeps w' := by
  cases cls : o.cls with
  | message =>
      rw [onAssign, cls]
      rcases msgOnAssign_of_ready cls ready with ⟨session, w', result, keeps, -⟩
      exact ⟨session, w', result, keeps⟩
  | body =>
      rw [onAssign, cls]
      exact ⟨o.session, w, rfl, World.Keeps.refl w⟩
  | proto =>
      rw [onAssign, cls]
      exact ⟨o.session, w, rfl, World.Keeps.refl w⟩

/-- An object in which there is nothing to write loses the focus without a trace. -/
theorem lostFocus_of_empty (w : World) (empty : o.cls = .message → bodyBytes o.sons = []) :
    lostFocus o w = (o, w) := by
  cases cls : o.cls with
  | body => rw [lostFocus, cls]
  | proto => rw [lostFocus, cls]
  | message =>
      rw [lostFocus, cls]
      have nothing := empty cls
      rw [bodyBytes] at nothing
      simp only [msgExit]
      split
      · next body iosession found _ =>
          rw [found, Option.map_some, Option.getD_some] at nothing
          have none : body.content.pos = 0 := by
            rw [← XString.length_bytes, nothing, List.length_nil]
          rw [if_neg (not_not.mpr none)]
      · rfl

/-- What the elements of a place do to the text that would be written there. -/
def Place.Gains (els : Elements) (parts parts' : List Part) : Place → Prop
  | .stanza => bodyBytes parts' = bodyBytes parts ++ bodyText els
  | .message => bodyBytes parts' = bodyBytes parts
  | .other => True

theorem Place.gains_nil (place : Place) (parts : List Part) : place.Gains .nil parts parts := by
  cases place with
  | stanza => exact (List.append_nil _).symm
  | message => exact rfl
  | other => trivial

/-- An element whose text is allowed adds it if it is a body, and what comes behind adds to that. -/
theorem Place.Allows.gains {sons siblings : Elements} {parts' : List Part}
    (allows : place.Allows name ns text before o)
    (opened : openPart name ns attrs parts = .ok (before, o, behind)) (o' : Part)
    (same : o'.name = o.name)
    (content : o'.content = o.content.puts env.m text)
    (later : place.Gains siblings (before ++ o' :: behind) parts') :
    place.Gains (.node name ns attrs text sons siblings) parts parts' := by
  have took : takesBody before o = true →
      bodyBytes (before ++ o' :: behind) = bodyBytes parts ++ text := by
    intro takes
    rw [← bodyBytes_opened opened, bodyBytes_of_takes takes,
      bodyBytes_of_takes ((takesBody_congr before same).trans takes), content, XString.bytes_puts]
  have passed : takesBody before o = false →
      bodyBytes (before ++ o' :: behind) = bodyBytes parts := by
    intro passed
    rw [← bodyBytes_opened opened, bodyBytes_of_passed passed same]
  cases place with
  | other => trivial
  | message =>
      refine Eq.trans later ?_
      cases takes : takesBody before o with
      | false => exact passed takes
      | true =>
          rw [took takes]
          by_cases empty : text = []
          · rw [empty, List.append_nil]
          · cases takes.symm.trans (allows empty)
  | stanza =>
      refine Eq.trans later ?_
      rw [bodyText, ← List.append_assoc]
      congr 1
      by_cases empty : text = []
      · subst empty
        rw [ite_self, List.append_nil]
        cases takes : takesBody before o with
        | false => exact passed takes
        | true => exact (took takes).trans (List.append_nil _)
      · by_cases body : IsBody name ns
        · rw [if_pos body]
          exact took ((allows empty).mp body)
        · rw [if_neg body, List.append_nil]
          apply passed
          rw [← Bool.not_eq_true]
          exact fun takes => body ((allows empty).mpr takes)

theorem openElements_node {sons siblings : Elements}
    (opened : openPart name ns attrs parts = .ok (before, o, behind))
    (assigned : onAssign env o attrs w = .ok (o', w'))
    (inside : openElements env sons w' o'.sons = .ok (w'', inner))
    (same : eqText name o'.name = true) :
    openElements env (.node name ns attrs text sons siblings) w parts =
      openElements env siblings
        (lostFocus { o' with content := o'.content.puts env.m text, sons := inner } w'').2
        (before ++
          (lostFocus { o' with content := o'.content.puts env.m text, sons := inner } w'').1 ::
            behind) := by
  rw [openElements, opened, ok_bind]
  dsimp only
  rw [assigned, ok_bind, inside, ok_bind]
  exact if_pos same

/-- **Elements that fit** write nothing by themselves and leave nothing behind that a message object
inside them would write. -/
theorem openElements_of_fits (els : Elements) (fits : Fits env place els w parts)
    (rested : ∀ x ∈ parts, Rested x) : ∃ w' parts', openElements env els w parts =
      .ok (w', parts') ∧
      (∀ x ∈ parts', Rested x) ∧ w.Keeps w' ∧ place.Gains els parts parts' := by
  induction els generalizing place w parts with
  | nil => exact ⟨w, parts, rfl, rested, World.Keeps.refl w, place.gains_nil parts⟩
  | node name ns attrs text sons siblings ihSons ihSiblings =>
      rw [Fits] at fits
      rcases fits with ⟨opens, fits⟩
      rcases openPart_of_opens opens with ⟨before, o, behind, opened⟩
      rcases fits before o behind opened with ⟨allows, same, ready, later⟩
      have around : ∀ x ∈ before ++ o :: behind, Rested x := by
        intro x member
        rcases mem_opened opened member with old | new
        · exact rested x old
        · exact new ▸ rested_new name ns
      have here := around o (List.mem_append_right _ List.mem_cons_self)
      rcases onAssign_of_ready ready with ⟨session, w₁, assigned, keeps₁⟩
      rcases later _ _ assigned with ⟨fitsInside, behindInside⟩
      rcases ihSons fitsInside here.sons with ⟨w₂, inner, inside, restedInner, keeps₂, gains⟩
      -- a message object in here is as empty at its end as it was
      have empty : o.cls = .message → bodyBytes inner = [] := by
        intro cls
        have place : Place.inside
            { o with attrs := o.attrs.assign attrs.cells, session := session } = .message := by
          have cls' : ({ o with attrs := o.attrs.assign attrs.cells, session := session } :
              Part).cls = .message :=
            cls
          rw [Place.inside, cls']
        rw [place] at gains
        exact gains.trans (here.empty cls)
      have closed := lostFocus_of_empty (o := { o with
        attrs := o.attrs.assign attrs.cells, session := session,
        content := o.content.puts env.m text, sons := inner }) w₂ empty
      have fitsBehind := behindInside w₂ inner inside
      dsimp only at fitsBehind
      rw [closed] at fitsBehind
      have restedAround : ∀ x ∈ before ++ { o with
          attrs := o.attrs.assign attrs.cells, session := session,
          content := o.content.puts env.m text, sons := inner } :: behind, Rested x := by
        intro x member
        rcases List.mem_append.mp member with front | rest
        · exact around x (List.mem_append_left _ front)
        · rcases List.mem_cons.mp rest with rfl | back
          · exact .intro _ empty restedInner
          · exact around x (List.mem_append_right _ (List.mem_cons_of_mem _ back))
      rcases ihSiblings fitsBehind restedAround with ⟨w₃, parts', result, rested', keeps₃, gains'⟩
      refine ⟨w₃, parts', ?_, rested', (keeps₁.trans keeps₂).trans keeps₃, ?_⟩
      · rw [openElements_node opened assigned inside same, closed]
        exact result
      · exact allows.gains opened { o with
          attrs := o.attrs.assign attrs.cells, session := session,
          content := o.content.puts env.m text, sons := inner } rfl rfl gains'

/-! ## Stanzas -/

/-- The objects below the stream between two stanzas: a message object has a session with the
sender it stands for, and would write nothing. -/
def Kept (s : State) : Prop :=
  ∀ o ∈ s.sons, o.cls = .proto ∨
    eqText (lit "message") o.name = true ∧ o.cls = .message ∧ Rested o ∧ o.Answers s.world

variable {s s' : State} {a : Stanza} {l : List Stanza}

/-- The object of a stanza is new, or one that answers the same sender. -/
theorem Kept.opened (kept : Kept s)
    (opened : openPart (lit "message") (lit "jabber:client") a.attrs s.sons =
      .ok (before, o, behind)) :
    eqText (lit "message") o.name = true ∧ o.cls = .message ∧ Rested o ∧
      (o = Part.new (lit "message") (lit "jabber:client") ∨
        o.Answers s.world ∧ msgMatch o a.attrs = true) := by
  rcases openPart_cases opened with ⟨sons, found⟩ | ⟨-, rfl, -⟩
  · rw [Messages.found, Bool.and_eq_true] at found
    have member : o ∈ s.sons := by
      rw [sons]
      exact List.mem_append_right _ List.mem_cons_self
    rcases kept o member with proto | ⟨same, cls, rested, answers⟩
    · rw [objectMatch, proto] at found
      cases found.2
    · rw [objectMatch, cls] at found
      exact ⟨same, cls, rested, Or.inr ⟨answers, found.2⟩⟩
  · exact ⟨eqText_refl _, rfl, rested_new _ _, Or.inl rfl⟩

theorem Kept.around (kept : Kept s)
    (opened : openPart (lit "message") (lit "jabber:client") a.attrs s.sons =
      .ok (before, o, behind))
    {x : Part} (member : x ∈ before ∨ x ∈ behind) : x.cls = .proto ∨
      eqText (lit "message") x.name = true ∧ x.cls = .message ∧ Rested x ∧ x.Answers s.world := by
  apply kept
  rcases openPart_cases opened with ⟨sons, -⟩ | ⟨rfl, -, rfl⟩
  · rw [sons, List.mem_append, List.mem_cons]
    rcases member with front | back
    · exact Or.inl front
    · exact Or.inr (Or.inr back)
  · rcases member with front | back
    · exact front
    · cases back

/-- After the attributes the object of a stanza has a session with its sender. -/
theorem Kept.assigned (kept : Kept s)
    (opened : openPart (lit "message") (lit "jabber:client") a.attrs s.sons =
      .ok (before, o, behind))
    (ready : Ready env o a.attrs w) (same : w.store = s.world.store) :
    ∃ session w', onAssign env o a.attrs w =
        .ok ({ o with attrs := o.attrs.assign a.attrs.cells, session := session }, w') ∧
      w.Keeps w' ∧
      ({ o with attrs := o.attrs.assign a.attrs.cells, session := session } : Part).Answers w' ∧
      (o.attrs.assign a.attrs.cells).get (lit "from") = a.attrs.get (lit "from") := by
  rcases kept.opened opened with ⟨-, cls, -, origin⟩
  rcases msgOnAssign_of_ready cls ready with ⟨session, w', result, keeps, created, old⟩
  rw [onAssign, cls]
  refine ⟨session, w', result, keeps, ?_⟩
  rw [AttrMap.get_assign]
  rcases origin with rfl | ⟨answers, sameSender⟩
  · exact ⟨created rfl, Option.or_none⟩
  · rcases answers with ⟨addr, xcs, sender, has, member, sameAddr, attr, remote⟩
    rw [msgMatch, attr] at sameSender
    cases given : a.attrs.get (lit "from") with
    | none =>
        rw [given] at sameSender
        cases sameSender
    | some from1 =>
        rw [given] at sameSender
        refine ⟨⟨addr, xcs, from1, old addr has, ?_, sameAddr, ?_, ?_⟩, rfl⟩
        · exact keeps.sessions xcs (same ▸ member)
        · change (o.attrs.assign a.attrs.cells).get (lit "from") = _
          rw [AttrMap.get_assign, given]
          rfl
        · exact Store.eqText_trans remote (eqText_symm sameSender)

/-- A message object writes its body and empties it. -/
theorem msgExit_of_body {addr : Nat} (w : World) (nonempty : bodyBytes o.sons ≠ [])
    (session : o.session = some addr) : msgExit o w =
      ({ o with sons := rewBody o.sons },
        { w with written := w.written ++ [(addr, bodyBytes o.sons)] }) := by
  cases found : bodyOf o.sons with
  | none =>
      rw [bodyBytes, found] at nonempty
      exact absurd rfl nonempty
  | some body =>
      rw [bodyBytes, found, Option.map_some, Option.getD_some] at nonempty ⊢
      have some : body.content.pos ≠ 0 := by
        intro zero
        apply nonempty
        rw [← List.length_eq_zero_iff, XString.length_bytes, zero]
      simp only [msgExit, found, session, if_pos some]

theorem rested_rewBody (rested : ∀ x ∈ parts, Rested x) : ∀ x ∈ rewBody parts, Rested x := by
  induction parts with
  | nil => exact rested
  | cons x rest ih =>
      have later := fun y (member : y ∈ rest) => rested y (List.mem_cons_of_mem x member)
      have here := rested x List.mem_cons_self
      intro y member
      rw [rewBody] at member
      split at member
      · rcases List.mem_cons.mp member with rfl | back
        · exact .intro _ here.empty here.sons
        · exact later y back
      · rcases List.mem_cons.mp member with rfl | back
        · exact here
        · exact ih later y back

/-- The end of a stanza writes what is in its body, if there is something, and leaves nothing. -/
theorem lostFocus_of_answers (w : World) (cls : o.cls = .message) (answers : o.Answers w)
    (rested : ∀ x ∈ o.sons, Rested x) : ∃ o' written, lostFocus o w =
        (o', { w with written := w.written ++ written }) ∧
      o'.name = o.name ∧ o'.cls = .message ∧ Rested o' ∧ o'.Answers w ∧
      if bodyBytes o.sons = [] then written = []
      else ∃ addr, o.session = some addr ∧ written = [(addr, bodyBytes o.sons)] := by
  by_cases empty : bodyBytes o.sons = []
  · refine ⟨o, [], ?_, rfl, cls, .intro o (fun _ => empty) rested, answers, ?_⟩
    · rw [lostFocus_of_empty w fun _ => empty, List.append_nil]
    · rw [if_pos empty]
  · rcases answers with ⟨addr, xcs, sender, session, rest⟩
    refine ⟨{ o with sons := rewBody o.sons }, [(addr, bodyBytes o.sons)], ?_, rfl, cls, ?_,
      ⟨addr, xcs, sender, session, rest⟩, ?_⟩
    · rw [lostFocus, cls]
      exact msgExit_of_body w empty session
    · exact .intro _ (fun _ => bodyBytes_rewBody o.sons) (rested_rewBody rested)
    · rw [if_neg empty]
      exact ⟨addr, session, rfl⟩

/-- **One stanza** that is apart from the others is delivered, and leaves nothing behind. -/
theorem Kept.step (kept : Kept s) (apart : Apart env s a) :
    Delivered env s a ∧ ∀ s', step env s a = .ok s' → Kept s' := by
  rcases openPart_of_opens (Or.inr (by decide) :
    Opens (lit "message") (lit "jabber:client") a.attrs s.sons) with ⟨before, o, behind, opened⟩
  rcases apart before o behind opened with ⟨ready, fits⟩
  rcases kept.opened opened with ⟨same, cls, rested, -⟩
  rcases kept.assigned (w := { s.world with written := [] }) opened ready rfl with
    ⟨session, w₁, assigned, keeps₁, answers₁, sender⟩
  rcases openElements_of_fits a.sons (fits _ _ assigned) rested.sons with
    ⟨w₂, inner, inside, restedInner, keeps₂, gains⟩
  have text : bodyBytes inner = bodyText a.sons := by
    rw [Place.Gains, rested.empty cls, List.nil_append] at gains
    exact gains
  rcases lostFocus_of_answers (o := { o with
      attrs := o.attrs.assign a.attrs.cells, session := session,
      content := o.content.puts env.m a.text, sons := inner }) w₂ cls
      (answers₁.mono keeps₂.sessions) restedInner with
    ⟨o', written, closed, name, cls', rested', answers', writes⟩
  have result : Messages.step env s a = .ok ⟨before ++ o' :: behind,
      { w₂ with written := w₂.written ++ written }⟩ := by
    rw [Messages.step, openElements_node opened assigned inside same, closed]
    rfl
  have none : w₂.written = [] :=
    (keeps₁.trans keeps₂).written
  constructor
  · refine ⟨_, result, ?_⟩
    rw [none, List.nil_append]
    rw [text] at writes
    split
    · next empty =>
        rw [if_pos empty] at writes
        exact writes
    · next nonempty =>
        rw [if_neg nonempty] at writes
        rcases writes with ⟨addr, has, rfl⟩
        rcases answers₁ with ⟨addr', xcs, jid, has', member, sameAddr, attr, remote⟩
        cases has.symm.trans has'
        refine ⟨jid, xcs, sender.symm.trans attr, keeps₂.sessions xcs member, remote, ?_⟩
        rw [sameAddr]
  · intro s' next
    cases result.symm.trans next
    intro x member
    have grows : ∀ xcs ∈ s.world.store.sessions, xcs ∈ w₂.store.sessions :=
      fun xcs member => keeps₂.sessions xcs (keeps₁.sessions xcs member)
    rcases List.mem_append.mp member with front | rest
    · rcases kept.around opened (Or.inl front) with proto | ⟨name, cls, rested, answers⟩
      · exact Or.inl proto
      · exact Or.inr ⟨name, cls, rested, answers.mono grows⟩
    · rcases List.mem_cons.mp rest with rfl | back
      · exact Or.inr ⟨name ▸ same, cls', rested', answers'⟩
      · rcases kept.around opened (Or.inr back) with proto | ⟨name, cls, rested, answers⟩
        · exact Or.inl proto
        · exact Or.inr ⟨name, cls, rested, answers.mono grows⟩

/-- **Delivery.**  On a stream below which no stanza was opened, the body of each message is written
once, unmixed and to the session with its sender, as long as each stanza is apart. -/
theorem along_delivered (fresh : ∀ o ∈ s.sons, o.cls = .proto)
    (along : Along (step env) (Apart env) s l) : Along (step env) (Delivered env) s l := by
  refine along.imp Kept ?_ ?_ fun o member => Or.inl (fresh o member)
  · intro s a s' kept apart
    exact (kept.step apart).2 s'
  · intro s a kept apart
    exact (kept.step apart).1

/-- The transports are there, and the allocator clears its memory. -/
def plain : Env :=
  ⟨Memory.filled 0, true, fun _ => lit "1"⟩

/-- A stream below which there is nothing. -/
def begun : State :=
  ⟨[], ⟨Store.empty, 0, []⟩⟩

/-- A message with elements next to each other, each of a name and a text. -/
def message (sender : Text) (els : List (Text × Text)) : Stanza :=
  ⟨AttrMap.empty.set (lit "from") (some sender), [], els.foldr
    (fun el siblings => .node el.1 (lit "jabber:client") .empty el.2 .nil siblings) .nil⟩

/-- Two messages of one sender. -/
theorem along_delivered_two : Along (step plain) (Delivered plain) begun
    [message (lit "a") [(lit "body", lit "x")], message (lit "a") [(lit "body", lit "y")]] := by
  refine along_delivered nofun ?_
  refine ⟨?_, ?_⟩
  · rintro before o behind ⟨⟩
    refine ⟨fun _ _ => by decide +kernel, ?_⟩
    rintro o' w' ⟨⟩
    refine ⟨by decide +kernel, ?_⟩
    rintro before o behind ⟨⟩
    refine ⟨fun _ => by decide +kernel, by decide +kernel, nofun, ?_⟩
    rintro o' w' ⟨⟩
    exact ⟨trivial, fun _ _ _ => trivial⟩
  · rintro s' ⟨⟩
    refine ⟨?_, fun _ _ => trivial⟩
    rintro before o behind ⟨⟩
    refine ⟨fun _ _ => by decide +kernel, ?_⟩
    rintro o' w' ⟨⟩
    refine ⟨by decide +kernel, ?_⟩
    rintro before o behind ⟨⟩
    refine ⟨fun _ => by decide +kernel, by decide +kernel, nofun, ?_⟩
    rintro o' w' ⟨⟩
    exact ⟨trivial, fun _ _ _ => trivial⟩

/-- The first element whose name begins that of the body is taken for it. -/
theorem not_along_delivered_b : ¬Along (step plain) (Delivered plain) begun
    [message (lit "a") [(lit "b", lit "x"), (lit "body", lit "hello")]] := by
  rintro ⟨⟨s', result, delivered⟩, -⟩
  rw [if_neg (by decide +kernel)] at delivered
  rcases delivered with ⟨sender, xcs, -, -, -, written⟩
  have there : (step plain begun (message (lit "a")
      [(lit "b", lit "x"), (lit "body", lit "hello")])).toOption.map
        (fun s => s.world.written.map Prod.snd) = some [lit "x"] := by
    decide +kernel
  rw [result] at there
  have same : [bodyText (message (lit "a") [(lit "b", lit "x"), (lit "body", lit "hello")]).sons] =
      [lit "x"] :=
    (congrArg (List.map Prod.snd) written).symm.trans (Option.some.inj there)
  exact absurd same (by decide +kernel)

end Xwbot.Messages
