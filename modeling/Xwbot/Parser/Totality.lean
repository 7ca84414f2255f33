import Xwbot.Parser.Core

/-!
# Which bytes the push parser survives

The four handlers share one control register and one stack of saved handlers.
`Phase` lists the combinations that can occur; every byte that is not `Stuck`
leads from one of them to another, and a stuck byte ends in `BUG()`.
-/

namespace Xwbot.Parser

variable {σ : Type}

/-! ## One byte with an observer -/

/-- The data of an observer after a call. -/
def Observer.notice (user : Observer σ) (m : Memory) (call : Call) (p : PushParser) (u : σ) : σ :=
  match call with
  | .none => u
  | .xobjopen => user.xobjopen (p.r0.cstr m) p.attrs u
  | .xputchar c => user.xputchar c u
  | .xobjclose => user.xobjclose (p.r0.cstr m) u

theorem perform_observer (user : Observer σ) (m : Memory) (call : Call) (p : PushParser) (u : σ) :
    perform user.callbacks m call (p, u) = .ok (p, user.notice m call p u) := by
  cases call <;> rfl

/-- With an observer a byte fails exactly when its handler does. -/
theorem putChar_observer (user : Observer σ) (m : Memory) (p : PushParser) (u : σ) (c : Byte) :
    putChar user.callbacks m (p, u) c =
      dispatch m p c >>= fun o =>
        .ok (o.resume o.parser, user.notice m o.call o.parser u) := by
  simp only [putChar, perform_observer, ok_bind]

/-! ## The invariant -/

/-- The handlers, control values and stacks that occur together. -/
inductive Phase : Handler → Control → List Handler → Prop where
  | text : Phase .txt .ini []
  | markup : Phase .tag .ini []
  | openName : Phase .tag .objOpening []
  | closeName : Phase .tag .objClosing []
  | attrs {cr1 : Control} (notClosing : cr1 ≠ .objClosing) : Phase .attr cr1 []
  | skip : Phase .idle .ini [.tag]
  | value : Phase .idle .kvLav [.attr]

/-- What holds of the parser between two bytes. -/
structure Inv (p : PushParser) : Prop where
  phase : Phase p.rPutc p.cr1 p.stack
  /-- The key register has a buffer, so `setattr` can read it. -/
  key : p.r1.cbuf.isSome

theorem Inv.init (m : Memory) : Inv (PushParser.init m) :=
  ⟨.text, XString.cbuf_isSome_clear m _⟩

/-- One slot of the stack is in use while bytes are skipped or collected, and
none otherwise. -/
theorem Phase.stack_length {f : Handler} {cr1 : Control} {stack : List Handler}
    (phase : Phase f cr1 stack) : stack.length = if f = .idle then 1 else 0 := by
  cases phase <;> rfl

/-- The bytes that `x_parser_ctx_tag` has a branch for while it reads the name
of an opening tag. -/
def endsOrContinues (c : Byte) : Bool :=
  isNameChar c || c = ch '/' || c = ch '>' || isBlank c

/-- The bytes for which the handlers have no branch but `BUG()`: inside an
opening tag, a byte that neither continues the name, ends the tag nor separates
an attribute, where it is not part of an attribute either. -/
def isStuck (p : PushParser) (c : Byte) : Bool :=
  !endsOrContinues c &&
    match p.rPutc, p.cr1 with
    | .tag, .objOpening => true
    | .attr, .kvKey => false
    | .attr, .kvVal => !isQuote c
    | .attr, .kvWantVal => c ≠ ch '='
    | .attr, _ => true
    | _, _ => false

/-- What a handler may return, and what it keeps.  The callback may edit the
attribute list, and `xobjclose` may also reset the parser. -/
structure Outcome.Keeps (m : Memory) (p : PushParser) (o : Outcome) : Prop where
  ret_eq : o.ret = 0 ∨ o = .reject p
  inv : ∀ attrs, Inv (o.resume { o.parser with attrs := attrs })
  inv_reset : o.call = .xobjclose → Inv (o.resume (o.parser.reset m))

/-- A handler that calls nothing keeps the invariant when its parser has it. -/
theorem Outcome.keeps_quiet (m : Memory) {p q : PushParser} (phase : Phase q.rPutc q.cr1 q.stack)
    (key : q.r1.cbuf.isSome) : (Outcome.quiet q).Keeps m p where
  ret_eq := .inl rfl
  inv _ := ⟨phase, key⟩
  inv_reset called := by cases called

theorem Outcome.keeps_reject (m : Memory) {p : PushParser} (inv : Inv p) :
    (Outcome.reject p).Keeps m p where
  ret_eq := .inr rfl
  inv _ := ⟨inv.phase, inv.key⟩
  inv_reset called := by cases called

/-! ## One byte -/

theorem ctxTxt_keeps (m : Memory) {p : PushParser} (inv : Inv p) (handler : p.rPutc = .txt)
    (c : Byte) : (ctxTxt p c).Keeps m p := by
  obtain ⟨phase, key⟩ := inv
  rw [handler] at phase
  obtain ⟨cr1_eq, stack_eq⟩ : p.cr1 = .ini ∧ p.stack = [] := by
    generalize p.cr1 = cr1, p.stack = stack at phase
    cases phase
    exact ⟨rfl, rfl⟩
  unfold ctxTxt
  split
  · refine Outcome.keeps_quiet m ?_ key
    rw [cr1_eq, stack_eq]
    exact .markup
  · refine ⟨.inl rfl, fun attrs => ⟨?_, key⟩, fun called => by cases called⟩
    change Phase p.rPutc p.cr1 p.stack
    rw [handler, cr1_eq, stack_eq]
    exact .text

theorem endsOrContinues_of_isNameStart {c : Byte} (start : isNameStart c = true) :
    endsOrContinues c = true := by
  simp [endsOrContinues, isNameChar_of_isKeyChar (isKeyChar_of_isNameStart start)]

theorem endsOrContinues_of_isKeyChar {c : Byte} (keyChar : isKeyChar c = true) :
    endsOrContinues c = true := by
  simp [endsOrContinues, isNameChar_of_isKeyChar keyChar]

theorem endsOrContinues_of_isBlank {c : Byte} (blank : isBlank c = true) :
    endsOrContinues c = true := by
  simp [endsOrContinues, blank]

theorem ctxTag_opening (m : Memory) {p : PushParser} (handler : p.rPutc = .tag)
    (control : p.cr1 = .objOpening) (stack_eq : p.stack = []) (key : p.r1.cbuf.isSome) (c : Byte)
    (taken : endsOrContinues c = true) :
    ∃ o, ctxTag m p c = .ok o ∧ o.ret = 0 ∧ o.Keeps m p := by
  simp only [endsOrContinues, Bool.or_eq_true, decide_eq_true_eq] at taken
  simp only [ctxTag, control]
  split
  · refine ⟨_, rfl, rfl, Outcome.keeps_quiet m ?_ key⟩
    rw [handler, stack_eq]
    exact .openName
  split
  · refine ⟨_, rfl, rfl, .inl rfl, fun attrs => ⟨?_, XString.cbuf_isSome_clear m _⟩,
      fun called => by cases called⟩
    change Phase p.rPutc .objClosing p.stack
    rw [handler, stack_eq]
    exact .closeName
  split
  · refine ⟨_, rfl, rfl, .inl rfl, fun attrs => ⟨?_, XString.cbuf_isSome_clear m _⟩,
      fun called => by cases called⟩
    change Phase .txt .ini p.stack
    rw [stack_eq]
    exact .text
  split
  · refine ⟨_, rfl, rfl, Outcome.keeps_quiet m ?_ (XString.cbuf_isSome_clear m _)⟩
    change Phase .attr p.cr1 p.stack
    rw [control, stack_eq]
    exact .attrs (by simp)
  · tauto

theorem ctxTag_bug (m : Memory) {p : PushParser} (control : p.cr1 = .objOpening) (c : Byte)
    (stuck : endsOrContinues c = false) : ctxTag m p c = .error .bug := by
  simp only [endsOrContinues, Bool.or_eq_false_iff, decide_eq_false_iff_not] at stuck
  obtain ⟨⟨⟨nameChar, slash⟩, bracket⟩, blank⟩ := stuck
  simp only [ctxTag, control, nameChar, slash, bracket, blank, Bool.false_eq_true, if_false]

theorem ctxTag_markup (m : Memory) {p : PushParser} (inv : Inv p) (handler : p.rPutc = .tag)
    (control : p.cr1 = .ini) (stack_eq : p.stack = []) (c : Byte) :
    ∃ o, ctxTag m p c = .ok o ∧ o.Keeps m p := by
  simp only [ctxTag, control]
  split
  · refine ⟨_, rfl, Outcome.keeps_quiet m ?_ inv.key⟩
    change Phase p.rPutc .objOpening p.stack
    rw [handler, stack_eq]
    exact .openName
  split
  · rw [PushParser.push_of_nil .tag (by exact stack_eq), ok_bind]
    exact ⟨_, rfl, Outcome.keeps_quiet m .skip inv.key⟩
  split
  · refine ⟨_, rfl, Outcome.keeps_quiet m ?_ inv.key⟩
    change Phase .txt .ini p.stack
    rw [stack_eq]
    exact .text
  split
  · refine ⟨_, rfl, Outcome.keeps_quiet m ?_ (XString.cbuf_isSome_clear m _)⟩
    change Phase p.rPutc .objClosing p.stack
    rw [handler, stack_eq]
    exact .closeName
  · exact ⟨_, rfl, Outcome.keeps_reject m inv⟩

theorem ctxTag_closing (m : Memory) {p : PushParser} (inv : Inv p) (handler : p.rPutc = .tag)
    (control : p.cr1 = .objClosing) (stack_eq : p.stack = []) (c : Byte) :
    ∃ o, ctxTag m p c = .ok o ∧ o.Keeps m p := by
  simp only [ctxTag, control]
  split
  · refine ⟨_, rfl, .inl rfl, fun attrs => ⟨?_, ?_⟩, fun _ => ⟨.text, ?_⟩⟩
    · change Phase .txt .ini p.stack
      rw [stack_eq]
      exact .text
    · exact XString.cbuf_isSome_clear m _
    · exact XString.cbuf_isSome_clear m _
  split
  · refine ⟨_, rfl, Outcome.keeps_quiet m ?_ inv.key⟩
    rw [handler, stack_eq]
    exact .closeName
  · exact ⟨_, rfl, Outcome.keeps_reject m inv⟩

/-- Giving a byte back to the tag handler ends in `BUG()` exactly for the bytes
that handler has no branch for. -/
theorem retToTag_keeps (m : Memory) (p : PushParser) {q : PushParser} (stack_eq : q.stack = [])
    (c : Byte) :
    if endsOrContinues c then ∃ o, retToTag m q c = .ok o ∧ o.Keeps m p
    else retToTag m q c = .error .bug := by
  split
  · next taken =>
      obtain ⟨o, result, -, keeps⟩ :=
        ctxTag_opening m
          (p := { q with
            r1 := q.r1.clear m, r2 := q.r2.clear m, cr1 := .objOpening, rPutc := .tag })
          rfl rfl stack_eq (XString.cbuf_isSome_clear m _) c taken
      exact ⟨{ o with ret := 0 }, by rw [retToTag, result, ok_bind], .inl rfl, keeps.inv,
        keeps.inv_reset⟩
  · next stuck =>
      rw [retToTag, ctxTag_bug m rfl c (by simpa using stuck), error_bind]

theorem ctxIdle_keeps (m : Memory) {p : PushParser} (inv : Inv p) (handler : p.rPutc = .idle)
    (c : Byte) : ∃ o, ctxIdle m p c = .ok o ∧ o.Keeps m p := by
  obtain ⟨phase, key⟩ := inv
  unfold ctxIdle
  split
  · have popped : ∃ f, p.stack = [f] ∧ Phase f p.cr1 [] := by
      rw [handler] at phase
      generalize p.cr1 = cr1, p.stack = stack at phase
      cases phase with
      | skip => exact ⟨_, rfl, .markup⟩
      | value => exact ⟨_, rfl, .attrs (by simp)⟩
    obtain ⟨f, stack_eq, restored⟩ := popped
    rw [PushParser.pop_of_cons stack_eq, ok_bind]
    exact ⟨_, rfl, Outcome.keeps_quiet m restored key⟩
  split
  · exact ⟨_, rfl, Outcome.keeps_quiet m phase key⟩
  · exact ⟨_, rfl, Outcome.keeps_quiet m phase key⟩

theorem commitAttr_eq_ok (m : Memory) {p : PushParser} (key : p.r1.cbuf.isSome) :
    ∃ attrs, commitAttr m p = .ok { p with attrs := attrs } := by
  obtain ⟨block, cbuf_eq⟩ := Option.isSome_iff_exists.mp key
  exact ⟨_, by simp only [commitAttr, XString.cstr, cbuf_eq, Option.map_some]; rfl⟩

theorem dropAttr_eq_ok (m : Memory) {p : PushParser} (key : p.r1.cbuf.isSome) :
    ∃ attrs, dropAttr m p = .ok { p with attrs := attrs } := by
  obtain ⟨block, cbuf_eq⟩ := Option.isSome_iff_exists.mp key
  exact ⟨_, by simp only [dropAttr, XString.cstr, cbuf_eq, Option.map_some]; rfl⟩

/-- The attribute handler reads a key or a value, or gives the byte back. -/
theorem ctxAttr_keeps (m : Memory) {p : PushParser} (inv : Inv p) (handler : p.rPutc = .attr)
    (c : Byte) :
    if isStuck p c then ctxAttr m p c = .error .bug
    else ∃ o, ctxAttr m p c = .ok o ∧ o.Keeps m p := by
  obtain ⟨phase, key⟩ := inv
  rw [handler] at phase
  obtain ⟨notClosing, stack_eq⟩ : p.cr1 ≠ .objClosing ∧ p.stack = [] := by
    generalize p.cr1 = cr1, p.stack = stack at phase
    cases phase with
    | attrs notClosing => exact ⟨notClosing, rfl⟩
  -- a byte that keeps the handler in the attribute context
  have stays {q : PushParser} (handler : q.rPutc = .attr) (notClosing : q.cr1 ≠ .objClosing)
      (stack_eq : q.stack = []) (key : q.r1.cbuf.isSome) : (Outcome.quiet q).Keeps m p := by
    refine Outcome.keeps_quiet m ?_ key
    rw [handler, stack_eq]
    exact .attrs notClosing
  -- a byte that is given back to the tag handler
  have back {q : PushParser} (stack_eq : q.stack = [])
    (stuck_eq : isStuck p c = !endsOrContinues c) :
      if isStuck p c then retToTag m q c = .error .bug
      else ∃ o, retToTag m q c = .ok o ∧ o.Keeps m p := by
    have given := retToTag_keeps m p stack_eq c
    cases taken : endsOrContinues c <;> simpa [stuck_eq, taken] using given
  cases control : p.cr1 with
  | objClosing => exact absurd control notClosing
  | kvKey =>
      simp only [isStuck, handler, control, Bool.and_false, ctxAttr, Bool.false_eq_true, if_false]
      split
      · exact ⟨_, rfl, stays rfl (by simp) stack_eq (XString.cbuf_isSome_putc m _ c)⟩
      split
      · exact ⟨_, rfl, stays rfl (by simp) stack_eq key⟩
      split
      · exact ⟨_, rfl, stays rfl (by simp) stack_eq key⟩
      · exact ⟨_, rfl, stays handler notClosing stack_eq key⟩
  | kvLav =>
      by_cases start : isNameStart c = true
      · have taken := endsOrContinues_of_isNameStart start
        simp only [isStuck, taken, ctxAttr, handler, control, start]
        exact ⟨_, rfl, stays rfl (by simp) stack_eq key⟩
      obtain ⟨attrs, committed⟩ := commitAttr_eq_ok m key
      by_cases blank : isBlank c = true
      · have taken := endsOrContinues_of_isBlank blank
        simp only [isStuck, taken, ctxAttr, handler, control, start, blank, committed]
        exact ⟨_, rfl, stays rfl (by simp) stack_eq (XString.cbuf_isSome_clear m _)⟩
      · have given := back (q := { p with attrs := attrs }) stack_eq
          (by simp [isStuck, handler, control])
        simpa only [ctxAttr, control, start, blank, committed, ok_bind,
          Bool.false_eq_true, if_false]
          using given
  | kvVal =>
      by_cases blank : isBlank c = true
      · have taken := endsOrContinues_of_isBlank blank
        simp only [isStuck, taken, ctxAttr, handler, control, blank]
        exact ⟨_, rfl, stays handler notClosing stack_eq key⟩
      by_cases quoted : isQuote c = true
      · rw [if_neg (by simp [isStuck, handler, control, quoted])]
        simp only [ctxAttr, control, quoted, blank, Bool.false_eq_true, if_false, if_true]
        rw [PushParser.push_of_nil .attr (by exact stack_eq), ok_bind]
        exact ⟨_, rfl, Outcome.keeps_quiet m .value key⟩
      by_cases keyChar : isKeyChar c = true
      · have taken := endsOrContinues_of_isKeyChar keyChar
        simp only [isStuck, taken, ctxAttr, handler, control, quoted, blank, keyChar]
        exact ⟨_, rfl, stays rfl (by simp) stack_eq key⟩
      · have given := back (q := p) stack_eq (by simp [isStuck, handler, control, quoted])
        simpa only [ctxAttr, control, quoted, blank, keyChar, Bool.false_eq_true, if_false]
          using given
  | kvWantVal =>
      by_cases equals : c = ch '='
      · rw [if_neg (by simp [isStuck, handler, control, equals])]
        simp only [ctxAttr, control, equals, if_true]
        exact ⟨_, rfl, stays handler (by simp) stack_eq key⟩
      by_cases blank : isBlank c = true
      · have taken := endsOrContinues_of_isBlank blank
        simp only [isStuck, taken, ctxAttr, handler, control, equals, blank]
        exact ⟨_, rfl, stays handler notClosing stack_eq key⟩
      by_cases start : isNameStart c = true
      · have taken := endsOrContinues_of_isNameStart start
        obtain ⟨attrs, dropped⟩ := dropAttr_eq_ok m key
        simp only [isStuck, taken, ctxAttr, handler, control, equals, blank, start, dropped]
        exact ⟨_, rfl, stays rfl (by simp) stack_eq (XString.cbuf_isSome_putc m _ c)⟩
      · have given := back (q := p) stack_eq
          (by simp only [isStuck, handler, control, ne_eq, equals, not_false_eq_true, decide_true,
            Bool.and_true])
        simpa only [ctxAttr, control, equals, blank, start, Bool.false_eq_true, if_false]
          using given
  | _ =>
      by_cases start : isNameStart c = true
      · have taken := endsOrContinues_of_isNameStart start
        simp only [isStuck, taken, ctxAttr, handler, control, start]
        exact ⟨_, rfl, stays rfl (by simp) stack_eq (XString.cbuf_isSome_putc m _ c)⟩
      by_cases blank : isBlank c = true
      · have taken := endsOrContinues_of_isBlank blank
        simp only [isStuck, taken, ctxAttr, handler, control, start, blank]
        exact ⟨_, rfl, stays handler notClosing stack_eq key⟩
      · have given := back (q := p) stack_eq (by simp [isStuck, handler, control])
        simpa only [ctxAttr, control, start, blank, Bool.false_eq_true, if_false] using given

/-- **Spec of a byte.**  Between two bytes the handler has a branch for exactly
the bytes that are not stuck, and it keeps the invariant. -/
theorem dispatch_keeps (m : Memory) {p : PushParser} (inv : Inv p) (c : Byte) :
    if isStuck p c then dispatch m p c = .error .bug
    else ∃ o, dispatch m p c = .ok o ∧ o.Keeps m p := by
  cases handler : p.rPutc with
  | txt =>
      rw [if_neg (by simp [isStuck, handler]), dispatch, handler]
      exact ⟨_, rfl, ctxTxt_keeps m inv handler c⟩
  | idle =>
      rw [if_neg (by simp [isStuck, handler]), dispatch, handler]
      exact ctxIdle_keeps m inv handler c
  | attr =>
      simp only [dispatch, handler]
      exact ctxAttr_keeps m inv handler c
  | tag =>
      have phase := inv.phase
      rw [handler] at phase
      simp only [dispatch, handler]
      cases control : p.cr1 with
      | objOpening =>
          have stack_eq : p.stack = [] := by
            rw [control] at phase
            generalize p.stack = stack at phase
            cases phase
            rfl
          simp only [isStuck, handler, control, Bool.and_true]
          cases taken : endsOrContinues c with
          | false => exact ctxTag_bug m control c taken
          | true =>
              obtain ⟨o, result, -, keeps⟩ :=
                ctxTag_opening m handler control stack_eq inv.key c taken
              exact ⟨o, result, keeps⟩
      | ini =>
          have stack_eq : p.stack = [] := by
            rw [control] at phase
            generalize p.stack = stack at phase
            cases phase
            rfl
          rw [if_neg (by simp [isStuck, handler, control])]
          exact ctxTag_markup m inv handler control stack_eq c
      | objClosing =>
          have stack_eq : p.stack = [] := by
            rw [control] at phase
            generalize p.stack = stack at phase
            cases phase
            rfl
          rw [if_neg (by simp [isStuck, handler, control])]
          exact ctxTag_closing m inv handler control stack_eq c
      | kvVal | kvLav | kvWantVal | kvKey =>
          rw [control] at phase
          cases phase

/-! ## Whole inputs -/

/-- What the parser promises for a run: it gets past every byte, the stack holds
one handler while bytes are skipped or collected and none otherwise, and a
handler that does not return 0 reports the byte with -1 and does nothing. -/
structure Total (user : Observer σ) (m : Memory) (u : σ) (bs : List Byte) : Prop where
  reaches : ∀ pre, pre <+: bs → ∃ s, feed user.callbacks m (PushParser.init m, u) pre = .ok s ∧
    s.1.stack.length = if s.1.rPutc = .idle then 1 else 0
  reports : ∀ pre c, pre ++ [c] <+: bs → ∀ s,
    feed user.callbacks m (PushParser.init m, u) pre = .ok s →
      ∃ o, dispatch m s.1 c = .ok o ∧ (o.ret = 0 ∨ o = .reject s.1)

/-- No byte of the input arrives when the parser is stuck. -/
def NeverStuck (user : Observer σ) (m : Memory) (u : σ) (bs : List Byte) : Prop :=
  ∀ pre c, pre ++ [c] <+: bs → ∀ s,
    feed user.callbacks m (PushParser.init m, u) pre = .ok s → isStuck s.1 c = false

/-- Whatever the user does, a stuck byte ends the run and any other keeps the
invariant. -/
theorem Inv.putChar (user : Observer σ) (m : Memory) {s : PushParser × σ} (inv : Inv s.1)
    (c : Byte) :
    if isStuck s.1 c then putChar user.callbacks m s c = .error .bug
    else ∃ s', putChar user.callbacks m s c = .ok s' ∧ Inv s'.1 := by
  have spec := dispatch_keeps m inv c
  rw [putChar_observer user m s.1 s.2 c]
  split
  · next stuck =>
      rw [if_pos stuck] at spec
      rw [spec, error_bind]
  · next free =>
      rw [if_neg free] at spec
      obtain ⟨o, result, keeps⟩ := spec
      exact ⟨_, by rw [result, ok_bind], keeps.inv o.parser.attrs⟩

/-- The invariant holds wherever a run gets. -/
theorem Inv.of_feed (user : Observer σ) (m : Memory) (u : σ) (bs : List Byte)
    {s : PushParser × σ} (reached : feed user.callbacks m (PushParser.init m, u) bs = .ok s) :
    Inv s.1 := by
  induction bs using List.reverseRecOn generalizing s with
  | nil =>
      cases reached
      exact Inv.init m
  | append_singleton bs c ih =>
      rw [feed_append, bind_eq_ok_iff] at reached
      obtain ⟨middle, before, step⟩ := reached
      rw [feed_cons, bind_eq_ok_iff] at step
      obtain ⟨s', step, stopped⟩ := step
      cases stopped
      have spec := Inv.putChar user m (ih before) c
      split at spec
      · rw [spec] at step
        cases step
      · obtain ⟨s', result, inv⟩ := spec
        rw [result] at step
        cases step
        exact inv

/-- An input that never gets stuck is read to its end. -/
theorem feed_init_eq_ok (user : Observer σ) (m : Memory) (u : σ) (bs : List Byte)
    (free : NeverStuck user m u bs) :
    ∃ s, feed user.callbacks m (PushParser.init m, u) bs = .ok s := by
  induction bs using List.reverseRecOn with
  | nil => exact ⟨_, rfl⟩
  | append_singleton bs c ih =>
      obtain ⟨s, reached⟩ := ih fun pre c' before =>
        free pre c' (before.trans (List.prefix_append bs [c]))
      have spec := Inv.putChar user m (Inv.of_feed user m u bs reached) c
      rw [if_neg (by simp [free bs c List.prefix_rfl s reached])] at spec
      obtain ⟨s', step, -⟩ := spec
      exact ⟨s', by rw [feed_append, reached, ok_bind, feed_cons, step, ok_bind, feed_nil]⟩

/-- **Totality.**  The parser keeps its promises on exactly the inputs that
never get stuck. -/
theorem total_iff_neverStuck (user : Observer σ) (m : Memory) (u : σ) (bs : List Byte) :
    Total user m u bs ↔ NeverStuck user m u bs := by
  constructor
  · intro total pre c before s reached
    have spec := dispatch_keeps m (Inv.of_feed user m u pre reached) c
    obtain ⟨o, result, -⟩ := total.reports pre c before s reached
    by_contra stuck
    rw [if_pos (by simpa using stuck), result] at spec
    cases spec
  · intro free
    refine ⟨fun pre before => ?_, fun pre c before s reached => ?_⟩
    · obtain ⟨s, reached⟩ := feed_init_eq_ok user m u pre fun pre' c' before' =>
        free pre' c' (before'.trans before)
      exact ⟨s, reached, (Inv.of_feed user m u pre reached).phase.stack_length⟩
    · have spec := dispatch_keeps m (Inv.of_feed user m u pre reached) c
      rw [if_neg (by simp [free pre c before s reached])] at spec
      obtain ⟨o, result, keeps⟩ := spec
      exact ⟨o, result, keeps.ret_eq⟩

/-- A second `<` in a tag is one of the stuck bytes. -/
theorem not_total_second_bracket :
    ¬ Total Observer.silent (.filled 0) () (lit "<a<") := by
  intro total
  obtain ⟨s, reached, -⟩ := total.reaches _ List.prefix_rfl
  have bug : feed Observer.silent.callbacks (.filled 0) (PushParser.init (.filled 0), ())
      (lit "<a<") = .error .bug := by
    rfl
  rw [bug] at reached
  cases reached

end Xwbot.Parser
