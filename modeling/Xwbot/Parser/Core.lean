import Xwbot.Fault
import Xwbot.AttrList
import Xwbot.XString

/-!
# The push parser

`x_parser.c` reads a stream of bytes one at a time.  Four handlers share the
registers of `struct x_push_parser`; `r_putc` selects the handler of the next
byte, `cr1` its phase.  A handler calls at most one of the user's callbacks,
and some code may follow the call.  `Outcome` therefore keeps apart the parser
that the callback finds, the callback, and what is done after it returns.
-/

namespace Xwbot.Parser

/-- The handlers that `r_putc` can point to. -/
inductive Handler where
  | txt
  | tag
  | attr
  | idle
  deriving DecidableEq, Repr

/-- The values of the control register `cr1`. -/
inductive Control where
  | ini
  | kvVal
  | kvLav
  | kvWantVal
  | kvKey
  | objOpening
  | objClosing
  deriving DecidableEq, Repr

/-- `struct x_push_parser`.  Of the pointer `g1` only the low byte is read, and
`g2` is NULL (`false`) or the address of `r2` (`true`).  The stack holds its
top first. -/
structure PushParser where
  attrs : AttrList
  r0 : XString
  r1 : XString
  r2 : XString
  g1 : Byte
  g2 : Bool
  attrFlag : Bool
  cr1 : Control
  rPutc : Handler
  stack : List Handler

/-- `X_INI_STACK_SIZE`. -/
def iniStackSize : Nat := 64

namespace PushParser

/-- The zeroed memory of a new parser object. -/
def zero : PushParser where
  attrs := []
  r0 := .zero
  r1 := .zero
  r2 := .zero
  g1 := 0
  g2 := false
  attrFlag := false
  cr1 := .ini
  rPutc := .txt
  stack := []

/-- `__x_pparser_init`, which is also the parser's `r_reset`. -/
def reset (m : Memory) (p : PushParser) : PushParser :=
  { p with
    attrs := []
    r1 := p.r1.clear m
    r2 := p.r2.clear m
    g1 := 0
    g2 := false
    attrFlag := false
    cr1 := .ini
    rPutc := .txt
    stack := [] }

/-- `x_parser_init` on a new parser. -/
def init (m : Memory) : PushParser :=
  zero.reset m

/-- `x_parser_push`. -/
def push (p : PushParser) (v : Handler) : Except Fault PushParser :=
  if p.stack.length < iniStackSize then .ok { p with stack := v :: p.stack } else .error .stack

theorem push_of_nil {p : PushParser} (v : Handler) (stack_eq : p.stack = []) :
    p.push v = .ok { p with stack := [v] } := by
  simp [push, stack_eq, iniStackSize]

/-- `x_parser_pop`. -/
def pop (p : PushParser) : Except Fault (Handler × PushParser) :=
  match p.stack with
  | [] => .error .stack
  | v :: rest => .ok (v, { p with stack := rest })

theorem pop_of_cons {p : PushParser} {v : Handler} {rest : List Handler}
    (stack_eq : p.stack = v :: rest) : p.pop = .ok (v, { p with stack := rest }) := by
  simp only [pop, stack_eq]

/-- The block that clears `r1`, `r2` and the pointer registers. -/
def clearPair (m : Memory) (p : PushParser) : PushParser :=
  { p with r1 := p.r1.clear m, r2 := p.r2.clear m, g1 := 0, g2 := false }

/-- The block that clears `r0` as well. -/
def clearAll (m : Memory) (p : PushParser) : PushParser :=
  { p.clearPair m with r0 := p.r0.clear m }

/-- What follows `xobjopen` on a slash. -/
def enterClosing (m : Memory) (p : PushParser) : PushParser :=
  { p.clearPair m with cr1 := .objClosing }

/-- What follows `xobjopen` on a closing bracket. -/
def enterContent (m : Memory) (p : PushParser) : PushParser :=
  { p.clearAll m with cr1 := .ini, attrFlag := false, rPutc := .txt }

/-- What follows `xobjclose`. -/
def leaveObject (m : Memory) (p : PushParser) : PushParser :=
  { p.clearAll m with cr1 := .ini, rPutc := .txt }

end PushParser

/-- The callback that a handler calls; `xobjopen` and `xobjclose` are passed the
buffer of `r0`, and `xobjopen` the attribute list. -/
inductive Call where
  | none
  | xobjopen
  | xputchar (c : Byte)
  | xobjclose
  deriving DecidableEq, Repr

/-- One run of a handler. -/
structure Outcome where
  /-- The parser when the callback is called. -/
  parser : PushParser
  /-- The callback. -/
  call : Call
  /-- What the handler does after the callback. -/
  resume : PushParser → PushParser
  /-- The handler's result. -/
  ret : Int

namespace Outcome

/-- A handler that calls nothing and returns 0. -/
def quiet (p : PushParser) : Outcome :=
  ⟨p, .none, id, 0⟩

/-- A handler that reports a parse error. -/
def reject (p : PushParser) : Outcome :=
  ⟨p, .none, id, -1⟩

end Outcome

open PushParser

/-- `x_parser_ctx_txt`. -/
def ctxTxt (p : PushParser) (c : Byte) : Outcome :=
  if c = ch '<' then .quiet { p with rPutc := .tag }
  else ⟨p, .xputchar c, id, 0⟩

/-- The comparison of `x_parser_ctx_idle`.  The byte read is sign-extended to 32
bits and the terminator is not, so a byte from `0x80` on never ends the skipping. -/
def isTerminator (p : PushParser) (c : Byte) : Bool :=
  p.g1 = c && !isHigh c

/-- `x_parser_ctx_idle`. -/
def ctxIdle (m : Memory) (p : PushParser) (c : Byte) : Except Fault Outcome :=
  if isTerminator p c then do
    let (f, p) ← p.pop
    .ok (.quiet { p with rPutc := f })
  else if p.g2 then
    .ok (.quiet { p with r2 := p.r2.putc m c })
  else
    .ok (.quiet p)

/-- `x_parser_ctx_tag`. -/
def ctxTag (m : Memory) (p : PushParser) (c : Byte) : Except Fault Outcome :=
  match p.cr1 with
  | .ini =>
      if isNameStart c then
        .ok (.quiet { p with cr1 := .objOpening, r0 := (p.r0.clear m).putc m c })
      else if c = ch '?' then do
        let p ← { p with g1 := c }.push .tag
        .ok (.quiet { p with rPutc := .idle })
      else if c = ch '>' then
        .ok (.quiet { p with cr1 := .ini, r0 := p.r0.clear m, rPutc := .txt })
      else if c = ch '/' then
        .ok (.quiet { p.clearPair m with cr1 := .objClosing })
      else
        .ok (.reject p)
  | .objOpening =>
      if isNameChar c then
        .ok (.quiet { p with r0 := p.r0.putc m c })
      else if c = ch '/' then
        .ok ⟨p, .xobjopen, enterClosing m, 0⟩
      else if c = ch '>' then
        .ok ⟨p, .xobjopen, enterContent m, 0⟩
      else if isBlank c then
        .ok (.quiet { p.clearPair m with attrs := [], attrFlag := true, rPutc := .attr })
      else
        .error .bug
  | .objClosing =>
      if c = ch '>' then
        .ok ⟨p, .xobjclose, leaveObject m, 0⟩
      else if isNameChar c then
        .ok (.quiet { p with r0 := p.r0.putc m c })
      else
        .ok (.reject p)
  | _ => .error .exit

/-- The label `ret_to_tag` of `x_parser_ctx_attr`: the byte is given to the tag
handler, whose result is dropped. -/
def retToTag (m : Memory) (p : PushParser) (c : Byte) : Except Fault Outcome := do
  let o ← ctxTag m
    { p with r1 := p.r1.clear m, r2 := p.r2.clear m, cr1 := .objOpening, rPutc := .tag } c
  .ok { o with ret := 0 }

/-- The call `setattr(p->r1.cbuf, p->r2.cbuf, &p->attrs)`. -/
def commitAttr (m : Memory) (p : PushParser) : Except Fault PushParser :=
  match p.r1.cstr m with
  | none => .error .segv
  | some k => .ok { p with attrs := setattr k (p.r2.cstr m) p.attrs }

/-- The call `setattr(p->r1.cbuf, NULL, &p->attrs)`. -/
def dropAttr (m : Memory) (p : PushParser) : Except Fault PushParser :=
  match p.r1.cstr m with
  | none => .error .segv
  | some k => .ok { p with attrs := setattr k none p.attrs }

/-- `x_parser_ctx_attr`. -/
def ctxAttr (m : Memory) (p : PushParser) (c : Byte) : Except Fault Outcome :=
  match p.cr1 with
  | .kvLav =>
      if isNameStart c then
        .ok (.quiet { p with r2 := p.r2.putc m c })
      else if isBlank c then do
        let p ← commitAttr m p
        .ok (.quiet { p with r1 := p.r1.clear m, r2 := p.r2.clear m, cr1 := .ini })
      else do
        let p ← commitAttr m p
        retToTag m p c
  | .kvVal =>
      if isBlank c then
        .ok (.quiet p)
      else if isQuote c then do
        let p ← { p with g1 := c, cr1 := .kvLav }.push .attr
        .ok (.quiet { p with r2 := p.r2.clear m, g2 := true, rPutc := .idle })
      else if isKeyChar c then
        .ok (.quiet { p with r2 := p.r2.putc m c, cr1 := .kvLav })
      else
        retToTag m p c
  | .kvWantVal =>
      if c = ch '=' then
        .ok (.quiet { p with cr1 := .kvVal })
      else if isBlank c then
        .ok (.quiet p)
      else if isNameStart c then do
        let p ← dropAttr m p
        .ok (.quiet { p with
          r1 := (p.r1.clear m).putc m c, r2 := p.r2.clear m, cr1 := .kvKey })
      else
        retToTag m p c
  | .kvKey =>
      if isKeyChar c then
        .ok (.quiet { p with r1 := p.r1.putc m c })
      else if c = ch '=' then
        .ok (.quiet { p with cr1 := .kvVal })
      else if isBlank c then
        .ok (.quiet { p with cr1 := .kvWantVal })
      else
        -- no branch of the source takes this byte: it is skipped
        .ok (.quiet p)
  | _ =>
      if isNameStart c then
        .ok (.quiet { p with r1 := p.r1.putc m c, cr1 := .kvKey })
      else if isBlank c then
        .ok (.quiet p)
      else
        retToTag m p c

/-- The handler that `r_putc` points to. -/
def dispatch (m : Memory) (p : PushParser) (c : Byte) : Except Fault Outcome :=
  match p.rPutc with
  | .txt => .ok (ctxTxt p c)
  | .tag => ctxTag m p c
  | .attr => ctxAttr m p c
  | .idle => ctxIdle m p c

/-! ## Running with callbacks -/

/-- The user's callbacks, over the state behind `cbdata`.  A callback may also
change the parser: the attribute list is passed by reference, and the bus resets
its parser from inside a callback.  Their results are not looked at. -/
structure Callbacks (σ : Type) where
  xobjopen : Option Text → PushParser × σ → Except Fault (PushParser × σ)
  xputchar : Byte → PushParser × σ → Except Fault (PushParser × σ)
  xobjclose : Option Text → PushParser × σ → Except Fault (PushParser × σ)

variable {σ : Type}

/-- Call the callback that a handler asks for. -/
def perform (cb : Callbacks σ) (m : Memory) (call : Call) (s : PushParser × σ) :
    Except Fault (PushParser × σ) :=
  match call with
  | .none => .ok s
  | .xobjopen => cb.xobjopen (s.1.r0.cstr m) s
  | .xputchar c => cb.xputchar c s
  | .xobjclose => cb.xobjclose (s.1.r0.cstr m) s

/-- The call `p->r_putc(p, c)`. -/
def putChar (cb : Callbacks σ) (m : Memory) (s : PushParser × σ) (c : Byte) :
    Except Fault (PushParser × σ) := do
  let o ← dispatch m s.1 c
  let s' ← perform cb m o.call (o.parser, s.2)
  .ok (o.resume s'.1, s'.2)

/-- Feed a sequence of bytes. -/
def feed (cb : Callbacks σ) (m : Memory) (s : PushParser × σ) :
    List Byte → Except Fault (PushParser × σ)
  | [] => .ok s
  | c :: rest => putChar cb m s c >>= fun s' => feed cb m s' rest

@[simp]
theorem feed_nil (cb : Callbacks σ) (m : Memory) (s : PushParser × σ) :
    feed cb m s [] = .ok s :=
  rfl

theorem feed_cons (cb : Callbacks σ) (m : Memory) (s : PushParser × σ) (c : Byte)
    (rest : List Byte) :
    feed cb m s (c :: rest) = putChar cb m s c >>= fun s' => feed cb m s' rest :=
  rfl

theorem feed_append (cb : Callbacks σ) (m : Memory) (s : PushParser × σ)
    (first second : List Byte) :
    feed cb m s (first ++ second) = feed cb m s first >>= fun s' => feed cb m s' second := by
  induction first generalizing s with
  | nil => rfl
  | cons c rest ih =>
      rw [List.cons_append, feed_cons, feed_cons]
      cases putChar cb m s c with
      | error fault => rfl
      | ok s' => exact ih s'

/-! ## Users that only watch -/

/-- Callbacks that may do what they like with their own data but leave the
parser alone. -/
structure Observer (σ : Type) where
  xobjopen : Option Text → AttrList → σ → σ
  xputchar : Byte → σ → σ
  xobjclose : Option Text → σ → σ

/-- The callbacks of an observer. -/
def Observer.callbacks (user : Observer σ) : Callbacks σ where
  xobjopen name s := .ok (s.1, user.xobjopen name s.1.attrs s.2)
  xputchar c s := .ok (s.1, user.xputchar c s.2)
  xobjclose name s := .ok (s.1, user.xobjclose name s.2)

/-- A user without callbacks. -/
def Observer.silent : Observer Unit :=
  ⟨fun _ _ u => u, fun _ u => u, fun _ u => u⟩

/-- The calls that a recording user sees, with their arguments. -/
inductive Event where
  | xobjopen (name : Option Text) (attrs : AttrList)
  | xputchar (c : Byte)
  | xobjclose (name : Option Text)
  deriving DecidableEq, Repr

/-- The user that writes down its calls, oldest first. -/
def recorder : Observer (List Event) where
  xobjopen name attrs events := events ++ [.xobjopen name attrs]
  xputchar c events := events ++ [.xputchar c]
  xobjclose name events := events ++ [.xobjclose name]

end Xwbot.Parser
