import Xwbot.Bus.Core

/-!
# The focus of the bus

The objects from the focus up to the bus form a line.  What the callbacks of the classes do leaves
it in place; opening an element puts an object in front of it, closing one takes the first object
away, and a reset leaves the bus alone.  The search for an object to use again stays among the
children of the focus.
-/

namespace Xwbot

open Links Runs Xwbot.Parser

variable {env : Env} {m : Memory} {b b' : Bus} {s s' : PushParser × Bus} {own : Option Addr}
  {o r x y : Addr} {line : List Addr}

/-- What a path through parents passes encloses its start. -/
theorem Heap.encloses_of_path {h : Heap} {l : List Addr} (path : Path h.parent (some r) l none)
    (member : y ∈ l) : h.Encloses r y := by
  induction l generalizing r with
  | nil => cases member
  | cons z rest ih =>
      rcases path with ⟨same, above⟩
      cases same
      rcases List.mem_cons.mp member with rfl | member
      · exact .refl
      · cases rest with
        | nil => cases member
        | cons w rest =>
            have parent_eq := above.1
            rw [parent_eq] at above
            exact .head parent_eq (ih above member)

/-- The objects from the focus up to the bus are alive, and nothing encloses the bus. -/
structure Bus.Focused (b : Bus) (line : List Addr) : Prop where
  linked : b.heap.Linked
  rObj : b.rObj = line.head?
  path : Path b.heap.parent line.head? line none
  alive : ∀ x ∈ line, b.heap.live x = true
  self : line.getLast? = some b.self

namespace Bus.Focused

variable (focused : b.Focused line)

include focused

theorem exists_head : ∃ r, b.rObj = some r ∧ r ∈ line := by
  cases line with
  | nil => cases focused.self
  | cons r rest => exact ⟨r, focused.rObj, List.mem_cons_self⟩

theorem self_mem : b.self ∈ line :=
  List.mem_of_getLast? focused.self

/-- The line encloses the focus. -/
theorem encloses (focus : b.rObj = some r) (member : y ∈ line) : b.heap.Encloses r y := by
  have path := focused.path
  rw [← focused.rObj, focus] at path
  exact Heap.encloses_of_path path member

theorem stays (own : Option Addr) (member : y ∈ line) : b.Stays own y := by
  rcases focused.exists_head with ⟨r, focus, -⟩
  exact .inr ⟨r, .inl focus, focused.encloses focus member⟩

/-- Nothing that leaves the line in its place moves the focus. -/
theorem of_samePlace (linked : b'.heap.Linked) (self : b'.self = b.self) (rObj : b'.rObj = b.rObj)
    (same : ∀ y ∈ line, SamePlace b.heap b'.heap y) : b'.Focused line where
  linked := linked
  rObj := rObj.trans focused.rObj
  path := focused.path.congr fun y member => (same y member).parent
  alive y member := (same y member).live.trans (focused.alive y member)
  self := by rw [focused.self, self]

theorem frame (frame : Frame own b b') : b'.Focused line :=
  focused.of_samePlace (frame.linked focused.linked) frame.self frame.rObj fun y member =>
    frame.stays y (focused.stays own member) (focused.alive y member)

/-- The focus is taken off the line. -/
theorem parent_eq {above : List Addr} (line_eq : line = o :: above) :
    b.heap.parent o = above.head? := by
  subst line_eq
  have start := focused.path.2.start
  rwa [Option.or_none] at start

theorem up {above : List Addr} (line_eq : line = o :: above) (other : o ≠ b.self) :
    ({ b with rObj := b.heap.parent o } : Bus).Focused above where
  linked := focused.linked
  rObj := focused.parent_eq line_eq
  path := by
    have path := focused.path
    subst line_eq
    have above_path := path.2
    change Path b.heap.parent above.head? above none
    rwa [focused.parent_eq rfl] at above_path
  alive y member := focused.alive y (line_eq ▸ List.mem_cons_of_mem o member)
  self := by
    have last := focused.self
    subst line_eq
    cases above with
    | nil => exact absurd (Option.some.inj last) other
    | cons r rest => rwa [List.getLast?_cons_cons] at last

/-- The focus alone is the bus. -/
theorem atSelf : ({ b with rObj := some b.self } : Bus).Focused [b.self] where
  linked := focused.linked
  rObj := rfl
  path := by
    refine ⟨rfl, ?_⟩
    rcases List.getLast?_eq_some_iff.mp focused.self with ⟨before, line_eq⟩
    have path := focused.path
    rw [line_eq] at path
    rcases path_append.mp path with ⟨c, -, last⟩
    exact last.2
  alive y member := by
    rw [List.mem_singleton.mp member]
    exact focused.alive b.self focused.self_mem
  self := rfl

end Bus.Focused

theorem SamePlace.trans {h h' h'' : Heap} (first : SamePlace h h' y) (second : SamePlace h' h'' y) :
    SamePlace h h'' y :=
  ⟨second.live.trans first.live, second.parent.trans first.parent, second.name.trans first.name,
    second.bus.trans first.bus, second.objclass.trans first.objclass⟩

theorem samePlace_of_agree {h h' : Heap} (agree : Heap.Agree h h') (alive : h.live y = true) :
    SamePlace h h' y :=
  ⟨congrFun agree.live y, agree.parent y alive, agree.name y alive, agree.bus y alive,
    agree.objclass y alive⟩

theorem samePlace_alloc {h : Heap} (alive : h.live y = true) (name : Text) (objclass : Option Nat) :
    SamePlace h (h.alloc name objclass).1 y := by
  have other := Heap.ne_top alive
  constructor <;> simp only [Heap.alloc, Function.update_of_ne other]

/-! ## Beside the line -/

/-- Something has happened to the object `o`, and to others that are not on the line. -/
structure Beside (line : List Addr) (o : Addr) (b b' : Bus) : Prop where
  focused : b'.Focused line
  nsmap : b'.nsmap = b.nsmap
  place : ∀ y ∈ line, SamePlace b.heap b'.heap y
  xmlns : ∀ y ∈ line, y ≠ o → b'.heap.xmlnsOf y = b.heap.xmlnsOf y
  chained : b.heap.Chained → b'.heap.Chained

theorem Beside.trans {b'' : Bus} (first : Beside line o b b') (second : Beside line o b' b'') :
    Beside line o b b'' where
  focused := second.focused
  nsmap := second.nsmap.trans first.nsmap
  place y member := (first.place y member).trans (second.place y member)
  xmlns y member other := (second.xmlns y member other).trans (first.xmlns y member other)
  chained := second.chained ∘ first.chained

/-- An object with its class and its default namespace. -/
structure Bus.Holds (b : Bus) (o : Addr) (name : Text) (objclass : Option Nat)
    (xmlns : Option Text) : Prop where
  alive : b.heap.live o = true
  name : b.heap.name o = name
  objclass : b.heap.objclass o = objclass
  xmlns : b.heap.xmlnsOf o = xmlns

namespace Env

/-- The class behind an index. -/
def classAt (env : Env) : Option Nat → ObjectClass
  | none => protoclass
  | some i => env.classes i

theorem classOf_eq (h : Heap) (x : Addr) : env.classOf h x = env.classAt (h.objclass x) := by
  unfold classOf classAt
  rfl

/-- The callbacks of an append. -/
def announce (env : Env) (b : Bus) (parent child : Addr) : Bus :=
  let b := (env.classOf b.heap parent).onChildAppend.run () b child
  let b := (env.classOf b.heap child).onAppend.run () b child
  env.pathListeners.run () b child

theorem appendChild_eq (parent child : Addr) : env.appendChild b parent child =
    (do
      let h ← b.heap.appendChildNoCb parent child
      let b := env.announce { b with heap := h } parent child
      b.heap.getIndex child
      let h ← b.heap.notify
      .ok { b with heap := h }) :=
  rfl

end Env

namespace Bus.Focused

variable {name : Text} {objclass : Option Nat} {ns : Option Text}

/-- A callback for an object. -/
theorem hook (focused : b.Focused line) {ι : Type} (hook : Hook ι) (i : ι)
    (holds : b.Holds o name objclass ns) :
    Beside line o b (hook.run i b o) ∧ SamePlace b.heap (hook.run i b o).heap o ∧
      (hook.run i b o).Holds o name objclass (hook.xmlns i ns) := by
  have kept := hook.frame i b o holds.alive
  have same := kept.stays o (.inr ⟨o, .inr rfl, .refl⟩) holds.alive
  refine ⟨⟨focused.frame kept, kept.nsmap, fun y member => ?_, fun y member other => ?_,
    kept.chained focused.linked⟩, same, ⟨?_, ?_, ?_, ?_⟩⟩
  · exact kept.stays y (focused.stays _ member) (focused.alive y member)
  · refine kept.xmlns y (focused.stays _ member) (focused.alive y member) fun own => ?_
    exact other (Option.some.inj own).symm
  · exact same.live.trans holds.alive
  · exact same.name.trans holds.name
  · exact same.objclass.trans holds.objclass
  · rw [hook.xmlns_eq i b o holds.alive, holds.xmlns]

/-- The callbacks of an append. -/
theorem announce (focused : b.Focused line) (holds : b.Holds o name objclass ns) (r : Addr) :
    Beside line o b (env.announce b r o) ∧ SamePlace b.heap (env.announce b r o).heap o ∧
      (env.announce b r o).Holds o name objclass
        (env.pathListeners.xmlns () ((env.classAt objclass).onAppend.xmlns ()
          ((env.classOf b.heap r).onChildAppend.xmlns () ns))) := by
  rcases focused.hook (env.classOf b.heap r).onChildAppend () holds with ⟨beside₁, same₁, holds₁⟩
  let b₁ := (env.classOf b.heap r).onChildAppend.run () b o
  rcases beside₁.focused.hook (env.classOf b₁.heap o).onAppend () holds₁ with
    ⟨beside₂, same₂, holds₂⟩
  rw [env.classOf_eq b₁.heap o, holds₁.objclass] at beside₂ same₂ holds₂
  rcases beside₂.focused.hook env.pathListeners () holds₂ with ⟨beside₃, same₃, holds₃⟩
  have stages : env.announce b r o =
      env.pathListeners.run () ((env.classAt objclass).onAppend.run () b₁ o) o := by
    rw [← holds₁.objclass, ← env.classOf_eq]
    rfl
  rw [stages]
  exact ⟨(beside₁.trans beside₂).trans beside₃, (same₁.trans same₂).trans same₃, holds₃⟩

/-! ## Opening -/

/-- A new object is nowhere. -/
theorem newNsMatch (focused : b.Focused line) {pName ns : Text} {hints : AttrList}
    (result : env.newNsMatch b pName ns hints = .ok (b', o)) :
    Beside line o b b' ∧ b'.heap.parent o = none ∧ o ∉ line ∧
      b'.Holds o (objectName pName) (env.getClass (objectName pName) ns hints)
        ((env.classAt (env.getClass (objectName pName) ns hints)).onCreate.xmlns () none) := by
  rcases (env.newNsMatch_eq_ok_iff).mp result with ⟨-, made⟩
  cases made
  let objclass := env.getClass (objectName pName) ns hints
  let b₁ : Bus := { b with heap := (b.heap.alloc (objectName pName) objclass).1 }
  have holds₁ : b₁.Holds b.heap.top (objectName pName) objclass none :=
    ⟨Function.update_self .., Function.update_self .., Function.update_self .., by
      change getattr xmlns (Function.update b.heap.attrs b.heap.top [] b.heap.top) = none
      rw [Function.update_self]
      rfl⟩
  have outside : b.heap.top ∉ line := fun member =>
    Heap.ne_top (focused.alive _ member) rfl
  have place : ∀ y ∈ line, SamePlace b.heap b₁.heap y := fun y member =>
    samePlace_alloc (focused.alive y member) _ objclass
  have focused₁ : b₁.Focused line :=
    focused.of_samePlace (focused.linked.alloc _ objclass) rfl rfl place
  have beside₁ : Beside line b.heap.top b b₁ := by
    refine ⟨focused₁, rfl, place, fun y _ other => ?_, fun chained => chained.alloc _ objclass⟩
    change getattr xmlns (Function.update b.heap.attrs b.heap.top [] y) = _
    rw [Function.update_of_ne other]
    rfl
  rcases focused₁.hook (env.classOf b₁.heap b.heap.top).onCreate () holds₁ with
    ⟨beside₂, same, holds₂⟩
  rw [env.classOf_eq b₁.heap b.heap.top, holds₁.objclass] at beside₂ same holds₂
  have class_eq : env.classOf b₁.heap b.heap.top = env.classAt objclass := by
    rw [env.classOf_eq, holds₁.objclass]
  change Beside line b.heap.top b ((env.classOf b₁.heap b.heap.top).onCreate.run () b₁ b.heap.top) ∧
    ((env.classOf b₁.heap b.heap.top).onCreate.run () b₁ b.heap.top).heap.parent b.heap.top = none ∧
    b.heap.top ∉ line ∧
    ((env.classOf b₁.heap b.heap.top).onCreate.run () b₁ b.heap.top).Holds b.heap.top _ _ _
  rw [class_eq]
  exact ⟨beside₁.trans beside₂, same.parent.trans (Function.update_self ..), outside, holds₂⟩

/-- The links of an object that is appended to another. -/
theorem appendChildNoCb (focused : b.Focused line) (holds : b.Holds o name objclass ns)
    (orphan : b.heap.parent o = none) (outside : o ∉ line) {h : Heap}
    (result : b.heap.appendChildNoCb r o = .ok h) :
    Beside line o b { b with heap := h } ∧ h.parent o = some r ∧
      ({ b with heap := h } : Bus).Holds o name objclass ns ∧ h.objclass = b.heap.objclass := by
  rcases Heap.appended_of_appendChildNoCb result with ⟨aliveR, -, placed⟩
  have place : ∀ y ∈ line, SamePlace b.heap h y := by
    intro y member
    have other : y ≠ o := ne_of_mem_of_not_mem member outside
    refine ⟨congrFun placed.live y, ?_, congrFun placed.name y, ?_, congrFun placed.objclass y⟩
    · rw [placed.parent, Function.update_of_ne other]
    · rw [placed.bus, Function.update_of_ne other]
  have focused' : ({ b with heap := h } : Bus).Focused line :=
    focused.of_samePlace (focused.linked.appended orphan result) rfl rfl place
  have xmlns : ∀ y, h.xmlnsOf y = b.heap.xmlnsOf y := fun y => by
    rw [Heap.xmlnsOf, Heap.xmlnsOf, placed.attrs]
  refine ⟨⟨focused', rfl, place, fun y _ _ => xmlns y, fun chained => ?_⟩, ?_, ⟨?_, ?_, ?_, ?_⟩,
    placed.objclass⟩
  · rcases focused.linked.appendChildNoCb chained aliveR holds.alive orphan with
      ⟨h', appended, chained'⟩
    rw [result] at appended
    cases appended
    exact chained'
  · rw [placed.parent, Function.update_self]
  · exact (congrFun placed.live o).trans holds.alive
  · exact (congrFun placed.name o).trans holds.name
  · exact (congrFun placed.objclass o).trans holds.objclass
  · exact (xmlns o).trans holds.xmlns

/-- An object that is appended to another. -/
theorem appendChild (focused : b.Focused line) (holds : b.Holds o name objclass ns)
    (orphan : b.heap.parent o = none) (outside : o ∉ line)
    (result : env.appendChild b r o = .ok b') :
    Beside line o b b' ∧ b'.heap.parent o = some r ∧
      b'.Holds o name objclass
        (env.pathListeners.xmlns () ((env.classAt objclass).onAppend.xmlns ()
          ((env.classOf b.heap r).onChildAppend.xmlns () ns))) := by
  rw [Env.appendChild_eq] at result
  rcases bind_eq_ok_iff.mp result with ⟨h, appended, behindAppend⟩
  rcases bind_eq_ok_iff.mp behindAppend with ⟨-, -, behindIndex⟩
  rcases bind_eq_ok_iff.mp behindIndex with ⟨h', notified, done⟩
  rcases Heap.notify_eq_ok _ with ⟨h'', notified', agree, top_eq⟩
  rw [notified] at notified'
  cases notified'
  cases done
  let b₁ : Bus := { b with heap := h }
  rcases focused.appendChildNoCb holds orphan outside appended with
    ⟨beside₁, parent_eq, holds₁, objclass_eq⟩
  have class_eq : env.classOf b₁.heap r = env.classOf b.heap r := by
    rw [env.classOf_eq, env.classOf_eq, objclass_eq]
  rcases (beside₁.focused.announce holds₁ r : Beside line o b₁ (env.announce b₁ r o) ∧ _) with
    ⟨beside₂, same₂, holds₂⟩
  rw [class_eq] at holds₂
  let b₂ := env.announce b₁ r o
  have last : ∀ y, b₂.heap.live y = true → SamePlace b₂.heap h' y := fun y aliveY =>
    samePlace_of_agree agree aliveY
  have xmlns₃ : ∀ y, b₂.heap.live y = true → h'.xmlnsOf y = b₂.heap.xmlnsOf y := fun y aliveY => by
    rw [Heap.xmlnsOf, Heap.xmlnsOf, agree.attrs y aliveY]
  have linked₃ : h'.Linked :=
    beside₂.focused.linked.agree agree (by rw [top_eq]; exact Nat.le_succ _)
  have beside₃ : Beside line o b₂ { b₂ with heap := h' } := by
    refine ⟨?_, rfl, fun y member => ?_, fun y member _ => ?_, fun chained => chained.agree agree⟩
    · exact beside₂.focused.of_samePlace linked₃ rfl rfl fun y member =>
        last y (beside₂.focused.alive y member)
    · exact last y (beside₂.focused.alive y member)
    · exact xmlns₃ y (beside₂.focused.alive y member)
  refine ⟨(beside₁.trans beside₂).trans beside₃, ?_, ⟨?_, ?_, ?_, ?_⟩⟩
  · rw [(same₂.trans (last o holds₂.alive)).parent]
    exact parent_eq
  · exact (last o holds₂.alive).live.trans holds₂.alive
  · exact (last o holds₂.alive).name.trans holds₂.name
  · exact (last o holds₂.alive).objclass.trans holds₂.objclass
  · exact (xmlns₃ o holds₂.alive).trans holds₂.xmlns

/-- The focus moves to an object below it. -/
theorem enter (focused : b.Focused line) (holds : b.Holds o name objclass ns)
    (parent_eq : b.heap.parent o = b.rObj) (attrs : AttrList) :
    Beside (o :: line) o { b with rObj := some o } (env.enter b o attrs) ∧
      (env.enter b o attrs).Holds o name objclass
        ((env.classAt objclass).onAssign.xmlns attrs ns) := by
  have moved : ({ b with rObj := some o } : Bus).Focused (o :: line) := by
    constructor
    case linked => exact focused.linked
    case rObj => rfl
    case path =>
      refine ⟨rfl, ?_⟩
      change Path b.heap.parent (b.heap.parent o) line none
      rw [parent_eq, focused.rObj]
      exact focused.path
    case alive => exact List.forall_mem_cons.mpr ⟨holds.alive, focused.alive⟩
    case self =>
      rcases focused.exists_head with ⟨r, -, member⟩
      rw [List.getLast?_cons, focused.self]
      rfl
  have holds' : ({ b with rObj := some o } : Bus).Holds o name objclass ns :=
    ⟨holds.alive, holds.name, holds.objclass, holds.xmlns⟩
  rcases moved.hook (env.classOf b.heap o).onAssign attrs holds' with ⟨beside, -, held⟩
  rw [env.classOf_eq, holds.objclass] at beside held
  have class_eq : env.enter b o attrs =
      (env.classAt objclass).onAssign.run attrs { b with rObj := some o } o := by
    rw [← holds.objclass, ← env.classOf_eq]
    rfl
  rw [class_eq]
  exact ⟨beside, held⟩

end Bus.Focused

/-! ## Searching -/

namespace Env

/-- The search of `__x_bus_objopen` among the children of the focus. -/
def lookup (env : Env) (b : Bus) (cname : Option Text) (attrs : AttrList) :
    Except Fault (Option Addr) := do
  let start ← b.heap.getChild b.rObj cname
  env.objectFind b.heap start attrs

/-- The object that the search ends at. -/
def finds (env : Env) (b : Bus) (cname : Option Text) (attrs : AttrList) :
    Except Fault (Option Addr) := do
  let start ← b.heap.getChild b.rObj cname
  let (_, found) ← b.heap.follow b.heap.next (env.stopsFind b.heap attrs) start
  .ok found

/-- The search returns when it ends, and the class of the object it ends at answers. -/
theorem lookup_eq_ok_iff {cname : Option Text} {attrs : AttrList} {found : Option Addr} :
    env.lookup b cname attrs = .ok found ↔ env.finds b cname attrs = .ok found ∧
      ∀ o, found = some o → Succeeds (env.objectMatch b.heap o attrs) := by
  unfold lookup finds objectFind
  cases b.heap.getChild b.rObj cname with
  | error fault => simp
  | ok start =>
      simp only [ok_bind]
      cases b.heap.follow b.heap.next (env.stopsFind b.heap attrs) start with
      | error fault => simp
      | ok walk =>
          rcases walk with ⟨before, _ | o⟩
          · simp only [ok_bind]
            constructor
            · intro result
              refine ⟨result, fun o same => ?_⟩
              cases result
              cases same
            · exact And.left
          · simp only [ok_bind]
            constructor
            · intro result
              rcases bind_eq_ok_iff.mp result with ⟨answer, answers, same⟩
              cases same
              refine ⟨rfl, fun o' same => ?_⟩
              cases same
              exact ⟨answer, answers⟩
            · rintro ⟨same, answers⟩
              cases same
              rcases answers o rfl with ⟨answer, answers⟩
              rw [answers, ok_bind]

/-- `__x_bus_objopen` behind the search for declarations. -/
theorem openElement_eq {q : QName} {attrs : AttrList} {ns : Text}
    (namespace_eq : b.namespaceOf q attrs = .ok (some ns)) :
    env.openElement b q attrs = env.lookup b q.name attrs >>= fun found =>
      match found with
      | some o_ => .ok (env.enter b o_ attrs)
      | none => env.instantiate b q.name (ns.takeWhile (· ≠ ch '#')) attrs := by
  unfold openElement lookup
  rewrite [namespace_eq, ok_bind, cutNamespace, ok_bind, bind_assoc]
  rfl

end Env

namespace Bus.Focused

variable (env) in
/-- In a heap whose chains are in order the search ends, at a child of the focus if at any. -/
theorem finds (focused : b.Focused line) (chained : b.heap.Chained) (cname : Option Text)
    (attrs : AttrList) :
    ∃ found, env.finds b cname attrs = .ok found ∧
      ∀ o, found = some o → b.heap.live o = true ∧ b.heap.parent o = b.rObj := by
  rcases focused.exists_head with ⟨r, focus, member⟩
  rcases focused.linked.getChild (focused.alive r member) cname with ⟨start, looked, sons⟩
  unfold Env.finds
  rw [focus, looked, ok_bind]
  cases start with
  | none =>
      have stays : Passes b.heap.live (env.stopsFind b.heap attrs) b.heap.next none [] none :=
        ⟨rfl, by simp, by simp, by simp, by simp⟩
      rw [b.heap.follow_of_passes stays, ok_bind]
      exact ⟨none, rfl, fun o impossible => by cases impossible⟩
  | some son =>
      rcases sons son rfl with ⟨alive, parent_eq⟩
      rcases chained.path son alive with ⟨chain, path, inside⟩
      have passes : Passes b.heap.live (env.stopsFind b.heap attrs) b.heap.next (some son) _ _ :=
        passes_of_path path fun x onPath => (inside x onPath).1
      rw [b.heap.follow_of_passes passes, ok_bind]
      refine ⟨_, rfl, fun o found => ?_⟩
      rcases inside o (List.mem_of_find?_eq_some found) with ⟨aliveO, same⟩
      exact ⟨aliveO, same.trans parent_eq⟩

end Bus.Focused

namespace Bus.Focused

/-! ## Closing -/

/-- Dropping a child of the bus does not move the bus. -/
theorem dropped (focused : b.Focused line) {cname : Text} {old : Option Addr} {h : Heap}
    (looked : b.heap.getChild (some b.self) (some cname) = .ok old)
    (put : b.heap.refPut old = .ok h) :
    ({ b with rObj := some b.self, heap := h } : Bus).Focused [b.self] := by
  have atSelf := focused.atSelf
  cases old with
  | none =>
      cases put
      exact atSelf
  | some x =>
      have alive := focused.alive b.self focused.self_mem
      rcases focused.linked.getChild alive (some cname) with ⟨old', looked', sons⟩
      rw [looked] at looked'
      cases looked'
      have other : b.self ≠ x := by
        rintro rfl
        have root := atSelf.parent_eq rfl
        change b.heap.parent b.self = none at root
        rw [(sons b.self rfl).2] at root
        cases root
      rcases focused.linked.putDown put with ⟨down, linked⟩
      refine atSelf.of_samePlace linked rfl rfl fun y member => ?_
      rw [List.mem_singleton.mp member]
      exact ⟨down.live b.self other, down.parent b.self other, congrFun down.name _,
        congrFun down.bus _, congrFun down.objclass _⟩

/-- After a reset the focus is the bus. -/
theorem resetStream (focused : s.2.Focused line) (result : env.resetStream m s = .ok s') :
    s'.2.Focused [s.2.self] := by
  unfold Env.resetStream at result
  rcases bind_eq_ok_iff.mp result with ⟨old, looked, behindLookup⟩
  rcases bind_eq_ok_iff.mp behindLookup with ⟨h, put, behindPut⟩
  rcases bind_eq_ok_iff.mp behindPut with ⟨⟨b₁, streamo⟩, created, behindNew⟩
  rcases bind_eq_ok_iff.mp behindNew with ⟨b₂, appended, done⟩
  cases done
  have focused₀ := focused.dropped looked put
  rcases focused₀.newNsMatch created with ⟨beside₁, orphan, outside, holds₁⟩
  let h₁ := b₁.heap.setattr streamo (lit "remote") (getattr (lit "domain") (b₁.heap.attrs b₁.self))
  let h₂ := h₁.setattr streamo (lit "local") (getattr (lit "jid") (h₁.attrs b₁.self))
  have focused₂ : ({ b₁ with heap := h₂ } : Bus).Focused [s.2.self] :=
    beside₁.focused.of_samePlace ((beside₁.focused.linked.setAttrs _).setAttrs _) rfl rfl
      fun _ _ => ⟨rfl, rfl, rfl, rfl, rfl⟩
  have holds₂ : ({ b₁ with heap := h₂ } : Bus).Holds streamo (b₁.heap.name streamo)
      (b₁.heap.objclass streamo) (h₂.xmlnsOf streamo) :=
    ⟨holds₁.alive, rfl, rfl, rfl⟩
  exact (focused₂.appendChild holds₂ orphan outside appended).1.focused

/-- The handshake does not touch the heap. -/
theorem startTls (focused : b.Focused line) : (env.startTls b).Focused line := by
  unfold Env.startTls
  dsimp only
  split <;> exact ⟨focused.linked, focused.rObj, focused.path, focused.alive, focused.self⟩

end Bus.Focused

/-! ## Declarations -/

/-- The namespace that the attributes declare for a prefix; a later attribute counts. -/
def declaredIn (ns : Text) (attrs : AttrList) : Option Text :=
  (attrs.reverse.find? fun p => isNsDecl p.1 && declaredPrefix p.1 = ns).map Prod.snd

theorem htGet_foldl_fillNsmapStep (nsToReplace : Option Text) (ns : Text) (attrs : AttrList)
    (acc : HashTable × Option Text) :
    (attrs.foldl (fillNsmapStep nsToReplace) acc).1.htGet ns =
      (declaredIn ns attrs).or (acc.1.htGet ns) := by
  induction attrs generalizing acc with
  | nil => rfl
  | cons p rest ih =>
      have split : declaredIn ns (p :: rest) = (declaredIn ns rest).or
          (if isNsDecl p.1 && declaredPrefix p.1 = ns then some p.2 else none) := by
        simp only [declaredIn, List.reverse_cons, List.find?_append, List.find?_singleton]
        cases rest.reverse.find? fun p => isNsDecl p.1 && declaredPrefix p.1 = ns with
        | some q => rfl
        | none => split <;> rfl
      rw [List.foldl_cons, ih, split, Option.or_assoc]
      congr 1
      rw [fillNsmapStep]
      by_cases decl : isNsDecl p.1 = true
      · simp only [decl, if_true, HashTable.htGet_htSet, Bool.true_and, decide_eq_true_eq]
        by_cases same : ns = declaredPrefix p.1
        · simp [same]
        · simp [same, Ne.symm same]
      · simp [decl]

/-- What the map holds after the declarations of an element. -/
theorem htGet_declare (b : Bus) (q : QName) (attrs : AttrList) (ns : Text) :
    (b.declare q attrs).1.nsmap.htGet ns = (declaredIn ns attrs).or (b.nsmap.htGet ns) := by
  have filled : (fillNsmap b.nsmap attrs (if q.hasNs then cbuf q.ns else none)).1 =
      (attrs.foldl (fillNsmapStep (if q.hasNs then cbuf q.ns else none)) (b.nsmap, none)).1 := by
    unfold fillNsmap
    dsimp only
    split <;> rfl
  change (fillNsmap b.nsmap attrs (if q.hasNs then cbuf q.ns else none)).1.htGet ns = _
  rw [filled, htGet_foldl_fillNsmapStep]

/-- An element without a prefix keeps its attributes. -/
theorem attrs_declare {q : QName} (unprefixed : q.hasNs = false) (b : Bus) (attrs : AttrList) :
    (b.declare q attrs).2 = attrs := by
  simp [Bus.declare, fillNsmap, unprefixed]

/-- A declaration resolves the element: for a prefix, one of the element itself or of any element
before it, and without a prefix one of the element itself or of an object around it. -/
def Bus.Declared (b : Bus) (q : QName) (attrs : AttrList) : Prop :=
  if q.hasNs then q.ns ≠ [] ∧ ((declaredIn q.ns attrs).isSome ∨ (b.nsmap.htGet q.ns).isSome)
  else (getattr xmlns attrs).isSome ∨
    ∃ r y, b.rObj = some r ∧ b.heap.Encloses r y ∧ (b.heap.xmlnsOf y).isSome

/-- The namespace that `__x_bus_objopen` looks at is not NULL. -/
def Bus.Resolved (b : Bus) (q : QName) (attrs : AttrList) : Prop :=
  ∃ ns, (b.declare q attrs).1.namespaceOf q (b.declare q attrs).2 = .ok (some ns)

namespace Bus.Focused

/-- Whatever encloses the focus is on the line. -/
theorem mem_of_encloses (focused : b.Focused line) (focus : b.rObj = some r)
    (encloses : b.heap.Encloses r y) : y ∈ line := by
  have path := focused.path
  have head := focused.rObj
  rw [focus] at head
  have member : r ∈ line := List.mem_of_head? head.symm
  clear head focus
  induction encloses with
  | refl => exact member
  | @tail y z _ parent_eq ih =>
      rcases List.append_of_mem ih with ⟨before, behind, rfl⟩
      rcases path_append.mp path with ⟨c, -, last⟩
      have start := last.2.start
      rw [parent_eq, Option.or_none] at start
      exact List.mem_append_right _ (List.mem_cons_of_mem _ (List.mem_of_head? start.symm))

/-- `x_object_getenv` at the focus. -/
theorem getenv (focused : b.Focused line) (anam : Text) :
    b.heap.getenv b.rObj anam =
      .ok ((line.find? fun y => (getattr anam (b.heap.attrs y)).isSome).bind fun y =>
        getattr anam (b.heap.attrs y)) := by
  have path := focused.path
  rw [← focused.rObj] at path
  rw [Heap.getenv, b.heap.follow_of_passes (passes_of_path path focused.alive), ok_bind]

/-- **Which elements are resolved.** -/
theorem resolved_iff (focused : b.Focused line) {q : QName} {attrs : AttrList} :
    b.Resolved q attrs ↔ b.Declared q attrs := by
  unfold Bus.Resolved Bus.Declared Bus.namespaceOf
  cases prefixed : q.hasNs with
  | true =>
      simp only [if_true]
      by_cases empty : q.ns = []
      · simp [cbuf, empty]
      · rw [cbuf, if_neg empty]
        dsimp only
        rw [htGet_declare]
        cases declaredIn q.ns attrs <;> cases b.nsmap.htGet q.ns <;> simp [empty]
  | false =>
      simp only [Bool.false_eq_true, if_false, attrs_declare prefixed]
      cases own : getattr xmlns attrs with
      | some ns => simp
      | none =>
          have around : (b.declare q attrs).1.heap.getenv (b.declare q attrs).1.rObj xmlns = _ :=
            focused.getenv xmlns
          dsimp only
          rw [around]
          simp only [Except.ok.injEq, Option.isSome_none, Bool.false_eq_true, false_or]
          constructor
          · rintro ⟨ns, found⟩
            rcases Option.bind_eq_some_iff.mp found with ⟨y, first, value⟩
            rcases focused.exists_head with ⟨r, focus, -⟩
            refine ⟨r, y, focus, focused.encloses focus (List.mem_of_find?_eq_some first), ?_⟩
            rw [Heap.xmlnsOf, value]
            rfl
          · rintro ⟨r, y, focus, encloses, some⟩
            have found : (line.find? fun y => (getattr xmlns (b.heap.attrs y)).isSome).isSome := by
              rw [List.find?_isSome]
              exact ⟨y, focused.mem_of_encloses focus encloses, some⟩
            rcases Option.isSome_iff_exists.mp found with ⟨z, first⟩
            have isSome : (getattr xmlns (b.heap.attrs z)).isSome = true := by
              have stops := List.find?_some first
              exact stops
            rcases Option.isSome_iff_exists.mp isSome with ⟨ns, value⟩
            exact ⟨ns, by rw [first, Option.bind_some, value]⟩

end Bus.Focused

/-! ## One byte -/

/-- The element that a byte opens: the name and the attributes that `__x_bus_objopen` gets. -/
def opensAt (m : Memory) (s : PushParser × Bus) (c : Byte) : Option (Text × AttrList) :=
  match dispatch m s.1 c with
  | .ok o =>
      if o.call = .xobjopen then (o.parser.r0.cstr m).map fun name => (name, o.parser.attrs)
      else none
  | .error _ => none

theorem exists_dispatch_of_opensAt {c : Byte} {name : Text} {attrs : AttrList}
    (opening : opensAt m s c = some (name, attrs)) : ∃ out, dispatch m s.1 c = .ok out ∧
      out.call = .xobjopen ∧ out.parser.r0.cstr m = some name ∧ out.parser.attrs = attrs := by
  unfold opensAt at opening
  split at opening
  · next out dispatched =>
      split at opening
      · next call =>
          rcases Option.map_eq_some_iff.mp opening with ⟨name', name_eq, same⟩
          cases same
          exact ⟨out, dispatched, call, name_eq, rfl⟩
      · cases opening
  · cases opening

/-- The focus is the bus or an object below it. -/
def Bus.Inside (b : Bus) : Prop :=
  ∃ r, b.rObj = some r ∧ b.heap.live r = true ∧ b.heap.Encloses r b.self

theorem Bus.Focused.inside (focused : b.Focused line) : b.Inside := by
  rcases focused.exists_head with ⟨r, focus, member⟩
  exact ⟨r, focus, focused.alive r member, focused.encloses focus focused.self_mem⟩

/-- A reset of a bus in order gives the focus to the bus. -/
theorem Env.focused_of_resetStream {s₀ : PushParser × Bus} (linked : s₀.2.heap.Linked)
    (alive : s₀.2.heap.live s₀.2.self = true) (root : s₀.2.heap.parent s₀.2.self = none)
    (started : env.resetStream m s₀ = .ok s) : s.2.Focused [s₀.2.self] := by
  have focused₀ : ({ s₀.2 with rObj := some s₀.2.self } : Bus).Focused [s₀.2.self] := by
    refine ⟨linked, rfl, ⟨rfl, root⟩, fun y member => ?_, rfl⟩
    rw [List.mem_singleton.mp member]
    exact alive
  exact @Bus.Focused.resetStream env m (s₀.1, { s₀.2 with rObj := some s₀.2.self }) s
    [s₀.2.self] focused₀ started

end Xwbot
