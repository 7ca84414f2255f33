import Xwbot.Object.PathWalk

/-!
# The trees that paths make

`x_object_mkpath` appends an object wherever its lookup finds none, and the lookup takes the first
son whose name begins the component.  Sons are appended behind the others, so a lookup that has
found an object keeps finding it; this is why a path that was made is found again.
-/

namespace Xwbot.Heap

open Links

variable {h h' h'' : Heap} {kids kids' kids'' : Kids} {o n p x : Addr} {c : Text}

/-- The links represent `kids`, no object points to one that is yet to be allocated, and every
chain of names ends. -/
structure Orderly (h : Heap) (kids : Kids) : Prop where
  rep : h.Rep kids
  allocated : ∀ x, h.live x = true → ∀ p, h.parent x = some p → p < h.top
  chained : h.Chained

theorem Orderly.linked (orderly : h.Orderly kids) : h.Linked :=
  ⟨⟨kids, orderly.rep⟩, orderly.allocated⟩

/-- Objects have been added behind the sons of others. -/
structure Grew (h : Heap) (kids : Kids) (h' : Heap) (kids' : Kids) : Prop where
  live : ∀ y, h.live y = true → h'.live y = true
  name : ∀ y, h.live y = true → h'.name y = h.name y
  parent : ∀ y, h.live y = true → h'.parent y = h.parent y
  kids : ∀ y, h.live y = true → kids y <+: kids' y

theorem Grew.refl (h : Heap) (kids : Kids) : Grew h kids h kids :=
  ⟨fun _ alive => alive, fun _ _ => rfl, fun _ _ => rfl, fun _ _ => List.prefix_refl _⟩

theorem Grew.trans (first : Grew h kids h' kids') (second : Grew h' kids' h'' kids'') :
    Grew h kids h'' kids'' where
  live y alive := second.live y (first.live y alive)
  name y alive := (second.name y (first.live y alive)).trans (first.name y alive)
  parent y alive := (second.parent y (first.live y alive)).trans (first.parent y alive)
  kids y alive := (first.kids y alive).trans (second.kids y (first.live y alive))

/-- A lookup goes on finding what it has found. -/
theorem Grew.getChild (grew : Grew h kids h' kids') (orderly : h.Orderly kids)
    (orderly' : h'.Orderly kids') (alive : h.live p = true)
    (found : h.getChild (some p) (some c) = .ok (some x)) :
    h'.getChild (some p) (some c) = .ok (some x) := by
  rw [orderly.rep.getChild alive, Except.ok.injEq] at found
  rw [orderly'.rep.getChild (grew.live p alive), Except.ok.injEq]
  rcases grew.kids p alive with ⟨more, kids_eq⟩
  have names : ∀ y ∈ kids p, eqnText (h'.name y) c = eqnText (h.name y) c := fun y member => by
    rw [grew.name y (orderly.rep.live_of_mem alive member)]
  have same : h'.firstNamed (kids p) c = some x := by
    rw [← found]
    exact List.find?_congr names
  rw [← kids_eq, firstNamed, List.find?_append]
  rw [firstNamed] at same
  rw [same, Option.some_or]

theorem Orderly.live_of_getChild (orderly : h.Orderly kids) (alive : h.live p = true)
    (found : h.getChild (some p) (some c) = .ok (some x)) :
    h.live x = true ∧ h.parent x = some p := by
  rw [orderly.rep.getChild alive, Except.ok.injEq] at found
  have member : x ∈ kids p := List.mem_of_find?_eq_some found
  exact ⟨orderly.rep.live_of_mem alive member, orderly.rep.parent_of_mem alive member⟩

/-! ## One component -/

/-- The new object is found under its own name. -/
theorem eqnText_objectName (c : Text) : eqnText (objectName c) c = true := by
  rw [eqnText_iff]
  exact List.IsPrefix.map _ ((List.takeWhile_prefix _).trans (List.takeWhile_prefix _))

/-- `x_object_append_child` for an object without a parent. -/
theorem Orderly.appendChild (orderly : h.Orderly kids) (alive : h.live p = true)
    (aliveX : h.live x = true) (orphan : h.parent x = none) :
    ∃ h', h.appendChild p x = .ok h' ∧ h'.Orderly (extend p x kids) ∧ h.top < h'.top ∧
      h'.live = h.live ∧ (∀ y, h.live y = true → h'.name y = h.name y) ∧
      ∀ y, h.live y = true → h'.parent y = Function.update h.parent x (some p) y := by
  rcases orderly.linked.appendChildNoCb orderly.chained alive aliveX orphan with
    ⟨h₁, appended, chained⟩
  have linked := orderly.linked.appended orphan appended
  rcases appended_of_appendChildNoCb appended with ⟨-, -, changed⟩
  have parents : ∀ q, h₁.parent x = some q → h₁.live q = true := by
    intro q parent_eq
    rw [changed.parent, Function.update_self] at parent_eq
    cases parent_eq
    rw [changed.live, alive]
  rcases notify_eq_ok h₁ with ⟨h', notified, agree, top_eq⟩
  have longer : h₁.top ≤ h'.top := top_eq ▸ Nat.le_succ h₁.top
  refine ⟨h', ?_, ⟨(orderly.rep.appended orphan appended).agree agree,
    (linked.agree agree longer).allocated, chained.agree agree⟩, ?_, ?_, fun y aliveY => ?_,
    fun y aliveY => ?_⟩
  · simp only [Heap.appendChild, appended, ok_bind, linked.getIndex parents, notified]
  · rw [top_eq, changed.top]
    exact Nat.lt_succ_self _
  · rw [agree.live, changed.live]
  · rw [agree.name y (by rw [changed.live, aliveY]), changed.name]
  · rw [agree.parent y (by rw [changed.live, aliveY]), changed.parent]

/-- A new object. -/
theorem Orderly.alloc (orderly : h.Orderly kids) (name : Text) (objclass : Option Nat) :
    (h.alloc name objclass).1.Orderly (Function.update kids h.top []) :=
  ⟨orderly.rep.alloc orderly.allocated name objclass,
    (orderly.linked.alloc name objclass).allocated, orderly.chained.alloc name objclass⟩

/-- New objects are in order. -/
theorem orderly_newObjects (names : List Text) : ∃ kids, (newObjects names).Orderly kids := by
  induction names with
  | nil =>
      refine ⟨fun _ => [], (fresh_newObjects []).rep, fun x alive => ?_, fun x alive => ?_,
        fun x alive => ?_⟩ <;> cases alive
  | cons name rest ih =>
      rcases ih with ⟨kids, orderly⟩
      exact ⟨_, orderly.alloc name none⟩

/-- **Spec of one turn of `x_object_mkpath`**, if a new object's name has room. -/
theorem childOrNew_spec (orderly : h.Orderly kids) (alive : h.live o = true) (c : Text)
    (fits : h.getChild (some o) (some c) = .ok none → NameFits (objectName c)) :
    ∃ h' n kids', h.childOrNew o c = .ok (h', n) ∧ h'.Orderly kids' ∧ Grew h kids h' kids' ∧
      h'.live n = true ∧ h'.getChild (some o) (some c) = .ok (some n) := by
  have looked := orderly.rep.getChild alive c
  unfold Heap.childOrNew
  cases first : h.firstNamed (kids o) c with
  | some x =>
      rw [first] at looked
      refine ⟨h, x, kids, by rw [looked, ok_bind], orderly, Grew.refl h kids, ?_, looked⟩
      exact (orderly.live_of_getChild alive looked).1
  | none =>
      rw [first] at looked
      have old : ∀ y, h.live y = true → y ≠ h.top := fun y aliveY => ne_top aliveY
      have aliveO : (h.alloc (objectName c) none).1.live o = true := by
        rw [alloc_fst_live, Function.update_of_ne (old o alive), alive]
      have aliveN : (h.alloc (objectName c) none).1.live h.top = true := Function.update_self ..
      have orphan : (h.alloc (objectName c) none).1.parent h.top = none := Function.update_self ..
      rcases (orderly.alloc (objectName c) none).appendChild aliveO aliveN orphan with
        ⟨h', appended, orderly', -, live_eq, name_eq, parent_eq⟩
      have lives : ∀ y, h.live y = true → (h.alloc (objectName c) none).1.live y = true :=
        fun y aliveY => by rw [alloc_fst_live, Function.update_of_ne (old y aliveY), aliveY]
      have grew : Grew h kids h' (extend o h.top (Function.update kids h.top [])) := by
        refine ⟨fun y aliveY => ?_, fun y aliveY => ?_, fun y aliveY => ?_, fun y aliveY => ?_⟩
        · rw [live_eq, lives y aliveY]
        · rw [name_eq y (lives y aliveY), alloc_fst_name, Function.update_of_ne (old y aliveY)]
        · rw [parent_eq y (lives y aliveY), Function.update_of_ne (old y aliveY), alloc_fst_parent,
            Function.update_of_ne (old y aliveY)]
        · rw [extend]
          by_cases same : y = o
          · subst same
            rw [Function.update_self, Function.update_of_ne (old y aliveY)]
            exact List.prefix_append _ _
          · rw [Function.update_of_ne same, Function.update_of_ne (old y aliveY)]
      have aliveN' : h'.live h.top = true := by rw [live_eq, aliveN]
      refine ⟨h', h.top, _, ?_, orderly', grew, aliveN', ?_⟩
      · rw [looked, ok_bind]
        simp only [newObject_eq, if_pos (fits looked), ok_bind, alloc_snd, appended]
      · rw [orderly'.rep.getChild (grew.live o alive), extend, Function.update_self,
          Function.update_of_ne (old o alive), firstNamed, List.find?_append]
        have others : (kids o).find? (fun y => eqnText (h'.name y) c) = none := by
          rw [← first]
          exact List.find?_congr fun y member => by
            rw [grew.name y (orderly.rep.live_of_mem alive member)]
        have named : h'.name h.top = objectName c := by
          rw [name_eq h.top aliveN, alloc_fst_name, Function.update_self]
        rw [others, Option.none_or, List.find?_cons_of_pos]
        rw [named, eqnText_objectName]

/-! ## All components -/

/-- From `o` the components lead to `n`: each time the first son whose name begins the component
is taken. -/
inductive Leads (h : Heap) : Addr → List Text → Addr → Prop where
  | here {o : Addr} : Leads h o [] o
  | down {o x n : Addr} {l : List Addr} {c : Text} {rest : List Text}
      (sons : Path h.sibling (h.sons o) l none) (first : h.firstNamed l c = some x)
      (further : Leads h x rest n) : Leads h o (c :: rest) n

variable {l : List Addr} {comps rest : List Text}

theorem Orderly.leads_cons_iff (orderly : h.Orderly kids) (alive : h.live o = true) :
    Leads h o (c :: rest) n ↔
      ∃ x, h.getChild (some o) (some c) = .ok (some x) ∧ Leads h x rest n := by
  rw [orderly.rep.getChild alive]
  constructor
  · rintro (_ | ⟨sons, first, further⟩)
    refine ⟨_, ?_, further⟩
    rw [sons.unique (orderly.rep.path o alive)] at first
    rw [first]
  · rintro ⟨x, first, further⟩
    exact .down (orderly.rep.path o alive) (Except.ok.inj first) further

/-- **`Heap.descend`** finds what the components lead to. -/
theorem Orderly.descend_eq (orderly : h.Orderly kids) (alive : h.live o = true)
    (comps : List Text) :
    ∃ found, h.descend (some o) comps = .ok found ∧ ∀ n, found = some n ↔ Leads h o comps n := by
  induction comps generalizing o with
  | nil =>
      refine ⟨some o, rfl, fun n => ?_⟩
      constructor
      · rintro ⟨⟩
        exact .here
      · rintro ⟨⟩
        rfl
  | cons c rest ih =>
      have looked := orderly.rep.getChild alive c
      cases first : h.firstNamed (kids o) c with
      | none =>
          rw [first] at looked
          refine ⟨none, ?_, fun n => ?_⟩
          · rw [descend, looked, ok_bind]
            cases rest <;> rfl
          · rw [orderly.leads_cons_iff alive, looked]
            simp
      | some x =>
          rw [first] at looked
          rcases ih (orderly.live_of_getChild alive looked).1 with ⟨found, down, leads⟩
          refine ⟨found, by rw [descend, looked, ok_bind, down], fun n => ?_⟩
          rw [orderly.leads_cons_iff alive, looked, leads n]
          simp

/-- What components lead to does not change when objects are added. -/
theorem Leads.grew (leads : Leads h o comps n) (grew : Grew h kids h' kids')
    (orderly : h.Orderly kids) (orderly' : h'.Orderly kids') (alive : h.live o = true) :
    Leads h' o comps n := by
  induction comps generalizing o with
  | nil =>
      cases leads
      exact .here
  | cons c rest ih =>
      rcases (orderly.leads_cons_iff alive).mp leads with ⟨x, found, further⟩
      have aliveX := (orderly.live_of_getChild alive found).1
      exact (orderly'.leads_cons_iff (grew.live o alive)).mpr
        ⟨x, grew.getChild orderly orderly' alive found, ih further aliveX⟩

/-- One component leads one object further from the root. -/
theorem Leads.ancestors (leads : Leads h o comps n) (orderly : h.Orderly kids)
    (alive : h.live o = true) (above : Path h.parent (some o) l none) :
    ∃ l', Path h.parent (some n) l' none ∧ l'.length = comps.length + l.length := by
  induction comps generalizing o l with
  | nil =>
      cases leads
      exact ⟨l, above, (Nat.zero_add _).symm⟩
  | cons c rest ih =>
      rcases (orderly.leads_cons_iff alive).mp leads with ⟨x, found, further⟩
      rcases orderly.live_of_getChild alive found with ⟨aliveX, parent_eq⟩
      have longer : Path h.parent (some x) (x :: l) none := ⟨rfl, by rwa [parent_eq]⟩
      rcases ih further aliveX longer with ⟨l', path, length_eq⟩
      refine ⟨l', path, ?_⟩
      rw [length_eq, List.length_cons, List.length_cons]
      omega

/-- No component leads back to where it started from. -/
theorem Leads.ne_start (leads : Leads h o comps n) (orderly : h.Orderly kids)
    (alive : h.live o = true) (above : Path h.parent (some o) l none) (some : comps ≠ []) :
    n ≠ o := by
  rintro rfl
  rcases leads.ancestors orderly alive above with ⟨l', path, length_eq⟩
  rw [path.unique above] at length_eq
  have positive := List.length_pos_iff.mpr some
  omega

/-- The components from the first one on that leads to no object: `x_object_mkpath` makes one for
each of them. -/
def missing (h : Heap) : Addr → List Text → Except Fault (List Text)
  | _, [] => .ok []
  | o, c :: rest => do
      match ← h.getChild (some o) (some c) with
      | some child => h.missing child rest
      | none => .ok (c :: rest)

/-- The objects that `x_object_mkpath` makes get names that have room. -/
def Roomy (h : Heap) (o : Addr) (comps : List Text) : Prop :=
  ∀ new, h.missing o comps = .ok new → ∀ c ∈ new, NameFits (objectName c)

theorem missing_subset {new : List Text} (result : h.missing o comps = .ok new) : new ⊆ comps := by
  induction comps generalizing o with
  | nil =>
      cases result
      exact List.Subset.refl _
  | cons c rest ih =>
      rcases bind_eq_ok_iff.mp result with ⟨found, -, further⟩
      cases found with
      | none =>
          cases further
          exact List.Subset.refl _
      | some child => exact List.Subset.trans (ih further) (List.subset_cons_self c rest)

/-- The first object that is missing has a name with room. -/
theorem Roomy.fits (roomy : h.Roomy o (c :: rest))
    (absent : h.getChild (some o) (some c) = .ok none) : NameFits (objectName c) := by
  apply roomy (c :: rest) ?_ c List.mem_cons_self
  rw [missing, absent]
  rfl

/-- Behind the first component, whether its object was there or has been made, too. -/
theorem Roomy.behind (roomy : h.Roomy o (c :: rest)) (made : h.childOrNew o c = .ok (h', x)) :
    h'.Roomy x rest := by
  rcases bind_eq_ok_iff.mp made with ⟨found, looked, further⟩
  cases found with
  | some child =>
      cases further
      intro new missed
      apply roomy new
      rw [missing, looked]
      exact missed
  | none =>
      intro new missed c' member
      apply roomy (c :: rest) ?_ c' (List.mem_cons_of_mem c (missing_subset missed member))
      rw [missing, looked]
      rfl

/-- **Spec of the loop of `x_object_mkpath`.**  The components lead to the object that is
returned, and everything that was there stays where it was. -/
theorem Orderly.create (orderly : h.Orderly kids) (alive : h.live o = true) (comps : List Text)
    (roomy : h.Roomy o comps) :
    ∃ h' n kids', create h o comps = .ok (h', n) ∧ h'.Orderly kids' ∧ Grew h kids h' kids' ∧
      Leads h' o comps n := by
  induction comps generalizing h kids o with
  | nil => exact ⟨h, o, kids, rfl, orderly, Grew.refl h kids, .here⟩
  | cons c rest ih =>
      rcases childOrNew_spec orderly alive c roomy.fits with
        ⟨h₁, x, kids₁, made, orderly₁, grew₁, aliveX, found⟩
      rcases ih orderly₁ aliveX (roomy.behind made) with
        ⟨h₂, n, kids₂, created, orderly₂, grew₂, leads⟩
      refine ⟨h₂, n, kids₂, ?_, orderly₂, grew₁.trans grew₂, ?_⟩
      · rw [Heap.create, made, ok_bind]
        exact created
      · have alive₁ := grew₁.live o alive
        exact (orderly₂.leads_cons_iff (grew₂.live o alive₁)).mpr
          ⟨x, grew₂.getChild orderly₁ orderly₂ alive₁ found, leads⟩

/-! ## Both walkers -/

/-- The components that `x_object_from_path` looks for: those of the path, and what stands behind
the copy if it gets there. -/
def lookups (mem : Memory) (path : Text) : List Text :=
  steps isPathEnd path ++
    if Whole isPathEnd path ∧ behindWord (mem.beyond (path ++ [0])) ≠ [] then
      [behindWord (mem.beyond (path ++ [0]))]
    else []

theorem descend_append (h : Heap) (obj : Option Addr) (comps rest : List Text) :
    h.descend obj (comps ++ rest) = h.descend obj comps >>= fun obj => h.descend obj rest := by
  induction comps generalizing obj with
  | nil => rfl
  | cons c comps ih =>
      cases obj with
      | none =>
          rw [List.cons_append, descend, descend, ok_bind]
          cases rest <;> rfl
      | some o =>
          rw [List.cons_append, descend, descend]
          cases h.getChild (some o) (some c) with
          | error fault => rfl
          | ok obj => exact ih obj

theorem overstep_eq (h : Heap) (word : Text) (obj : Option Addr) :
    h.overstep word obj = h.descend obj (if word ≠ [] then [word] else []) := by
  by_cases empty : word = []
  · cases obj <;> simp [overstep, descend, empty]
  · cases obj with
    | none => simp [overstep, descend, empty]
    | some o =>
        simp only [overstep, descend, empty, if_false, ne_eq, not_false_eq_true, if_true]
        cases h.getChild (some o) (some word) <;> rfl

variable {ctx : Addr} {path : Text}

/-- **`x_object_from_path`** returns what its components lead to, and the context if they lead
nowhere. -/
theorem Orderly.fromPath_leads (orderly : h.Orderly kids) (alive : h.live ctx = true)
    (mem : Memory) (noNul : 0 ∉ path) :
    ∃ obj touched, h.fromPath mem ctx path = .ok (obj, touched) ∧
      ∀ n, n = obj ↔ Leads h ctx (lookups mem path) n ∨
        n = ctx ∧ ∀ m, ¬Leads h ctx (lookups mem path) m := by
  rcases orderly.descend_eq alive (lookups mem path) with ⟨found, down, leads⟩
  have first : Prod.fst <$> h.fromPath mem ctx path = .ok (found.getD ctx) := by
    rw [fromPath_eq mem h ctx noNul]
    rw [lookups, descend_append] at down
    have same : (h.descend (some ctx) (steps isPathEnd path) >>= fun obj =>
        if Whole isPathEnd path then h.overstep (behindWord (mem.beyond (path ++ [0]))) obj
        else .ok obj) = .ok found := by
      rw [← down]
      congr 1
      funext obj
      by_cases whole : Whole isPathEnd path
      · simp only [whole, if_true, true_and, overstep_eq]
      · simp only [whole, if_false, false_and]
        cases obj <;> rfl
    rw [same, ok_bind]
  cases result : h.fromPath mem ctx path with
  | error fault =>
      rw [result] at first
      cases first
  | ok r =>
      rw [result] at first
      refine ⟨r.1, r.2, rfl, fun n => ?_⟩
      have obj_eq : r.1 = found.getD ctx := Except.ok.inj first
      rw [obj_eq, ← leads n]
      cases found with
      | none =>
          have nowhere : ∀ m, ¬Leads h ctx (lookups mem path) m :=
            fun m led => by cases (leads m).mpr led
          simp [nowhere]
      | some found =>
          have led := (leads found).mp rfl
          rw [Option.getD_some, Option.some.injEq]
          constructor
          · exact fun same => .inl same.symm
          · rintro (same | ⟨-, nowhere⟩)
            · exact same.symm
            · exact absurd led (nowhere found)

/-- **`x_object_from_path`** returns the context itself exactly if it looks for nothing, or its
components lead nowhere. -/
theorem Orderly.fromPath (orderly : h.Orderly kids) (alive : h.live ctx = true)
    (above : Path h.parent (some ctx) l none) (mem : Memory) (noNul : 0 ∉ path) :
    ∃ obj touched, h.fromPath mem ctx path = .ok (obj, touched) ∧
      (obj = ctx ↔ lookups mem path = [] ∨ ∀ n, ¬Leads h ctx (lookups mem path) n) := by
  rcases orderly.fromPath_leads alive mem noNul with ⟨obj, touched, result, leads⟩
  refine ⟨obj, touched, result, ?_⟩
  rw [eq_comm, leads ctx]
  simp only [true_and]
  apply or_congr_left
  constructor
  · intro led
    by_contra nonempty
    exact led.ne_start orderly alive above nonempty rfl
  · intro nothing
    rw [nothing]
    exact .here

/-- **`x_object_mkpath`** makes the components lead somewhere. -/
theorem Orderly.mkpath (orderly : h.Orderly kids) (alive : h.live ctx = true) (mem : Memory)
    (noNul : 0 ∉ path) (roomy : h.Roomy ctx (steps isSep path)) :
    ∃ h' n touched kids', h.mkpath mem ctx path = .ok (h', n, touched) ∧ h'.Orderly kids' ∧
      Grew h kids h' kids' ∧ Leads h' ctx (steps isSep path) n := by
  rcases orderly.create alive (steps isSep path) roomy with ⟨h', n, kids', created, rest⟩
  have first := mkpath_eq mem h ctx noNul
  rw [created] at first
  cases result : h.mkpath mem ctx path with
  | error fault =>
      rw [result] at first
      cases first
  | ok r =>
      rw [result] at first
      cases Except.ok.inj first
      exact ⟨r.1, r.2.1, r.2.2, kids', rfl, rest⟩

end Xwbot.Heap
