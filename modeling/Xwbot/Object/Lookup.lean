import Xwbot.Object.TreeRun

/-!
# Looking up a child

`__x_object_get_child` compares as many bytes as the name of the child has before its
first line end, and not more.  A child whose name is only the beginning of the requested
one stops the search as well, so that the result is right as long as no such child stands
before the first one that is named exactly as requested.
-/

namespace Xwbot

open Links

/-- The name, up to its first line end, is the requested one. -/
def namedExactly (name cname : Text) : Bool :=
  eqText (lineOf name) cname

/-- The name, up to its first line end, is a beginning of the requested one and shorter. -/
def namedShorter (name cname : Text) : Bool :=
  eqnText name cname && !namedExactly name cname

theorem eqnText_of_namedExactly {name cname : Text} (exact : namedExactly name cname = true) :
    eqnText name cname = true := by
  rw [namedExactly, eqText, decide_eq_true_eq] at exact
  rw [eqnText_iff, exact]

/-- Searches for two conditions, one of which is stronger, find the same when nothing that
meets only the weaker one stands before all that meet both. -/
theorem find?_eq_find?_iff {α : Type*} {weak strong : α → Bool} {l : List α}
    (implies : ∀ x, strong x = true → weak x = true) : l.find? weak = l.find? strong ↔
      ∀ before x behind, l = before ++ x :: behind → weak x = true → strong x = false →
        ∃ y ∈ before, strong y = true := by
  induction l with
  | nil => simp
  | cons a rest ih =>
      cases weakA : weak a with
      | false =>
          have strongA : strong a = false := by
            by_contra both
            rw [implies a (by simpa using both)] at weakA
            cases weakA
          rw [List.find?_cons_of_neg (by simp [weakA]), List.find?_cons_of_neg
            (by simp [strongA]), ih]
          constructor
          · intro all before x behind split weakX strongX
            cases before with
            | nil =>
                cases split
                rw [weakA] at weakX
                cases weakX
            | cons b before =>
                cases split
                rcases all before x behind rfl weakX strongX with ⟨y, member, strongY⟩
                exact ⟨y, List.mem_cons_of_mem _ member, strongY⟩
          · intro all before x behind split weakX strongX
            rcases all (a :: before) x behind (by rw [split, List.cons_append]) weakX strongX with
              ⟨y, member, strongY⟩
            rcases List.mem_cons.mp member with rfl | member
            · rw [strongA] at strongY
              cases strongY
            · exact ⟨y, member, strongY⟩
      | true =>
          rw [List.find?_cons_of_pos weakA]
          cases strongA : strong a with
          | true =>
              rw [List.find?_cons_of_pos strongA]
              simp only [true_iff]
              intro before x behind split _ strongX
              cases before with
              | nil =>
                  cases split
                  rw [strongA] at strongX
                  cases strongX
              | cons b before =>
                  cases split
                  exact ⟨a, List.mem_cons_self, strongA⟩
          | false =>
              rw [List.find?_cons_of_neg (by simp [strongA])]
              constructor
              · intro found
                rw [List.find?_some found.symm] at strongA
                cases strongA
              · intro all
                rcases all [] a rest rfl weakA strongA with ⟨y, member, -⟩
                cases member

namespace Heap

variable {h : Heap} {kids : Kids} {p : Addr} {l : List Addr}

/-- The object has the children `l`, in this order. -/
structure Children (h : Heap) (p : Addr) (l : List Addr) : Prop where
  live : h.live p = true
  path : Path h.sibling (h.sons p) l none
  alive : ∀ x ∈ l, h.live x = true

theorem Rep.children (rep : h.Rep kids) (alive : h.live p = true) : h.Children p (kids p) :=
  ⟨alive, rep.path p alive, fun _ member => rep.live_of_mem alive member⟩

/-- The first child that is named as requested. -/
def exactlyNamed (h : Heap) (l : List Addr) (cname : Text) : Option Addr :=
  l.find? fun x => namedExactly (h.name x) cname

/-- Every child whose name is a shorter beginning of the requested one stands behind a child
that is named exactly as requested. -/
def Unshadowed (h : Heap) (l : List Addr) (cname : Text) : Prop :=
  ∀ before x behind, l = before ++ x :: behind → namedShorter (h.name x) cname = true →
    ∃ y ∈ before, namedExactly (h.name y) cname = true

/-- What the loop finds is the first child whose name begins the requested one. -/
theorem Children.getChild (children : h.Children p l) (cname : Text) :
    h.getChild (some p) (some cname) = .ok (h.firstNamed l cname) :=
  getChild_of_path children.live children.path children.alive cname

/-- A child that stops the search is found in the place of the right one unless that one
stands before it. -/
theorem firstNamed_eq_exactlyNamed_iff {cname : Text} :
    h.firstNamed l cname = h.exactlyNamed l cname ↔ h.Unshadowed l cname := by
  rw [firstNamed, exactlyNamed,
    find?_eq_find?_iff (fun _ exact => eqnText_of_namedExactly exact)]
  simp only [Unshadowed, namedShorter, Bool.and_eq_true, Bool.not_eq_true', and_imp]

/-- **Child lookup.**  The lookup returns the first child that is named as requested, and
NULL if there is none, exactly when no child with a name that is a shorter beginning of the
requested one stands before all children that are named so. -/
theorem getChild_exact_iff_unshadowed (children : h.Children p l) (cname : Text) :
    h.getChild (some p) (some cname) = .ok (h.exactlyNamed l cname) ↔ h.Unshadowed l cname := by
  rw [children.getChild cname, Except.ok.injEq]
  exact firstNamed_eq_exactlyNamed_iff

/-- The parent with the children `a` and `ab`, in this order. -/
def shadowing : Except Fault Heap :=
  (newObjects [lit "ab", lit "a", lit "p"]).execAll [.appendChild 0 1, .appendChild 0 2]

theorem getChild_exact_iff_unshadowed_pair :
    ∃ h, shadowing = .ok h ∧ h.Children 0 [1, 2] ∧
      (h.getChild (some 0) (some (lit "a")) = .ok (h.exactlyNamed [1, 2] (lit "a")) ↔
        h.Unshadowed [1, 2] (lit "a")) := by
  rcases (⟨_, rfl, rfl, ⟨rfl, rfl, rfl⟩, rfl, rfl⟩ : ∃ h, shadowing = .ok h ∧ h.live 0 = true ∧
      Path h.sibling (h.sons 0) [1, 2] none ∧ h.live 1 = true ∧ h.live 2 = true) with
    ⟨h, result, live, path, first, second⟩
  have children : h.Children 0 [1, 2] := by
    constructor
    case live => exact live
    case path => exact path
    case alive => simp [first, second]
  exact ⟨h, result, children, getChild_exact_iff_unshadowed children (lit "a")⟩

/-- A request for `ab` is answered with the child `a`. -/
theorem not_getChild_exact_shadowed :
    ∃ h, shadowing = .ok h ∧ h.Children 0 [1, 2] ∧
      h.getChild (some 0) (some (lit "ab")) = .ok (some 1) ∧
      h.exactlyNamed [1, 2] (lit "ab") = some 2 ∧ h.name 1 = lit "a" := by
  rcases (⟨_, rfl, rfl, ⟨rfl, rfl, rfl⟩, rfl, rfl, rfl, rfl, rfl⟩ :
      ∃ h, shadowing = .ok h ∧ h.live 0 = true ∧ Path h.sibling (h.sons 0) [1, 2] none ∧
        h.live 1 = true ∧ h.live 2 = true ∧ h.getChild (some 0) (some (lit "ab")) = .ok (some 1) ∧
        h.exactlyNamed [1, 2] (lit "ab") = some 2 ∧ h.name 1 = lit "a") with
    ⟨h, result, live, path, first, second, found, wanted, name_eq⟩
  refine ⟨h, result, ⟨live, path, ?_⟩, found, wanted, name_eq⟩
  simp [first, second]

end Heap

end Xwbot
