import Xwbot.HashTable
import Xwbot.Rings
import Xwbot.Runs

/-!
# Path listeners

The listeners of a path are linked in a ring, which is entered at the one that the table
holds.  A removal that does not come across its listener sets its pointer to NULL at the end
of the ring, and then lets the loop take a step from there.
-/

namespace Xwbot

open Links Runs

/-- The listeners, which are numbered. -/
structure PathListeners where
  /-- `x_path_listeners_tbl`. -/
  table : Table Nat
  /-- The field `entry.next` of a listener. -/
  next : Nat → Option Nat
  /-- The field `entry.prev` of a listener. -/
  prev : Nat → Option Nat

/-- A call into the part of the factory that keeps the listeners. -/
inductive PathCall where
  | add (path : Text) (lstnr : Nat)
  | remove (path : Text) (lstnr : Nat)
  | notify (path : Text)
  deriving DecidableEq, Repr

namespace PathListeners

/-- The table before anything is registered. -/
def empty : PathListeners where
  table := .empty
  next _ := none
  prev _ := none

/-- `xw_list_init`. -/
def listInit (s : PathListeners) (l : Nat) : PathListeners :=
  { s with prev := Function.update s.prev l (some l), next := Function.update s.next l (some l) }

/-- `xw_list_insert`. -/
def listInsert (s : PathListeners) (l e : Nat) : Except Fault PathListeners :=
  let s := { s with prev := Function.update s.prev e (some l) }
  let s := { s with next := Function.update s.next e (s.next l) }
  let s := { s with next := Function.update s.next l (some e) }
  match s.next e with
  | none => .error .segv
  | some behind => .ok { s with prev := Function.update s.prev behind (some e) }

/-- `xw_list_remove`. -/
def listRemove (s : PathListeners) (e : Nat) : Except Fault PathListeners :=
  match s.prev e with
  | none => .error .segv
  | some before =>
      let s := { s with next := Function.update s.next before (s.next e) }
      match s.next e with
      | none => .error .segv
      | some behind => .ok { s with prev := Function.update s.prev behind (s.prev e) }

/-- The loop of `x_path_listeners_notify`: the listeners that are called. -/
def notifyLoop (onXPathEvent : Nat → Bool) (next : Nat → Option Nat) (head : Nat) :
    Nat → Nat → Except Fault (List Nat)
  | 0, _ => .error .hang
  | turns + 1, le =>
      let called := if onXPathEvent le then [le] else []
      match next le with
      | none => .ok called
      | some behind =>
          if behind = head then .ok called
          else (notifyLoop onXPathEvent next head turns behind).map (called ++ ·)

/-- `x_path_listeners_notify`.  A listener without the callback is passed over. -/
def notify (onXPathEvent : Nat → Bool) (turns : Nat) (s : PathListeners) (path : Text) :
    Except Fault (List Nat) :=
  match s.table.htGet path with
  | none => .ok []
  | some head => notifyLoop onXPathEvent s.next head turns head

/-- `x_path_listener_add`. -/
def add (s : PathListeners) (path : Text) (lstnr : Nat) : Except Fault PathListeners :=
  let s := s.listInit lstnr
  match s.table.htGet path with
  | none => .ok { s with table := s.table.htSet path lstnr }
  | some head => s.listInsert head lstnr

/-- The loop of `x_path_listener_remove`. -/
def removeLoop (next : Nat → Option Nat) (head lstnr : Nat) :
    Nat → Option Nat → Except Fault (Option Nat)
  | _, none => .ok none
  | 0, some _ => .error .hang
  | turns + 1, some le =>
      if le = lstnr then .ok (some le)
      -- at the end of the ring `le` becomes NULL, and the loop goes on with `le->next`
      else if next le = some head then .error .segv
      else removeLoop next head lstnr turns (next le)

/-- `x_path_listener_remove`. -/
def remove (turns : Nat) (s : PathListeners) (path : Text) (lstnr : Nat) :
    Except Fault PathListeners :=
  match s.table.htGet path with
  | none => .ok s
  | some head =>
      if s.next head = some head then
        .ok (if lstnr = head then { s with table := s.table.htDel path } else s)
      else do
        let le ← removeLoop s.next head lstnr turns (some head)
        match le with
        | none => .ok s
        | some le => do
            let s ← if le = head then
                match s.next le with
                | none => .error .segv
                | some behind => .ok { s with table := s.table.htSet path behind }
              else .ok s
            s.listRemove le

/-- The listeners after a call. -/
def step (onXPathEvent : Nat → Bool) (turns : Nat) (s : PathListeners) :
    PathCall → Except Fault PathListeners
  | .add path lstnr => s.add path lstnr
  | .remove path lstnr => s.remove turns path lstnr
  | .notify path => (s.notify onXPathEvent turns path).map fun _ => s

end PathListeners

/-! ## The sets that the calls describe -/

/-- What a call does to the sets of listeners. -/
def PathCall.after (reg : Text → List Nat) : PathCall → Text → List Nat
  | add path lstnr => Function.update reg path (lstnr :: reg path)
  | remove path lstnr => Function.update reg path ((reg path).filter (· ≠ lstnr))
  | notify _ => reg

/-- The listeners that are registered under each path after the calls. -/
def registeredListeners (calls : List PathCall) : Text → List Nat :=
  calls.foldl PathCall.after fun _ => []

/-- The calls add only listeners that are not registered. -/
def AddsNew (calls : List PathCall) : Prop :=
  ∀ before path x behind, calls = before ++ .add path x :: behind →
    ∀ path', x ∉ registeredListeners before path'

/-- The calls remove only listeners that are registered under the path, except from a path
with at most one listener. -/
def Removable (calls : List PathCall) : Prop :=
  ∀ before path x behind, calls = before ++ .remove path x :: behind →
    x ∈ registeredListeners before path ∨ (registeredListeners before path).length ≤ 1

section Sets

variable {calls : List PathCall} {call : PathCall} {path : Text} {x : Nat} {reg : Text → List Nat}

theorem registeredListeners_concat :
    registeredListeners (calls ++ [call]) = call.after (registeredListeners calls) := by
  rw [registeredListeners, List.foldl_append]
  rfl

/-- Removing what is not there changes no set. -/
theorem PathCall.after_remove_of_notMem (absent : x ∉ reg path) :
    (PathCall.remove path x).after reg = reg := by
  have same : (reg path).filter (· ≠ x) = reg path := by
    rw [List.filter_eq_self]
    intro y member
    simpa using ne_of_mem_of_not_mem member absent
  rw [after, same, Function.update_eq_self]

theorem length_registeredListeners_le : (registeredListeners calls path).length ≤ calls.length := by
  induction calls using List.reverseRecOn with
  | nil => exact Nat.le_refl 0
  | append_singleton before call ih =>
      rw [registeredListeners_concat, List.length_append, List.length_singleton]
      cases call with
      | notify path' => exact ih.trans (Nat.le_succ _)
      | add path' x =>
          by_cases same : path = path'
          · subst same
            rw [PathCall.after, Function.update_self, List.length_cons]
            omega
          · rw [PathCall.after, Function.update_of_ne same]
            omega
      | remove path' x =>
          by_cases same : path = path'
          · subst same
            rw [PathCall.after, Function.update_self]
            have le := List.length_filter_le (fun y => decide (y ≠ x))
              (registeredListeners before path)
            omega
          · rw [PathCall.after, Function.update_of_ne same]
            omega

theorem AddsNew.of_concat (new : AddsNew (calls ++ [call])) : AddsNew calls :=
  fun before path x behind split => new before path x (behind ++ [call]) (by simp [split])

theorem removable_concat : Removable (calls ++ [call]) ↔ Removable calls ∧
    ∀ path x, call = .remove path x →
      x ∈ registeredListeners calls path ∨ (registeredListeners calls path).length ≤ 1 := by
  constructor
  · intro removable
    constructor
    · exact fun before path x behind split =>
        removable before path x (behind ++ [call]) (by simp [split])
    · rintro path x rfl
      exact removable calls path x [] rfl
  · rintro ⟨earlier, last⟩ before path x behind split
    rcases List.eq_nil_or_concat behind with rfl | ⟨behind, final, rfl⟩
    · rcases List.append_inj' split rfl with ⟨rfl, same⟩
      exact last path x (List.head_eq_of_cons_eq same)
    · rw [List.concat_eq_append, ← List.cons_append, ← List.append_assoc] at split
      rcases List.append_inj' split rfl with ⟨rfl, -⟩
      exact earlier before path x behind rfl

end Sets

/-! ## The rings hold the sets -/

namespace PathListeners

variable {s s' : PathListeners} {reg : Text → List Nat} {path : Text} {x head le turns : Nat}
  {rest : List Nat} {onXPathEvent : Nat → Bool} {calls : List PathCall} {call : PathCall}

/-- Every path with listeners has its ring, and the rings are apart. -/
structure Holds (s : PathListeners) (reg : Text → List Nat) : Prop where
  distinct : s.table.Distinct
  cleared : ∀ path, s.table.htGet path = none → reg path = []
  ring : ∀ path head, s.table.htGet path = some head →
    ∃ rest, Ring s.next s.prev head rest ∧ (head :: rest).Perm (reg path)
  apart : ∀ path path' x, x ∈ reg path → x ∈ reg path' → path = path'

theorem holds_empty : empty.Holds fun _ => [] where
  distinct := .empty
  cleared _ _ := rfl
  ring _ _ found := by cases found
  apart _ _ _ member := by cases member

theorem Holds.nodup (holds : s.Holds reg) : (reg path).Nodup := by
  cases found : s.table.htGet path with
  | none =>
      rw [holds.cleared path found]
      exact List.nodup_nil
  | some head =>
      rcases holds.ring path head found with ⟨rest, ring, perm⟩
      exact perm.nodup_iff.mp ring.nodup

/-- The set of one path is replaced, and the links outside of its ring are kept. -/
theorem Holds.replace (holds : s.Holds reg) {new : List Nat} (distinct : s'.table.Distinct)
    (others : ∀ path', path' ≠ path → s'.table.htGet path' = s.table.htGet path')
    (links : ∀ y, y ∉ reg path → y ≠ x → s'.next y = s.next y ∧ s'.prev y = s.prev y)
    (fresh : ∀ path', path' ≠ path → x ∉ reg path') (subset : ∀ y ∈ new, y ∈ reg path ∨ y = x)
    (cleared : s'.table.htGet path = none → new = [])
    (ring : ∀ head, s'.table.htGet path = some head →
      ∃ rest, Ring s'.next s'.prev head rest ∧ (head :: rest).Perm new) :
    s'.Holds (Function.update reg path new) := by
  have outside : ∀ path', path' ≠ path → ∀ y ∈ reg path', y ∉ reg path ∧ y ≠ x := by
    intro path' other y member
    constructor
    · exact fun inside => other (holds.apart path' path y member inside)
    · rintro rfl
      exact fresh path' other member
  constructor
  case distinct => exact distinct
  case cleared =>
    intro path' found
    by_cases same : path' = path
    · subst same
      rw [Function.update_self]
      exact cleared found
    · rw [Function.update_of_ne same]
      exact holds.cleared path' ((others path' same).symm.trans found)
  case ring =>
    intro path' head found
    by_cases same : path' = path
    · subst same
      rw [Function.update_self]
      exact ring head found
    · rw [Function.update_of_ne same]
      rcases holds.ring path' head ((others path' same).symm.trans found) with ⟨rest, old, perm⟩
      refine ⟨rest, old.congr (fun y member => ?_) (fun y member => ?_), perm⟩
      · have apart := outside path' same y (perm.subset member)
        exact (links y apart.1 apart.2).1
      · have apart := outside path' same y (perm.subset member)
        exact (links y apart.1 apart.2).2
  case apart =>
    intro path₁ path₂ y first second
    by_cases one : path₁ = path
    · by_cases two : path₂ = path
      · rw [one, two]
      · rw [one, Function.update_self] at first
        rw [Function.update_of_ne two] at second
        have apart := outside path₂ two y second
        exact ((subset y first).elim apart.1 apart.2).elim
    · rw [Function.update_of_ne one] at first
      by_cases two : path₂ = path
      · rw [two, Function.update_self] at second
        have apart := outside path₁ one y first
        exact ((subset y second).elim apart.1 apart.2).elim
      · rw [Function.update_of_ne two] at second
        exact holds.apart path₁ path₂ y first second

/-! ### The loops -/

/-- The loop that notifies goes around once. -/
theorem notifyLoop_of_path {next : Nat → Option Nat}
    (path : Path next (some le) (le :: rest) (some head))
    (outside : head ∉ rest) (enough : rest.length < turns) :
    notifyLoop onXPathEvent next head turns le = .ok ((le :: rest).filter onXPathEvent) := by
  induction rest generalizing le turns with
  | nil =>
      cases turns with
      | zero => cases enough
      | succ turns =>
          have last : next le = some head := path.2
          rw [notifyLoop, last, List.filter_cons, List.filter_nil]
          simp only [if_true]
  | cons behind rest ih =>
      cases turns with
      | zero => cases enough
      | succ turns =>
          have first : next le = some behind := path.2.1
          have later := path.2
          rw [first] at later
          have other : behind ≠ head := fun same => outside (by simp [same])
          rw [notifyLoop, first]
          simp only [if_neg other]
          rw [ih later (fun member => outside (List.mem_cons_of_mem _ member))
            (by simpa using enough), List.filter_cons (x := le)]
          cases onXPathEvent le <;> rfl

/-- The loop that removes goes up to the listener; without the listener it ends in NULL. -/
theorem removeLoop_of_path {next : Nat → Option Nat} {lstnr : Nat}
    (path : Path next (some le) (le :: rest) (some head)) (outside : head ∉ rest)
    (enough : rest.length < turns) :
    removeLoop next head lstnr turns (some le) =
      if lstnr ∈ le :: rest then .ok (some lstnr) else .error .segv := by
  induction rest generalizing le turns with
  | nil =>
      cases turns with
      | zero => cases enough
      | succ turns =>
          have last : next le = some head := path.2
          rw [removeLoop]
          by_cases here : le = lstnr
          · rw [if_pos here, if_pos (by simp [here]), here]
          · rw [if_neg here, if_pos last, if_neg (by simpa using Ne.symm here)]
  | cons behind rest ih =>
      cases turns with
      | zero => cases enough
      | succ turns =>
          have first : next le = some behind := path.2.1
          have later := path.2
          rw [first] at later
          have other : some behind ≠ some head := fun same =>
            outside (by simp [Option.some.inj same])
          rw [removeLoop]
          by_cases here : le = lstnr
          · rw [if_pos here, if_pos (by simp [here]), here]
          · rw [if_neg here, first, if_neg other,
              ih later (fun member => outside (List.mem_cons_of_mem _ member))
                (by simpa using enough)]
            simp only [List.mem_cons, Ne.symm here, false_or]

variable (onXPathEvent) in
/-- **A notification** calls the listeners of the path. -/
theorem Holds.notify (holds : s.Holds reg) (enough : (reg path).length ≤ turns) :
    ∃ l, s.notify onXPathEvent turns path = .ok l ∧ l.Nodup ∧
      ∀ x, x ∈ l ↔ x ∈ reg path ∧ onXPathEvent x = true := by
  unfold PathListeners.notify
  cases found : s.table.htGet path with
  | none =>
      refine ⟨[], rfl, List.nodup_nil, fun x => ?_⟩
      rw [holds.cleared path found]
      simp
  | some head =>
      rcases holds.ring path head found with ⟨rest, ring, perm⟩
      have outside := (List.nodup_cons.mp ring.nodup).1
      have length_eq := perm.length_eq
      rw [List.length_cons] at length_eq
      refine ⟨_, notifyLoop_of_path ring.forward outside (by omega), ring.nodup.filter _, fun x =>
        ?_⟩
      rw [List.mem_filter, perm.mem_iff]

/-! ### Adding -/

/-- **A new listener** is linked behind the first one, or becomes the first one. -/
theorem Holds.add (holds : s.Holds reg) (new : ∀ path', x ∉ reg path') :
    ∃ s', s.add path x = .ok s' ∧ s'.Holds ((PathCall.add path x).after reg) := by
  have subset : ∀ y ∈ x :: reg path, y ∈ reg path ∨ y = x := by
    intro y member
    exact (List.mem_cons.mp member).symm
  unfold PathListeners.add PathCall.after
  dsimp only
  cases found : (s.listInit x).table.htGet path with
  | none =>
      refine ⟨_, rfl, ?_⟩
      have cleared : reg path = [] := holds.cleared path found
      refine holds.replace (x := x) holds.distinct.htSet (fun path' other => ?_)
        (fun y _ other => ?_)
        (fun path' _ => new path') subset (fun absent => ?_) (fun head first => ?_)
      · rw [Table.htGet_htSet, if_neg other]
        rfl
      · exact ⟨Function.update_of_ne other .., Function.update_of_ne other ..⟩
      · dsimp only at absent
        rw [Table.htGet_htSet, if_pos rfl] at absent
        cases absent
      · dsimp only at first
        rw [Table.htGet_htSet, if_pos rfl] at first
        cases first
        rw [cleared]
        exact ⟨[], Ring.single, List.Perm.refl _⟩
  | some head =>
      rcases holds.ring path head found with ⟨rest, ring, perm⟩
      have outside : x ∉ head :: rest := fun member => new path (perm.subset member)
      -- the list of the new listener is initialized before it is inserted
      have kept : Ring (s.listInit x).next (s.listInit x).prev head rest := by
        refine ring.congr (fun y member => ?_) (fun y member => ?_)
        · exact Function.update_of_ne (ne_of_mem_of_not_mem member outside) ..
        · exact Function.update_of_ne (ne_of_mem_of_not_mem member outside) ..
      have inserted := kept.insert outside
      have other : x ≠ head := fun same => outside (by simp [same])
      have behind_eq : (s.listInit x).next head = some (rest.head?.getD head) := kept.next_entry
      have result : (s.listInit x).listInsert head x = .ok
          { table := s.table
            next := Function.update (Function.update (s.listInit x).next x
              ((s.listInit x).next head))
              head (some x)
            prev := Function.update (Function.update (s.listInit x).prev x (some head))
              (rest.head?.getD head) (some x) } := by
        unfold listInsert
        dsimp only
        rw [Function.update_of_ne other, Function.update_self, behind_eq]
        rfl
      refine ⟨_, result, ?_⟩
      have inRing : rest.head?.getD head ∈ reg path := by
        apply perm.subset
        cases rest <;> simp
      have headIn : head ∈ reg path := perm.subset List.mem_cons_self
      refine holds.replace (x := x) holds.distinct (fun path' _ => rfl) (fun y apart other => ?_)
        (fun path' _ => new path') subset (fun absent => ?_) (fun first there => ?_)
      · have notHead : y ≠ head := fun same => apart (same ▸ headIn)
        have notBehind : y ≠ rest.head?.getD head := fun same => apart (same ▸ inRing)
        constructor
        · dsimp only
          rw [Function.update_of_ne notHead, Function.update_of_ne other]
          exact Function.update_of_ne other ..
        · dsimp only
          rw [Function.update_of_ne notBehind, Function.update_of_ne other]
          exact Function.update_of_ne other ..
      · cases absent.symm.trans found
      · have same : head = first := Option.some.inj (found.symm.trans there)
        rw [← same]
        exact ⟨x :: rest, inserted, (List.Perm.swap x head rest).trans (perm.cons x)⟩

/-! ### Removing -/

/-- `xw_list_remove` in a ring that is entered elsewhere. -/
theorem listRemove_of_ring {y : Nat} {l₁ l₂ : List Nat}
    (ring : Ring s.next s.prev y (l₁ ++ x :: l₂)) :
    ∃ s', s.listRemove x = .ok s' ∧ s'.table = s.table ∧ Ring s'.next s'.prev y (l₁ ++ l₂) ∧
      ∀ z, z ∉ y :: (l₁ ++ x :: l₂) → s'.next z = s.next z ∧ s'.prev z = s.prev z := by
  have nodup := ring.nodup
  have before_mem : l₁.getLast?.getD y ∈ y :: l₁ := by
    cases last : l₁.getLast? with
    | none => simp
    | some z => exact List.mem_cons_of_mem _ (List.mem_of_getLast? last)
  have behind_mem : l₂.head?.getD y ∈ y :: l₂ := by
    cases l₂ <;> simp
  have before_ne : x ≠ l₁.getLast?.getD y := by
    rw [← List.cons_append, List.nodup_append] at nodup
    exact fun same => nodup.2.2 _ before_mem x List.mem_cons_self same.symm
  refine ⟨{ table := s.table
            next := Function.update s.next (l₁.getLast?.getD y) (s.next x)
            prev := Function.update s.prev (l₂.head?.getD y) (s.prev x) }, ?_, rfl, ring.remove, ?_⟩
  · simp only [listRemove, ring.prev_eq, ring.next_eq, Function.update_of_ne before_ne]
  · intro z outside
    constructor
    · apply Function.update_of_ne
      rintro rfl
      exact outside (by rcases List.mem_cons.mp before_mem with same | member <;> simp_all)
    · apply Function.update_of_ne
      rintro rfl
      exact outside (by rcases List.mem_cons.mp behind_mem with same | member <;> simp_all)

theorem perm_filter_ne {l : List Nat} (l₁ l₂ : List Nat) (nodup : l.Nodup)
    (all : (l₁ ++ x :: l₂).Perm l) :
    (l₁ ++ l₂).Perm (l.filter (· ≠ x)) := by
  have front : (x :: (l₁ ++ l₂)).Perm l := List.perm_middle.symm.trans all
  have outside : x ∉ l₁ ++ l₂ := (List.nodup_cons.mp (front.nodup_iff.mpr nodup)).1
  have whole := front.filter fun z => decide (z ≠ x)
  rw [List.filter_cons_of_neg (by simp), List.filter_eq_self.mpr] at whole
  · exact whole
  · intro z there
    simpa using ne_of_mem_of_not_mem there outside

/-- A removal that finds its listener in a longer ring. -/
theorem Holds.remove_of_mem (holds : s.Holds reg) (found : s.table.htGet path = some head)
    (more : s.next head ≠ some head) (member : x ∈ reg path) (enough : (reg path).length ≤ turns) :
    ∃ s', s.remove turns path x = .ok s' ∧ s'.Holds ((PathCall.remove path x).after reg) := by
  rcases holds.ring path head found with ⟨rest, ring, perm⟩
  have outside := (List.nodup_cons.mp ring.nodup).1
  have length_eq := perm.length_eq
  rw [List.length_cons] at length_eq
  have inside : x ∈ head :: rest := perm.mem_iff.mpr member
  have searched : removeLoop s.next head x turns (some head) =
      if x ∈ head :: rest then .ok (some x) else .error .segv :=
    removeLoop_of_path ring.forward outside (by omega)
  rw [if_pos inside] at searched
  have fresh : ∀ path', path' ≠ path → x ∉ reg path' :=
    fun path' other there => other (holds.apart path' path x there member)
  have subset : ∀ y ∈ (reg path).filter (· ≠ x), y ∈ reg path ∨ y = x :=
    fun y there => .inl (List.mem_filter.mp there).1
  unfold PathListeners.remove
  simp only [found, if_neg more, searched, ok_bind]
  cases rest with
  | nil =>
      exact absurd ring.next_entry more
  | cons behind r =>
      by_cases first : x = head
      · -- the table gets the next listener
        subst first
        have next_eq : s.next x = some behind := ring.next_entry
        have rotated : Ring s.next s.prev behind (r ++ x :: []) := ring.rotate
        have rotated' : Ring { s with table := s.table.htSet path behind : PathListeners }.next
            { s with table := s.table.htSet path behind : PathListeners }.prev behind
              (r ++ x :: []) :=
          rotated
        rcases listRemove_of_ring rotated' with ⟨s', result, table_eq, ring', links⟩
        refine ⟨s', ?_, ?_⟩
        · rw [if_pos rfl, next_eq]
          exact result
        · rw [List.append_nil] at ring'
          have perm' : (behind :: (r ++ x :: [])).Perm (reg path) := by
            refine List.Perm.trans ?_ perm
            rw [← List.cons_append]
            exact List.perm_append_singleton x (behind :: r)
          have smaller := perm_filter_ne (behind :: r) [] holds.nodup perm'
          rw [List.append_nil] at smaller
          refine holds.replace (x := x) ?_ (fun path' other => ?_) (fun y apart other => ?_) fresh
            subset (fun absent => ?_) (fun head' there => ?_)
          · rw [table_eq]
            exact holds.distinct.htSet
          · rw [table_eq, Table.htGet_htSet, if_neg other]
          · exact links y fun there => apart (perm'.subset there)
          · rw [table_eq, Table.htGet_htSet, if_pos rfl] at absent
            cases absent
          · rw [table_eq, Table.htGet_htSet, if_pos rfl] at there
            cases there
            exact ⟨r, ring', smaller⟩
      · have later : x ∈ behind :: r := (List.mem_cons.mp inside).resolve_left first
        rcases List.append_of_mem later with ⟨l₁, l₂, split⟩
        rw [split] at ring perm
        rcases listRemove_of_ring ring with ⟨s', result, table_eq, ring', links⟩
        refine ⟨s', ?_, ?_⟩
        · rw [if_neg first]
          exact result
        · refine holds.replace (x := x) ?_ (fun path' _ => ?_) (fun y apart _ => ?_) fresh subset
            (fun absent => ?_) (fun head' there => ?_)
          · rw [table_eq]
            exact holds.distinct
          · rw [table_eq]
          · exact links y fun there => apart (perm.subset there)
          · rw [table_eq, found] at absent
            cases absent
          · rw [table_eq, found] at there
            cases there
            exact ⟨l₁ ++ l₂, ring', perm_filter_ne (head :: l₁) l₂ holds.nodup perm⟩

/-- **A removal** works if the path has the listener, or at most one; otherwise it follows a
NULL pointer. -/
theorem Holds.remove (holds : s.Holds reg) (enough : (reg path).length ≤ turns) :
    (x ∈ reg path ∨ (reg path).length ≤ 1 →
      ∃ s', s.remove turns path x = .ok s' ∧ s'.Holds ((PathCall.remove path x).after reg) ∧
        (x ∉ reg path → s' = s)) ∧
    (x ∉ reg path ∧ 1 < (reg path).length → s.remove turns path x = .error .segv) := by
  cases found : s.table.htGet path with
  | none =>
      have cleared := holds.cleared path found
      have unchanged : s.remove turns path x = .ok s := by
        unfold PathListeners.remove
        rw [found]
      constructor
      · rintro -
        refine ⟨s, unchanged, ?_, fun _ => rfl⟩
        rw [PathCall.after_remove_of_notMem (by simp [cleared])]
        exact holds
      · rintro ⟨-, many⟩
        rw [cleared] at many
        cases many
  | some head =>
      rcases holds.ring path head found with ⟨rest, ring, perm⟩
      have outside := (List.nodup_cons.mp ring.nodup).1
      have length_eq := perm.length_eq
      rw [List.length_cons] at length_eq
      cases rest with
      | nil =>
          have single : s.next head = some head := ring.next_entry
          have reg_eq : reg path = [head] := perm.singleton_eq.symm
          have short : ¬1 < (reg path).length := by simp [reg_eq]
          refine ⟨fun _ => ?_, fun both => absurd both.2 short⟩
          unfold PathListeners.remove
          simp only [found, if_pos single]
          by_cases same : x = head
          · rw [if_pos same]
            have now : (reg path).filter (· ≠ x) = [] := by simp [reg_eq, same]
            refine ⟨_, rfl, ?_, fun absent => absurd (by simp [reg_eq, same]) absent⟩
            rw [PathCall.after, now]
            refine holds.replace (x := x) holds.distinct.htDel (fun path' other => ?_)
              (fun y _ _ => ⟨rfl, rfl⟩) (fun path' other there => ?_) (by simp) (fun _ => rfl)
              (fun head' there => ?_)
            · dsimp only
              rw [Table.htGet_htDel holds.distinct, if_neg other]
            · exact other (holds.apart path' path x there (by simp [reg_eq, same]))
            · dsimp only at there
              rw [Table.htGet_htDel holds.distinct, if_pos rfl] at there
              cases there
          · rw [if_neg same]
            refine ⟨s, rfl, ?_, fun _ => rfl⟩
            rw [PathCall.after_remove_of_notMem (by simpa [reg_eq] using same)]
            exact holds
      | cons behind r =>
          have more : s.next head ≠ some head := by
            rw [ring.next_entry]
            intro same
            have behind_eq : behind = head := Option.some.inj same
            exact outside (behind_eq ▸ List.mem_cons_self)
          constructor
          · intro fine
            have member : x ∈ reg path := by
              rcases fine with member | short
              · exact member
              · rw [List.length_cons] at length_eq
                omega
            rcases holds.remove_of_mem found more member enough with ⟨s', result, holds'⟩
            exact ⟨s', result, holds', fun absent => absurd member absent⟩
          · rintro ⟨absent, -⟩
            unfold PathListeners.remove
            simp only [found, if_neg more]
            rw [removeLoop_of_path ring.forward outside (by omega),
              if_neg fun inside => absent (perm.subset inside)]
            rfl

/-! ## Runs -/

variable (onXPathEvent) in
/-- **One call.** -/
theorem Holds.step (holds : s.Holds reg) (enough : ∀ path, (reg path).length ≤ turns)
    (new : ∀ path x, call = .add path x → ∀ path', x ∉ reg path')
    (removable : ∀ path x, call = .remove path x → x ∈ reg path ∨ (reg path).length ≤ 1) :
    ∃ s', s.step onXPathEvent turns call = .ok s' ∧ s'.Holds (call.after reg) := by
  cases call with
  | add path x => exact holds.add (new path x rfl)
  | remove path x =>
      rcases (holds.remove (enough path)).1 (removable path x rfl) with ⟨s', result, holds', -⟩
      exact ⟨s', result, holds'⟩
  | notify path =>
      rcases holds.notify onXPathEvent (enough path) with ⟨l, called, -⟩
      refine ⟨s, ?_, holds⟩
      rw [PathListeners.step, called]
      rfl

variable (onXPathEvent) in
/-- **All calls.** -/
theorem holds_of_run (new : AddsNew calls) (removable : Removable calls)
    (enough : calls.length ≤ turns) :
    ∃ s, run (step onXPathEvent turns) .empty calls = .ok s ∧
      s.Holds (registeredListeners calls) := by
  induction calls using List.reverseRecOn with
  | nil => exact ⟨.empty, rfl, holds_empty⟩
  | append_singleton before call ih =>
      rw [List.length_append, List.length_singleton] at enough
      rcases removable_concat.mp removable with ⟨earlier, last⟩
      have short : before.length ≤ turns := by omega
      rcases ih new.of_concat earlier short with ⟨s, result, holds⟩
      rcases holds.step onXPathEvent (fun path => length_registeredListeners_le.trans short)
        (fun path x same => new before path x [] (by rw [same])) last with ⟨s', once, holds'⟩
      refine ⟨s', ?_, ?_⟩
      · rw [run_concat, result, ok_bind, once]
      · rw [registeredListeners_concat]
        exact holds'

/-- After every part of the run a notification of a path calls the listeners registered under
it, each of them once, and removing one that is not registered under it changes nothing. -/
def SetLike (onXPathEvent : Nat → Bool) (turns : Nat) (calls : List PathCall) : Prop :=
  ∀ before behind, calls = before ++ behind →
    ∃ s, run (step onXPathEvent turns) .empty before = .ok s ∧
      (∀ path, ∃ l, s.notify onXPathEvent turns path = .ok l ∧ l.Nodup ∧
        ∀ x, x ∈ l ↔ x ∈ registeredListeners before path ∧ onXPathEvent x = true) ∧
      ∀ path x rest, behind = .remove path x :: rest → x ∉ registeredListeners before path →
        s.remove turns path x = .ok s

/-- **Path listeners form sets** in a run exactly when it removes only listeners that are
registered under the path, except from a path with at most one listener. -/
theorem setLike_iff_removable (new : AddsNew calls) (enough : calls.length ≤ turns) :
    SetLike onXPathEvent turns calls ↔ Removable calls := by
  constructor
  · intro setLike
    induction calls using List.reverseRecOn with
    | nil =>
        intro before path x behind split
        cases before <;> cases split
    | append_singleton before call ih =>
        rw [List.length_append, List.length_singleton] at enough
        have earlier : Removable before := by
          apply ih new.of_concat (by omega)
          intro front behind split
          rcases setLike front (behind ++ [call]) (by simp [split])
            with ⟨s, result, notified, removed⟩
          refine ⟨s, result, notified, fun path x rest same absent => ?_⟩
          exact removed path x (rest ++ [call]) (by simp [same]) absent
        refine removable_concat.mpr ⟨earlier, ?_⟩
        rintro path x rfl
        have short : before.length ≤ turns := by omega
        rcases holds_of_run onXPathEvent new.of_concat earlier short with ⟨s, result, holds⟩
        by_contra stuck
        rw [not_or, not_le] at stuck
        have fault := (holds.remove (length_registeredListeners_le.trans short)).2 stuck
        rcases setLike (before ++ [.remove path x]) [] (by simp) with ⟨s', result', -⟩
        rw [run_concat, result, ok_bind, step, fault] at result'
        cases result'
  · intro removable before behind split
    have newBefore : AddsNew before := fun front path x back split' =>
      new front path x (back ++ behind) (by simp [split, split'])
    have removableBefore : Removable before := fun front path x back split' =>
      removable front path x (back ++ behind) (by simp [split, split'])
    have short : before.length ≤ turns := by
      rw [split, List.length_append] at enough
      omega
    rcases holds_of_run onXPathEvent newBefore removableBefore short with
      ⟨s, result, holds⟩
    have fits : ∀ path, (registeredListeners before path).length ≤ turns :=
      fun path => length_registeredListeners_le.trans short
    refine ⟨s, result, fun path => holds.notify onXPathEvent (fits path), ?_⟩
    rintro path x rest rfl absent
    rcases (holds.remove (fits path)).1 (removable before path x rest split) with
      ⟨s', removed, -, unchanged⟩
    rw [unchanged absent] at removed
    exact removed

/-- Two listeners of one path, and the removal of a third one. -/
def strangerRemoved : List PathCall :=
  [.add (lit "/a") 0, .add (lit "/a") 1, .remove (lit "/a") 2]

theorem addsNew_strangerRemoved : AddsNew strangerRemoved := by
  intro before path x behind split path'
  rcases before with _ | ⟨first, _ | ⟨second, _ | ⟨third, more⟩⟩⟩
  · cases split
    simp [registeredListeners]
  · cases split
    rw [registeredListeners, List.foldl_cons, List.foldl_nil, PathCall.after, Function.update_apply]
    split <;> simp
  · cases split
  · simp [strangerRemoved] at split

theorem setLike_iff_removable_stranger :
    SetLike (fun _ => true) 3 strangerRemoved ↔ Removable strangerRemoved :=
  setLike_iff_removable addsNew_strangerRemoved (Nat.le_refl 3)

/-- The removal of a listener that is not registered follows NULL. -/
theorem not_setLike_stranger :
    run (step (fun _ => true) 3) .empty strangerRemoved = .error .segv ∧
      ¬SetLike (fun _ => true) 3 strangerRemoved := by
  have fault : run (step (fun _ => true) 3) .empty strangerRemoved = .error .segv := by rfl
  refine ⟨fault, fun setLike => ?_⟩
  rcases setLike strangerRemoved [] (by simp) with ⟨s, result, -⟩
  rw [fault] at result
  cases result

end PathListeners

end Xwbot
