import Xwbot.Links

/-!
# Circular doubly linked lists

A ring is entered at one of its records.  Following `next` from there passes through all of
them and comes back, and so does following `prev`, in the other direction.  Nothing here
depends on what the records are.
-/

namespace Xwbot.Links

universe u

variable {α : Type u} {next prev next' prev' : α → Option α} {x y e : α} {l l' l₁ l₂ rest : List α}
  {a b : Option α}

/-- The ring that is entered at `x`. -/
structure Ring (next prev : α → Option α) (x : α) (rest : List α) : Prop where
  nodup : (x :: rest).Nodup
  forward : Path next (some x) (x :: rest) (some x)
  backward : Path prev (some x) (x :: rest.reverse) (some x)

/-- A ring depends on the links of its own records only. -/
theorem Ring.congr (ring : Ring next prev x rest) (sameNext : ∀ y ∈ x :: rest, next' y = next y)
    (samePrev : ∀ y ∈ x :: rest, prev' y = prev y) : Ring next' prev' x rest where
  nodup := ring.nodup
  forward := ring.forward.congr sameNext
  backward := by
    apply ring.backward.congr
    intro y member
    apply samePrev
    simpa using member

/-- The entry can be moved to the next record. -/
theorem Ring.rotate (ring : Ring next prev x (y :: rest)) : Ring next prev y (rest ++ [x]) where
  nodup := by
    have nodup := ring.nodup
    rw [List.nodup_cons] at nodup
    rw [← List.cons_append]
    exact List.nodup_append.mpr ⟨nodup.2, List.nodup_singleton x, by
      rintro z member w inside rfl
      rw [List.mem_singleton.mp inside] at member
      exact nodup.1 member⟩
  forward := by
    rcases ring.forward with ⟨-, forward⟩
    have start : next x = some y := forward.1
    rw [start] at forward
    rw [← List.cons_append]
    exact path_append.mpr ⟨some x, forward, rfl, start⟩
  backward := by
    have backward := ring.backward
    rw [List.reverse_cons, ← List.cons_append] at backward
    rcases path_append.mp backward with ⟨c, front, start, last⟩
    rw [start] at front
    rw [List.reverse_append, List.reverse_singleton, List.singleton_append]
    exact ⟨rfl, by rw [show prev y = some x from last]; exact front⟩

/-- The record behind another one in a ring. -/
theorem Ring.next_eq (ring : Ring next prev x (l₁ ++ e :: l₂)) :
    next e = some (l₂.head?.getD x) := by
  rcases ring.forward with ⟨-, forward⟩
  rcases path_append.mp forward with ⟨c, -, -, behind⟩
  rw [behind.start]
  cases l₂ <;> rfl

/-- The record before another one in a ring. -/
theorem Ring.prev_eq (ring : Ring next prev x (l₁ ++ e :: l₂)) :
    prev e = some (l₁.getLast?.getD x) := by
  rcases ring.backward with ⟨-, backward⟩
  rw [List.reverse_append, List.reverse_cons, List.append_assoc, List.singleton_append] at backward
  rcases path_append.mp backward with ⟨c, -, -, behind⟩
  rw [behind.start, List.head?_reverse]
  cases l₁.getLast? <;> rfl

/-- The record behind the entry. -/
theorem Ring.next_entry (ring : Ring next prev x rest) : next x = some (rest.head?.getD x) := by
  rw [ring.forward.2.start]
  cases rest <;> rfl

variable [DecidableEq α]

/-- A record that is linked to itself. -/
theorem Ring.single : Ring (Function.update next x (some x)) (Function.update prev x (some x)) x
    [] where
  nodup := List.nodup_singleton x
  forward := ⟨rfl, Function.update_self ..⟩
  backward := ⟨rfl, Function.update_self ..⟩

/-- A record is put behind the entry. -/
theorem Ring.insert (ring : Ring next prev x rest) (outside : e ∉ x :: rest) :
    Ring (Function.update (Function.update next e (next x)) x (some e))
      (Function.update (Function.update prev e (some x)) (rest.head?.getD x) (some e)) x
        (e :: rest) := by
  have nodup := List.nodup_cons.mp ring.nodup
  have other : e ≠ x := fun same => outside (by simp [same])
  have notRest : e ∉ rest := fun member => outside (List.mem_cons_of_mem _ member)
  constructor
  case nodup =>
    rw [List.nodup_cons, List.mem_cons, not_or]
    exact ⟨⟨Ne.symm other, nodup.1⟩, List.nodup_cons.mpr ⟨notRest, nodup.2⟩⟩
  case forward =>
    rcases ring.forward with ⟨-, forward⟩
    refine ⟨rfl, Function.update_self .., ?_⟩
    rw [Function.update_of_ne other, Function.update_self]
    exact (forward.update notRest).update nodup.1
  case backward =>
    rcases ring.backward with ⟨-, backward⟩
    refine ⟨rfl, ?_⟩
    cases rest with
    | nil =>
        simp only [List.head?_nil, Option.getD_none]
        rw [Function.update_self]
        refine ⟨rfl, ?_⟩
        rw [Function.update_of_ne other, Function.update_self]
        rfl
    | cons b r =>
        have xb : x ≠ b := fun same => nodup.1 (by simp [same])
        have eb : e ≠ b := fun same => notRest (by simp [same])
        have bNot : b ∉ r.reverse := by
          rw [List.mem_reverse]
          exact (List.nodup_cons.mp nodup.2).1
        rw [List.head?_cons, Option.getD_some, Function.update_of_ne xb,
          Function.update_of_ne (Ne.symm other)]
        rw [List.reverse_cons] at backward ⊢
        have moved : Path (Function.update prev e (some x)) (prev x) (r.reverse ++
          [b]) (some x) := by
          apply backward.update
          rw [← List.reverse_cons, List.mem_reverse]
          exact notRest
        refine path_append.mpr ⟨some e, ?_, rfl, ?_⟩
        · rw [List.reverse_cons]
          exact moved.concat bNot
        · rw [Function.update_of_ne eb, Function.update_self]
          rfl

/-- One direction of taking a record out. -/
theorem Path.takeOut (nodup : (x :: (l₁ ++ e :: l₂)).Nodup)
    (path : Path next (some x) (x :: (l₁ ++ e :: l₂)) (some x)) :
    Path (Function.update next (l₁.getLast?.getD x) (next e)) (some x) (x :: (l₁ ++ l₂))
      (some x) := by
  rw [List.nodup_cons, List.mem_append, List.mem_cons, not_or, not_or, List.nodup_append] at nodup
  rcases nodup with ⟨⟨xFront, xe, xBack⟩, frontNodup, -, apart⟩
  rcases path with ⟨-, path⟩
  rcases path_append.mp path with ⟨c, front, rfl, back⟩
  rcases List.eq_nil_or_concat l₁ with rfl | ⟨l, p, rfl⟩
  · refine ⟨rfl, ?_⟩
    rw [List.getLast?_nil, Option.getD_none, Function.update_self, List.nil_append]
    exact back.update xBack
  · rw [List.concat_eq_append] at *
    have last : (l ++ [p]).getLast?.getD x = p := by simp
    have xp : x ≠ p := fun same => xFront (by simp [same])
    have pOutside : p ∉ l := by
      rw [List.nodup_append] at frontNodup
      intro member
      exact frontNodup.2.2 p member p (List.mem_singleton_self p) rfl
    have pBack : p ∉ l₂ := by
      intro member
      exact apart p (by simp) p (List.mem_cons_of_mem _ member) rfl
    rw [last]
    refine ⟨rfl, ?_⟩
    rw [Function.update_of_ne xp]
    exact path_append.mpr ⟨next e, front.concat pOutside, back.update pBack⟩

/-- **A record is taken out** of a ring that is entered at another one. -/
theorem Ring.remove (ring : Ring next prev x (l₁ ++ e :: l₂)) :
    Ring (Function.update next (l₁.getLast?.getD x) (next e))
      (Function.update prev (l₂.head?.getD x) (prev e)) x (l₁ ++ l₂) where
  nodup := by
    have nodup := ring.nodup
    rw [← List.cons_append] at nodup ⊢
    exact nodup.sublist (List.Sublist.append_left (List.sublist_cons_self e l₂) _)
  forward := ring.forward.takeOut ring.nodup
  backward := by
    have backward := ring.backward
    have nodup : (x :: (l₁ ++ e :: l₂).reverse).Nodup := by
      rw [List.nodup_cons, List.mem_reverse, List.nodup_reverse, ← List.nodup_cons]
      exact ring.nodup
    rw [List.reverse_append, List.reverse_cons, List.append_assoc, List.singleton_append]
      at backward nodup
    have out := backward.takeOut nodup
    rw [List.getLast?_reverse] at out
    rw [List.reverse_append]
    exact out

end Xwbot.Links
