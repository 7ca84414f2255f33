import Mathlib

/-!
# Chains of pointers

A record with a pointer to a record of its own kind is the head of a chain.
`Path` describes chains for a pointer given as a function, so that a store into
one record is `Function.update`; `scan` is the loop that follows a chain until a
condition holds.  Nothing here depends on what the records are.
-/

namespace Xwbot.Links

universe u v

variable {α : Type u}

/-- Following `next` from `a` passes through `l` and arrives at `b`. -/
def Path (next : α → Option α) : Option α → List α → Option α → Prop
  | a, [], b => a = b
  | a, x :: rest, b => a = some x ∧ Path next (next x) rest b

section Paths

variable {next : α → Option α} {a b c : Option α} {x : α} {l l' : List α}

@[simp]
theorem path_nil : Path next a [] b ↔ a = b :=
  Iff.rfl

@[simp]
theorem path_cons : Path next a (x :: l) b ↔ a = some x ∧ Path next (next x) l b :=
  Iff.rfl

theorem path_append : Path next a (l ++ l') b ↔ ∃ c, Path next a l c ∧ Path next c l' b := by
  induction l generalizing a with
  | nil => simp
  | cons x rest ih => simp only [List.cons_append, path_cons, ih, ← exists_and_left, and_assoc]

/-- Only one list leads to the end of a chain. -/
theorem Path.unique (first : Path next a l none) (second : Path next a l' none) : l = l' := by
  induction l generalizing a l' with
  | nil =>
      cases l' with
      | nil => rfl
      | cons x rest =>
          rw [path_nil] at first
          rw [path_cons, first] at second
          cases second.1
  | cons x rest ih =>
      cases l' with
      | nil =>
          rw [path_nil] at second
          rw [path_cons, second] at first
          cases first.1
      | cons y rest' =>
          rw [path_cons] at first second
          obtain rfl : x = y := Option.some.inj (first.1.symm.trans second.1)
          rw [ih first.2 second.2]

/-- A chain that ends does not come back to a record. -/
theorem Path.nodup (path : Path next a l none) : l.Nodup := by
  induction l generalizing a with
  | nil => exact List.nodup_nil
  | cons x rest ih =>
      rw [path_cons] at path
      refine List.nodup_cons.mpr ⟨fun member => ?_, ih path.2⟩
      obtain ⟨before, after, rfl⟩ := List.append_of_mem member
      obtain ⟨c, -, tail⟩ := path_append.mp path.2
      rw [path_cons] at tail
      have same := Path.unique path.2 tail.2
      have lengths := congrArg List.length same
      simp only [List.length_append, List.length_cons] at lengths
      omega

/-- A chain depends on the pointers of its own records only. -/
theorem Path.congr {next' : α → Option α} (path : Path next a l b)
    (same : ∀ x ∈ l, next' x = next x) : Path next' a l b := by
  induction l generalizing a with
  | nil => exact path
  | cons x rest ih =>
      rw [List.forall_mem_cons] at same
      rw [path_cons] at path ⊢
      refine ⟨path.1, ?_⟩
      rw [same.1]
      exact ih path.2 same.2

/-- A chain starts with its first record, or where it leads to. -/
theorem Path.start (path : Path next a l b) : a = l.head?.or b := by
  cases l with
  | nil => exact path
  | cons x rest => exact path.1

/-- A chain does not come to a record that no record on it points to. -/
theorem Path.notMem {y : α} (path : Path next a l b) (start : a ≠ some y)
    (loose : ∀ x ∈ l, next x ≠ some y) : y ∉ l := by
  induction l generalizing a with
  | nil => exact List.not_mem_nil
  | cons x rest ih =>
      rw [path_cons] at path
      have other : y ≠ x := fun same => start (same ▸ path.1)
      have behind := ih path.2 (loose x List.mem_cons_self) fun z member =>
        loose z (List.mem_cons_of_mem x member)
      exact List.not_mem_cons_of_ne_of_not_mem other behind

variable [DecidableEq α]

theorem Path.update {y : α} {v : Option α} (path : Path next a l b) (outside : y ∉ l) :
    Path (Function.update next y v) a l b :=
  path.congr fun _ member => Function.update_of_ne (ne_of_mem_of_not_mem member outside) _ _

/-- The last record of a chain is linked to another chain. -/
theorem Path.concat {y : α} {v : Option α} (path : Path next a (l ++ [y]) b) (outside : y ∉ l) :
    Path (Function.update next y v) a (l ++ [y]) v := by
  obtain ⟨c, before, last⟩ := path_append.mp path
  rw [path_cons] at last
  exact path_append.mpr ⟨c, before.update outside, last.1, by simp⟩

/-- The first record is taken off a chain. -/
theorem Path.tail {v : Option α} (path : Path next a (x :: l) b) (outside : x ∉ l) :
    Path (Function.update next x v) (next x) l b :=
  Path.update path.2 outside

/-- A record is taken out behind another one. -/
theorem Path.unlink {y : α} {v : Option α} (path : Path next a (l ++ y :: x :: l') none) :
    Path (Function.update (Function.update next y (next x)) x v) a (l ++ y :: l') none := by
  have nodup := path.nodup
  rw [List.nodup_append, List.nodup_cons, List.nodup_cons] at nodup
  obtain ⟨-, ⟨yOutside, xOutside, -⟩, apart⟩ := nodup
  obtain ⟨c, before, behind⟩ := path_append.mp path
  rw [path_cons, path_cons] at behind
  obtain ⟨rfl, next_eq, tail⟩ := behind
  have y_ne : y ≠ x := fun same => yOutside (by simp [same])
  have y_before : y ∉ l := fun member => apart y member y List.mem_cons_self rfl
  have x_before : x ∉ l := fun member => apart x member x (by simp) rfl
  refine path_append.mpr ⟨some y, (before.update y_before).update x_before, rfl, ?_⟩
  rw [Function.update_of_ne y_ne, Function.update_self]
  exact (tail.update fun member => yOutside (by simp [member])).update xOutside

end Paths

/-! ## Links along a list -/

/-- Each link from a record of the list leads to a record behind it. -/
def Forward (next : α → Option α) : List α → Prop
  | [] => True
  | x :: rest => (∀ z, next x = some z → z ∈ rest) ∧ Forward next rest

/-- So every chain that begins in the list ends. -/
theorem Forward.path {next : α → Option α} {l : List α} (forward : Forward next l) {x : α}
    (member : x ∈ l) : ∃ chain, Path next (some x) chain none ∧ chain ⊆ l := by
  induction l generalizing x with
  | nil => cases member
  | cons y rest ih =>
      rcases forward with ⟨behind, tail⟩
      rcases List.mem_cons.mp member with rfl | member
      · cases next_eq : next x with
        | none => exact ⟨[x], ⟨rfl, next_eq⟩, by simp⟩
        | some z =>
            rcases ih tail (behind z next_eq) with ⟨chain, path, inside⟩
            refine ⟨x :: chain, ⟨rfl, ?_⟩, List.cons_subset_cons x inside⟩
            rw [next_eq]
            exact path
      · rcases ih tail member with ⟨chain, path, inside⟩
        exact ⟨chain, path, List.Subset.trans inside (List.subset_cons_self y rest)⟩

theorem Forward.congr {next next' : α → Option α} {l : List α} (forward : Forward next l)
    (same : ∀ x ∈ l, next' x = next x) : Forward next' l := by
  induction l with
  | nil => trivial
  | cons x rest ih =>
      rw [List.forall_mem_cons] at same
      rw [Forward, same.1]
      exact ⟨forward.1, ih forward.2 same.2⟩

/-- A record at the end of the list may be linked to. -/
theorem Forward.concat {next next' : α → Option α} {l : List α} {c : α}
    (forward : Forward next l) (linked : ∀ x ∈ l, next' x = next x ∨ next' x = some c)
    (last : next' c = none) : Forward next' (l ++ [c]) := by
  induction l with
  | nil =>
      refine ⟨fun z link => ?_, trivial⟩
      rw [last] at link
      cases link
  | cons x rest ih =>
      rcases forward with ⟨behind, tail⟩
      rw [List.forall_mem_cons] at linked
      refine ⟨fun z link => ?_, ih tail linked.2⟩
      rcases linked.1 with same | new
      · rw [same] at link
        exact List.mem_append_left _ (behind z link)
      · rw [new] at link
        cases link
        exact List.mem_append_right _ List.mem_cons_self

/-- The records on a chain of at most `fuel` records. -/
def chain (next : α → Option α) : Nat → Option α → List α
  | _, none => []
  | 0, some _ => []
  | fuel + 1, some x => x :: chain next fuel (next x)

theorem chain_of_path {next : α → Option α} {a : Option α} {l : List α} {fuel : Nat}
    (path : Path next a l none) (enough : l.length ≤ fuel) : chain next fuel a = l := by
  induction l generalizing a fuel with
  | nil =>
      obtain rfl : a = none := path
      cases fuel <;> rfl
  | cons x rest ih =>
      obtain ⟨rfl, tail⟩ := path
      cases fuel with
      | zero => simp at enough
      | succ fuel => rw [chain, ih tail (by simpa using enough)]

/-! ## The loop that follows a chain -/

section Scan

variable {ε : Type v} (freed endless : ε) (live stop : α → Bool) (next : α → Option α)

/-- Follow a chain up to a record that satisfies `stop`.  The result is the record
before, and the record found.  A record that is not live cannot be looked at; a
chain of more than `fuel` records is taken to be endless. -/
def scan : Nat → Option α → Option α → Except ε (Option α × Option α)
  | _, before, none => .ok (before, none)
  | 0, _, some _ => .error endless
  | fuel + 1, before, some x =>
      if live x then
        if stop x then .ok (before, some x) else scan fuel (some x) (next x)
      else .error freed

/-- The records that the loop passes: they are live and none of them stops it. -/
structure Passes (start : Option α) (l : List α) (found : Option α) : Prop where
  path : Path next start l found
  live_of_mem : ∀ x ∈ l, live x = true
  stop_of_mem : ∀ x ∈ l, stop x = false
  live_of_found : ∀ x, found = some x → live x = true
  stop_of_found : ∀ x, found = some x → stop x = true

variable {freed endless live stop next}

/-- The loop returns what it found and the last record before it. -/
theorem scan_of_passes {start found : Option α} {l : List α} {fuel : Nat} (before : Option α)
    (passes : Passes live stop next start l found) (enough : l.length < fuel ∨ found = none ∧
      l.length ≤ fuel) :
    scan freed endless live stop next fuel before start =
      .ok (l.getLast?.or before, found) := by
  induction l generalizing start fuel before with
  | nil =>
      obtain rfl : start = found := passes.path
      cases start with
      | none => cases fuel <;> rfl
      | some x =>
          cases fuel with
          | zero => simp at enough
          | succ fuel =>
              simp only [scan, passes.live_of_found x rfl, passes.stop_of_found x rfl, if_true]
              rfl
  | cons x rest ih =>
      obtain ⟨rfl, tail⟩ := passes.path
      have alive := List.forall_mem_cons.mp passes.live_of_mem
      have goesOn := List.forall_mem_cons.mp passes.stop_of_mem
      cases fuel with
      | zero => simp at enough
      | succ fuel =>
          simp only [scan, alive.1, goesOn.1, if_true, Bool.false_eq_true, if_false]
          rw [ih (some x) ⟨tail, alive.2, goesOn.2, passes.live_of_found, passes.stop_of_found⟩
            (by simpa using enough)]
          rw [List.getLast?_cons]
          cases rest.getLast? <;> rfl

/-- When the loop returns, it has passed some records. -/
theorem passes_of_scan {start found before last : Option α} {fuel : Nat}
    (result : scan freed endless live stop next fuel before start = .ok (last, found)) :
    ∃ l, Passes live stop next start l found ∧ last = l.getLast?.or before := by
  induction fuel generalizing start before with
  | zero =>
      cases start with
      | none =>
          cases result
          exact ⟨[], ⟨rfl, by simp, by simp, by simp, by simp⟩, rfl⟩
      | some x => cases result
  | succ fuel ih =>
      cases start with
      | none =>
          cases result
          exact ⟨[], ⟨rfl, by simp, by simp, by simp, by simp⟩, rfl⟩
      | some x =>
          rw [scan] at result
          split at result
          · next alive =>
              split at result
              · next stops =>
                  cases result
                  refine ⟨[], ⟨rfl, by simp, by simp, ?_, ?_⟩, rfl⟩
                  · rintro y ⟨⟩
                    exact alive
                  · rintro y ⟨⟩
                    exact stops
              · next goesOn =>
                  obtain ⟨l, passes, rfl⟩ := ih result
                  refine ⟨x :: l, ⟨⟨rfl, passes.path⟩, ?_, ?_, passes.live_of_found,
                    passes.stop_of_found⟩, ?_⟩
                  · exact List.forall_mem_cons.mpr ⟨alive, passes.live_of_mem⟩
                  · exact List.forall_mem_cons.mpr ⟨by simpa using goesOn, passes.stop_of_mem⟩
                  · rw [List.getLast?_cons]
                    cases l.getLast? <;> rfl
          · cases result

/-- On a chain of live records that ends, the loop finds the first record that
stops it. -/
theorem passes_of_path {start : Option α} {l : List α} (path : Path next start l none)
    (alive : ∀ x ∈ l, live x = true) :
    Passes live stop next start (l.takeWhile fun x => !stop x) (l.find? stop) := by
  induction l generalizing start with
  | nil => exact ⟨path, by simp, by simp, by simp, by simp⟩
  | cons x rest ih =>
      obtain ⟨rfl, tail⟩ := path
      rw [List.forall_mem_cons] at alive
      cases stops : stop x with
      | true =>
          rw [List.takeWhile_cons_of_neg (by simp [stops]), List.find?_cons_of_pos stops]
          refine ⟨rfl, by simp, by simp, ?_, ?_⟩
          · rintro y ⟨⟩
            exact alive.1
          · rintro y ⟨⟩
            exact stops
      | false =>
          rw [List.takeWhile_cons_of_pos (by simp [stops]), List.find?_cons_of_neg
            (by simp [stops])]
          have passes := ih tail alive.2
          exact ⟨⟨rfl, passes.path⟩, List.forall_mem_cons.mpr ⟨alive.1, passes.live_of_mem⟩,
            List.forall_mem_cons.mpr ⟨stops, passes.stop_of_mem⟩, passes.live_of_found,
            passes.stop_of_found⟩

/-- The loop does not come back to a record. -/
theorem Passes.nodup [DecidableEq α] {start found : Option α} {l : List α}
    (passes : Passes live stop next start l found) : l.Nodup := by
  cases found with
  | none => exact passes.path.nodup
  | some y =>
      have outside : y ∉ l := by
        intro member
        have stops := passes.stop_of_found y rfl
        rw [passes.stop_of_mem y member] at stops
        cases stops
      have extended : Path next start (l ++ [y]) (next y) :=
        path_append.mpr ⟨some y, passes.path, rfl, rfl⟩
      have ended := (extended.concat (v := none) outside).nodup
      exact ended.sublist (List.sublist_append_left l [y])

end Scan

end Xwbot.Links
