import Xwbot.Object.Linked
import Xwbot.Object.TreeRun

/-!
# Printing the path of an object

`x_object_to_path` prints the names from the root on into a buffer of the caller.  It adds
up the lengths that `snprintf` would have needed, and not those that it has written, so the
room that it passes on is negative once the text is longer than the buffer; as an unsigned
number it is then nearly everything.
-/

namespace Xwbot

/-- `snprintf` of a text to `pathbuf + i`, with the room `n` that the caller claims. -/
def snprintfAt (pathbuf : List Byte) (i n : Nat) (text : Text) : Except Fault (List Byte) :=
  if n = 0 then .ok pathbuf
  else
    let written := text.take (n - 1) ++ [0]
    if i + written.length ≤ pathbuf.length then
      .ok (pathbuf.take i ++ written ++ pathbuf.drop (i + written.length))
    else .error .overflow

section Printing

variable {pathbuf pathbuf' : List Byte} {i n : Nat} {text : Text}

variable (text) in
/-- A text that is printed into the room there is. -/
theorem snprintfAt_of_fits (inside : i + n ≤ pathbuf.length) (room : 0 < n) :
    ∃ rest, snprintfAt pathbuf i n text = .ok (pathbuf.take i ++
      (text.take (n - 1) ++ [0]) ++ rest) ∧
      (pathbuf.take i ++ (text.take (n - 1) ++ [0]) ++ rest).length = pathbuf.length := by
  have written_le : (text.take (n - 1) ++ [0] : List Byte).length ≤ n := by
    simp only [List.length_append, List.length_take, List.length_singleton]
    omega
  refine ⟨pathbuf.drop (i + (text.take (n - 1) ++ [0] : List Byte).length), ?_, ?_⟩
  · unfold snprintfAt
    rw [if_neg (Nat.ne_of_gt room)]
    dsimp only
    rw [if_pos (by omega)]
  · simp only [List.length_append, List.length_take, List.length_drop] at written_le ⊢
    omega

/-- A print that starts behind the buffer, and has room, writes there. -/
theorem snprintfAt_behind (behind : pathbuf.length ≤ i) (room : n ≠ 0) :
    snprintfAt pathbuf i n text = .error .overflow := by
  unfold snprintfAt
  rw [if_neg room]
  dsimp only
  rw [if_neg]
  simp only [List.length_append, List.length_singleton]
  omega

theorem length_of_snprintfAt (result : snprintfAt pathbuf i n text = .ok pathbuf') :
    pathbuf'.length = pathbuf.length := by
  unfold snprintfAt at result
  split at result
  · cases result
    rfl
  · dsimp only at result
    split at result
    · next inside =>
        cases result
        simp only [List.length_append, List.length_take, List.length_drop] at inside ⊢
        omega
    · cases result

end Printing

namespace Heap

/-- The recursion of `x_object_to_path`: the length of the text so far, and the buffer.  `i`
is an `int` and `bufsiz` is unsigned. -/
def toPathFrom (h : Heap) (bufsiz : UInt32) :
    Nat → Option Addr → List Byte → Except Fault (Nat × List Byte)
  | _, none, pathbuf => .ok (0, pathbuf)
  | 0, some _, _ => .error .hang
  | fuel + 1, some obj, pathbuf => do
      let obj ← h.deref (some obj)
      let (i, pathbuf) ← h.toPathFrom bufsiz fuel (h.parent obj) pathbuf
      let text := ch '/' :: h.name obj
      let pathbuf ← snprintfAt pathbuf i (bufsiz - UInt32.ofNat i).toNat text
      if 2 ^ 31 ≤ i + text.length then .error .intOverflow
      else .ok (i + text.length, pathbuf)

/-- `x_object_to_path`. -/
def toPath (h : Heap) (obj : Option Addr) (pathbuf : List Byte) (bufsiz : UInt32) :
    Except Fault (Nat × List Byte) :=
  h.toPathFrom bufsiz h.top obj pathbuf

/-- The text of a path; the list goes up from the object to the root. -/
def pathText (h : Heap) : List Addr → Text
  | [] => []
  | obj :: above => h.pathText above ++ ch '/' :: h.name obj

/-- The object and the objects around it, up to the root. -/
structure Ancestry (h : Heap) (obj : Addr) (above : List Addr) : Prop where
  path : Links.Path h.parent (some obj) (obj :: above) none
  alive : ∀ x ∈ obj :: above, h.live x = true

/-- The path is printed into the buffer: a string ends in it, and it is the whole path if
this fits. -/
def PrintsPath (h : Heap) (line : List Addr) (pathbuf : List Byte) (bufsiz : UInt32) : Prop :=
  ∃ i pathbuf', h.toPath line.head? pathbuf bufsiz = .ok (i, pathbuf') ∧
    pathbuf'.length = pathbuf.length ∧ 0 ∈ pathbuf' ∧
    ((h.pathText line).length < bufsiz.toNat → h.pathText line ++ [0] <+: pathbuf')

variable {h : Heap} {bufsiz : UInt32} {pathbuf pathbuf' : List Byte} {line above : List Addr}
  {obj : Addr} {fuel i : Nat}

/-- The room that is passed on. -/
theorem toNat_room (int : i < 2 ^ 31) :
    (bufsiz - UInt32.ofNat i).toNat =
      if i ≤ bufsiz.toNat then bufsiz.toNat - i else 2 ^ 32 + bufsiz.toNat - i := by
  have i_eq : (UInt32.ofNat i).toNat = i := by
    rw [UInt32.toNat_ofNat']
    omega
  have bound := bufsiz.toNat_lt
  rw [UInt32.toNat_sub, i_eq]
  split <;> omega

/-- One turn of the recursion, behind the one for the parent. -/
theorem toPathFrom_succ (alive : h.live obj = true) {start : Nat × List Byte}
    (before : h.toPathFrom bufsiz fuel (h.parent obj) pathbuf = .ok start) :
    h.toPathFrom bufsiz (fuel + 1) (some obj) pathbuf =
      (snprintfAt start.2 start.1 (bufsiz - UInt32.ofNat start.1).toNat (ch '/' :: h.name obj) >>=
        fun pathbuf' =>
          if 2 ^ 31 ≤ start.1 + (ch '/' :: h.name obj).length then .error .intOverflow
          else .ok (start.1 + (ch '/' :: h.name obj).length, pathbuf')) := by
  rw [toPathFrom, deref_of_live alive, ok_bind, before, ok_bind]

/-- What a turn that returns has counted and left as it was. -/
theorem toPathFrom_eq_ok (path : Links.Path h.parent (line.head?) line none)
    (result : h.toPathFrom bufsiz fuel line.head? pathbuf = .ok (i, pathbuf')) :
    i = (h.pathText line).length ∧ i < 2 ^ 31 ∧ pathbuf'.length = pathbuf.length := by
  induction line generalizing fuel i pathbuf' with
  | nil =>
      rw [List.head?_nil, toPathFrom] at result
      cases result
      simp [pathText]
  | cons obj above ih =>
      cases fuel with
      | zero => cases result
      | succ fuel =>
          rcases path with ⟨-, path⟩
          have parent_eq := path.start
          rw [Option.or_none] at parent_eq
          rw [List.head?_cons, toPathFrom] at result
          rcases bind_eq_ok_iff.mp result with ⟨x, found, afterDeref⟩
          rcases deref_eq_ok_iff.mp found with ⟨-, rfl⟩
          rcases bind_eq_ok_iff.mp afterDeref with ⟨⟨j, middle⟩, before, afterParent⟩
          rcases bind_eq_ok_iff.mp afterParent with ⟨last, printed, counted⟩
          rw [parent_eq] at before path
          rcases ih path before with ⟨rfl, -, length_eq⟩
          split at counted
          · cases counted
          · next small =>
              cases counted
              refine ⟨?_, by omega, ?_⟩
              · rw [pathText, List.length_append]
              · rw [length_of_snprintfAt printed, length_eq]

/-- The recursion returns when the path of the parent is not longer than the buffer, and the
buffer then holds the text as far as it goes. -/
theorem toPathFrom_of_fits (path : Links.Path h.parent line.head? line none)
    (alive : ∀ x ∈ line, h.live x = true) (enough : line.length ≤ fuel)
    (size : pathbuf.length = bufsiz.toNat) (room : (h.pathText line.tail).length ≤ bufsiz.toNat)
    (int : (h.pathText line).length < 2 ^ 31) :
    ∃ pathbuf', h.toPathFrom bufsiz fuel line.head? pathbuf =
        .ok ((h.pathText line).length, pathbuf') ∧ pathbuf'.length = pathbuf.length ∧
      (line ≠ [] → 0 < bufsiz.toNat →
        (h.pathText line).take (bufsiz.toNat - 1) ++ [0] <+: pathbuf') := by
  induction line generalizing fuel with
  | nil =>
      refine ⟨pathbuf, ?_, rfl, ?_⟩
      · rw [List.head?_nil, toPathFrom]
        rfl
      · intro nonempty
        exact absurd rfl nonempty
  | cons obj above ih =>
      cases fuel with
      | zero => simp at enough
      | succ fuel =>
          rcases path with ⟨-, path⟩
          rw [List.forall_mem_cons] at alive
          rw [List.tail_cons] at room
          rw [pathText, List.length_append] at int
          have parent_eq := path.start
          rw [Option.or_none] at parent_eq
          have roomAbove : (h.pathText above.tail).length ≤ bufsiz.toNat := by
            cases above with
            | nil => simp [pathText]
            | cons x rest =>
                rw [pathText, List.length_append] at room
                rw [List.tail_cons]
                omega
          rw [parent_eq] at path
          rcases ih path alive.2 (by simpa using enough) roomAbove (by omega) with
            ⟨middle, before, length_eq, holds⟩
          rw [← parent_eq] at before
          rw [List.head?_cons, toPathFrom_succ alive.1 before, toNat_room (by omega), if_pos room]
          have small : ¬2 ^ 31 ≤ (h.pathText above).length + (ch '/' :: h.name obj).length := by
            omega
          rcases room.lt_or_eq with inside | full
          · -- the rest of the text starts in the buffer, right behind the text so far
            have room' : 0 < bufsiz.toNat - (h.pathText above).length := by omega
            have fits : (h.pathText above).length +
                (bufsiz.toNat - (h.pathText above).length) ≤ middle.length := by omega
            rcases snprintfAt_of_fits (ch '/' :: h.name obj) fits room' with
              ⟨rest, printed, length'⟩
            have front : middle.take (h.pathText above).length = h.pathText above := by
              by_cases root : above = []
              · simp [root, pathText]
              · have sofar := holds root (by omega)
                rw [List.take_of_length_le (by omega)] at sofar
                have sofar' := (List.prefix_append (h.pathText above) [0]).trans sofar
                exact (List.prefix_iff_eq_take.mp sofar').symm
            rw [front] at printed length'
            refine ⟨_, ?_, length'.trans length_eq, ?_⟩
            · rw [printed, ok_bind, if_neg small, pathText, List.length_append]
            · intro _ _
              rw [pathText, List.take_append, List.take_of_length_le (by omega)]
              have same : bufsiz.toNat - 1 - (h.pathText above).length =
                  bufsiz.toNat - (h.pathText above).length - 1 := by omega
              rw [same, List.append_assoc (h.pathText above)]
              exact List.prefix_append _ _
          · -- the buffer is full already
            refine ⟨middle, ?_, length_eq, ?_⟩
            · have none_left : bufsiz.toNat - (h.pathText above).length = 0 := by omega
              rw [none_left, snprintfAt, if_pos rfl, ok_bind, if_neg small, pathText,
                List.length_append]
            · intro _ positive
              have root : above ≠ [] := by
                rintro rfl
                simp [pathText] at full
                omega
              rw [pathText, List.take_append_of_le_length (by omega)]
              exact holds root positive

/-- **Path printing.**  It stays in the buffer, and leaves there a string that is the whole
path if this fits, exactly when the path of the parent is not longer than the buffer; and
the length of the path must be an `int`. -/
theorem printsPath_iff (ancestry : h.Ancestry obj above) (size : pathbuf.length = bufsiz.toNat)
    (positive : 1 ≤ bufsiz.toNat) : h.PrintsPath (obj :: above) pathbuf bufsiz ↔
      (h.pathText above).length ≤ bufsiz.toNat ∧ (h.pathText (obj :: above)).length < 2 ^ 31 := by
  have path : Links.Path h.parent (obj :: above).head? (obj :: above) none := ancestry.path
  constructor
  · rintro ⟨i, pathbuf', result, -⟩
    rcases toPathFrom_eq_ok path result with ⟨rfl, int, -⟩
    refine ⟨?_, int⟩
    unfold toPath at result
    cases fuel_eq : h.top with
    | zero =>
        rw [fuel_eq] at result
        cases result
    | succ fuel =>
        rcases path with ⟨-, path⟩
        have parent_eq := path.start
        rw [Option.or_none] at parent_eq
        rw [parent_eq] at path
        rw [fuel_eq, List.head?_cons, toPathFrom] at result
        rcases bind_eq_ok_iff.mp result with ⟨x, found, afterDeref⟩
        rcases deref_eq_ok_iff.mp found with ⟨-, rfl⟩
        rcases bind_eq_ok_iff.mp afterDeref with ⟨⟨j, middle⟩, before, afterParent⟩
        rcases bind_eq_ok_iff.mp afterParent with ⟨last, printed, -⟩
        rw [parent_eq] at before
        rcases toPathFrom_eq_ok path before with ⟨rfl, int, length_eq⟩
        by_contra long
        -- the room is a large number, and the print starts behind the buffer
        rw [toNat_room int, if_neg long, snprintfAt_behind (by omega) (by omega)] at printed
        cases printed
  · rintro ⟨room, int⟩
    have enough := h.length_le_top ancestry.path.nodup ancestry.alive
    rcases toPathFrom_of_fits path ancestry.alive enough size room int with
      ⟨pathbuf', result, length_eq, holds⟩
    have written := holds (List.cons_ne_nil obj above) positive
    refine ⟨_, pathbuf', result, length_eq, written.subset (by simp), fun fits => ?_⟩
    rwa [List.take_of_length_le (by omega)] at written

/-- The object `c` below `ab`. -/
def belowAb : Except Fault Heap :=
  (newObjects [lit "c", lit "ab"]).execAll [.appendChild 0 1]

/-- The ancestry of `c` below `ab`. -/
theorem ancestry_belowAb : ∃ h, belowAb = .ok h ∧ h.Ancestry 1 [0] ∧ h.name 0 = lit "ab" ∧
    h.name 1 = lit "c" := by
  rcases (⟨_, rfl, ⟨rfl, rfl, rfl⟩, rfl, rfl, rfl, rfl⟩ :
      ∃ h, belowAb = .ok h ∧ Links.Path h.parent (some 1) [1, 0] none ∧ h.live 0 = true ∧
        h.live 1 = true ∧ h.name 0 = lit "ab" ∧ h.name 1 = lit "c") with
    ⟨h, result, path, first, second, names⟩
  exact ⟨h, result, ⟨path, by simp [first, second]⟩, names⟩

theorem printsPath_iff_belowAb : ∃ h, belowAb = .ok h ∧
    (h.PrintsPath [1, 0] [1, 1, 1, 1, 1, 1] 6 ↔
      (h.pathText [0]).length ≤ 6 ∧ (h.pathText [1, 0]).length < 2 ^ 31) := by
  rcases ancestry_belowAb with ⟨h, result, ancestry, -⟩
  exact ⟨h, result, printsPath_iff ancestry rfl (by decide)⟩

/-- With room for two bytes, the name of `c` is written behind the buffer. -/
theorem not_printsPath_belowAb : ∃ h, belowAb = .ok h ∧ h.Ancestry 1 [0] ∧
    h.toPath (some 1) [1, 1] 2 = .error .overflow ∧ ¬h.PrintsPath [1, 0] [1, 1] 2 := by
  rcases ancestry_belowAb with ⟨h, result, ancestry, -⟩
  have computed : belowAb.bind (fun h => h.toPath (some 1) [1, 1] 2) = .error .overflow := by
    decide +kernel
  rw [result] at computed
  have writes : h.toPath (some 1) [1, 1] 2 = .error .overflow := computed
  refine ⟨h, result, ancestry, writes, ?_⟩
  rintro ⟨i, pathbuf', printed, -⟩
  rw [List.head?_cons, writes] at printed
  cases printed

end Heap

end Xwbot
