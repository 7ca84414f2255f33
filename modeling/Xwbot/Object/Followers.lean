import Xwbot.CellList
import Xwbot.Fault
import Xwbot.Object.Heap
import Xwbot.Runs

/-!
# Followers

An object has two lists of other objects: its listeners get messages about it, and its followers
get what is written to it.  Both hold references to their members.  The functions below are those
of `x_obj.c` on the lists of one object.
-/

namespace Xwbot

open Links Runs

/-- An object with its two lists, and the counts of the objects around it. -/
structure Followed where
  thiz : Addr
  /-- An object without references is gone. -/
  refcount : Addr → Nat
  ioLifeCount : Addr → Int
  writeHandler : Option Addr
  listeners : CellList Addr
  writeoutVector : CellList Addr

/-- One reference more. -/
def more (o : Addr) (count : Addr → Nat) : Addr → Nat :=
  Function.update count o (count o + 1)

/-- One reference less. -/
def less (o : Addr) (count : Addr → Nat) : Addr → Nat :=
  Function.update count o (count o - 1)

namespace Followed

/-- `x_object_ref_get`. -/
def refGet (s : Followed) (o : Addr) : Except Fault Followed :=
  if s.refcount o = 0 then .error .freed else .ok { s with refcount := more o s.refcount }

/-- `x_object_ref_put`. -/
def refPut (s : Followed) (o : Addr) : Except Fault Followed :=
  if s.refcount o = 0 then .error .freed else .ok { s with refcount := less o s.refcount }

/-- `x_object_listeners_exists`: the cell of the listener. -/
def listenersExists (s : Followed) (listener : Addr) : Except Fault (Option Nat) := do
  let (_, p) ← s.listeners.find .freed .hang listener
  .ok p

/-- `x_object_subscribe`. -/
def subscribe (s : Followed) (listener : Addr) : Except Fault Followed := do
  let s ← s.refGet s.thiz
  let s ← s.refGet listener
  let p ← s.listenersExists listener
  let s ← match p with
    | none => .ok { s with listeners := s.listeners.push listener }
    | some _ => s.refPut listener
  s.refPut s.thiz

/-- `x_object_unsubscribe`. -/
def unsubscribe (s : Followed) (listener : Addr) : Except Fault Followed := do
  let s ← s.refGet s.thiz
  let (prev, p) ← s.listeners.find .freed .hang listener
  let s ← match p with
    | none => .ok s
    | some p => do
        let s ← ({ s with listeners := s.listeners.unlink prev p } : Followed).refPut listener
        .ok { s with listeners := s.listeners.free p }
  s.refPut s.thiz

/-- `x_object_add_follower`.  It asks whether the follower is a listener. -/
def addFollower (s : Followed) (follower : Addr) : Except Fault Followed := do
  let s ← s.refGet s.thiz
  let s ← s.refGet follower
  let p ← s.listenersExists follower
  let s ← match p with
    | none => .ok { s with writeoutVector := s.writeoutVector.push follower }
    | some _ => s.refPut follower
  s.refPut s.thiz

/-- `x_object_del_follower`. -/
def delFollower (s : Followed) (follower : Addr) : Except Fault Followed := do
  let s ← s.refGet s.thiz
  let (prev, p) ← s.writeoutVector.find .freed .hang follower
  let s ← match p with
    | none => .ok s
    | some p => do
        let s ← ({ s with writeoutVector := s.writeoutVector.unlink prev p } : Followed).refPut
          follower
        .ok { s with writeoutVector := s.writeoutVector.free p }
  s.refPut s.thiz

end Followed

/-- A call on the lists of an object. -/
inductive FollowerCall where
  | addFollower (follower : Addr)
  | delFollower (follower : Addr)
  | subscribe (listener : Addr)
  | unsubscribe (listener : Addr)
  deriving DecidableEq, Repr

namespace FollowerCall

/-- The object that a call is given. -/
def object : FollowerCall → Addr
  | addFollower o => o
  | delFollower o => o
  | subscribe o => o
  | unsubscribe o => o

/-- Make a call. -/
def exec (s : Followed) : FollowerCall → Except Fault Followed
  | addFollower o => s.addFollower o
  | delFollower o => s.delFollower o
  | subscribe o => s.subscribe o
  | unsubscribe o => s.unsubscribe o

/-- What a call does to the listeners. -/
def onListeners (ls : List Addr) : FollowerCall → List Addr
  | subscribe o => if o ∈ ls then ls else o :: ls
  | unsubscribe o => ls.erase o
  | addFollower _ => ls
  | delFollower _ => ls

/-- What a call does to the followers. -/
def onFollowers (ls fs : List Addr) : FollowerCall → List Addr
  | addFollower o => if o ∈ ls then fs else o :: fs
  | delFollower o => fs.erase o
  | subscribe _ => fs
  | unsubscribe _ => fs

end FollowerCall

/-! ## References -/

section References

variable {o p : Addr} {count : Addr → Nat}

@[simp]
theorem less_more (o : Addr) (count : Addr → Nat) : less o (more o count) = count := by
  simp [less, more]

theorem more_comm (o p : Addr) (count : Addr → Nat) :
    more o (more p count) = more p (more o count) := by
  funext x
  unfold more
  by_cases same : o = p
  · rw [same]
  · rw [Function.update_of_ne same, Function.update_of_ne (Ne.symm same), Function.update_comm same]

theorem less_comm (o p : Addr) (count : Addr → Nat) :
    less o (less p count) = less p (less o count) := by
  funext x
  unfold less
  by_cases same : o = p
  · rw [same]
  · rw [Function.update_of_ne same, Function.update_of_ne (Ne.symm same), Function.update_comm same]

theorem more_apply (x : Addr) : more o count x = count x + if x = o then 1 else 0 := by
  unfold more
  by_cases here : x = o
  · subst here
    rw [Function.update_self, if_pos rfl]
  · rw [Function.update_of_ne here, if_neg here, Nat.add_zero]

theorem less_apply (x : Addr) : less o count x = count x - if x = o then 1 else 0 := by
  unfold less
  by_cases here : x = o
  · subst here
    rw [Function.update_self, if_pos rfl]
  · rw [Function.update_of_ne here, if_neg here, Nat.sub_zero]

end References

namespace Followed

variable {s s' : Followed} {o x : Addr} {own : Addr → Nat} {ls fs : List Addr}

/-- The lists are in order, and each count is that of the entries, with the references that the
program holds itself. -/
structure Books (s : Followed) (own : Addr → Nat) (ls fs : List Addr) : Prop where
  listeners : ∃ cells, s.listeners.Holds cells ls
  followers : ∃ cells, s.writeoutVector.Holds cells fs
  count : ∀ o, s.refcount o = own o + ls.count o + fs.count o

/-- What a call leaves alone. -/
structure Untouched (s s' : Followed) : Prop where
  thiz : s'.thiz = s.thiz
  ioLifeCount : s'.ioLifeCount = s.ioLifeCount
  writeHandler : s'.writeHandler = s.writeHandler

theorem count_cons_eq (o x : Addr) (l : List Addr) :
    (o :: l).count x = l.count x + if x = o then 1 else 0 := by
  rw [List.count_cons]
  by_cases same : x = o
  · simp [same]
  · simp [same, Ne.symm same]

/-- The counts that the calls come to on their way. -/
theorem Books.alive (books : s.Books own ls fs) (thiz : 0 < own s.thiz) (owned : 0 < own o) :
    s.refcount s.thiz ≠ 0 ∧ more s.thiz s.refcount o ≠ 0 ∧ more s.thiz s.refcount s.thiz ≠ 0 ∧
      more o (more s.thiz s.refcount) o ≠ 0 ∧ more s.thiz (more o s.refcount) s.thiz ≠ 0 := by
  simp only [more_apply, books.count]
  refine ⟨?_, ?_, ?_, ?_, ?_⟩ <;> omega

/-- **Spec of `x_object_subscribe`.** -/
theorem Books.subscribe (books : s.Books own ls fs) (thiz : 0 < own s.thiz) (owned : 0 < own o) :
    ∃ s', s.subscribe o = .ok s' ∧
      s'.Books own ((FollowerCall.subscribe o).onListeners ls) fs ∧ s.Untouched s' := by
  rcases books.alive thiz owned with ⟨first, second, third, fourth, fifth⟩
  rcases books.listeners with ⟨cells, holds⟩
  by_cases present : o ∈ ls
  · rcases holds.find_eq_some Fault.freed Fault.hang present with
      ⟨before, p, behind, keysBefore, keysBehind, -, -, -, -, found⟩
    refine ⟨s, ?_, ?_, rfl, rfl, rfl⟩
    · simp only [Followed.subscribe, refGet, refPut, Followed.listenersExists, first,
        second, fourth,
        third, found, ok_bind, less_more, if_false]
    · rw [FollowerCall.onListeners, if_pos present]
      exact books
  · rcases holds.find_eq_none Fault.freed Fault.hang present with ⟨prev, found⟩
    refine ⟨{ s with refcount := more o s.refcount, listeners := s.listeners.push o }, ?_, ?_,
      rfl, rfl, rfl⟩
    · simp only [Followed.subscribe, refGet, refPut, Followed.listenersExists, first, second, fifth,
        found, ok_bind, if_false, more_comm o s.thiz, less_more]
    · rw [FollowerCall.onListeners, if_neg present]
      refine ⟨⟨_, holds.push o⟩, books.followers, fun x => ?_⟩
      dsimp only
      rw [more_apply, books.count, count_cons_eq]
      omega

/-- **Spec of `x_object_add_follower`.** -/
theorem Books.addFollower (books : s.Books own ls fs) (thiz : 0 < own s.thiz) (owned : 0 < own o) :
    ∃ s', s.addFollower o = .ok s' ∧
      s'.Books own ls ((FollowerCall.addFollower o).onFollowers ls fs) ∧ s.Untouched s' := by
  rcases books.alive thiz owned with ⟨first, second, third, fourth, fifth⟩
  rcases books.listeners with ⟨cells, holds⟩
  rcases books.followers with ⟨cells', holds'⟩
  by_cases present : o ∈ ls
  · rcases holds.find_eq_some Fault.freed Fault.hang present with
      ⟨before, p, behind, keysBefore, keysBehind, -, -, -, -, found⟩
    refine ⟨s, ?_, ?_, rfl, rfl, rfl⟩
    · simp only [Followed.addFollower, refGet, refPut, Followed.listenersExists, first,
        second, fourth,
        third, found, ok_bind, less_more, if_false]
    · rw [FollowerCall.onFollowers, if_pos present]
      exact books
  · rcases holds.find_eq_none Fault.freed Fault.hang present with ⟨prev, found⟩
    refine ⟨{ s with refcount := more o s.refcount, writeoutVector := s.writeoutVector.push o }, ?_,
      ?_, rfl, rfl, rfl⟩
    · simp only [Followed.addFollower, refGet, refPut, Followed.listenersExists, first,
        second, fifth,
        found, ok_bind, if_false, more_comm o s.thiz, less_more]
    · rw [FollowerCall.onFollowers, if_neg present]
      refine ⟨books.listeners, ⟨_, holds'.push o⟩, fun x => ?_⟩
      dsimp only
      rw [more_apply, books.count, count_cons_eq]
      omega

/-- Taking out the first of several equal members. -/
theorem erase_split {before behind : List Addr} (first : o ∉ before) :
    (before ++ o :: behind).erase o = before ++ behind := by
  rw [List.erase_append_right _ first, List.erase_cons_head]

/-- The reference of an entry that is taken out. -/
theorem count_erase_eq (x : Addr) {l : List Addr} (member : o ∈ l) :
    l.count x = (l.erase o).count x + if x = o then 1 else 0 := by
  have whole := (List.perm_cons_erase member).count_eq x
  rw [whole, count_cons_eq]

/-- **Spec of `x_object_unsubscribe`.** -/
theorem Books.unsubscribe (books : s.Books own ls fs) (thiz : 0 < own s.thiz) (owned : 0 < own o) :
    ∃ s', s.unsubscribe o = .ok s' ∧
      s'.Books own ((FollowerCall.unsubscribe o).onListeners ls) fs ∧ s.Untouched s' := by
  rcases books.alive thiz owned with ⟨first, second, third, fourth, fifth⟩
  rcases books.listeners with ⟨cells, holds⟩
  rw [FollowerCall.onListeners]
  by_cases present : o ∈ ls
  · rcases holds.find_eq_some Fault.freed Fault.hang present with
      ⟨before, p, behind, keysBefore, keysBehind, rfl, rfl, notBefore, place, found⟩
    refine ⟨{ s with refcount := less o s.refcount
                     listeners := (s.listeners.unlink before.getLast? p).free p }, ?_, ?_,
      rfl, rfl, rfl⟩
    · have still : less o (more s.thiz s.refcount) s.thiz ≠ 0 := by
        rw [less_apply, more_apply, books.count, if_pos rfl]
        split <;> omega
      simp only [Followed.unsubscribe, refGet, refPut, first, second, still, found,
        ok_bind, if_false,
        less_comm s.thiz o, less_more]
    · rw [erase_split notBefore]
      refine ⟨⟨_, holds.remove place⟩, books.followers, fun x => ?_⟩
      have entries := count_erase_eq x present
      rw [erase_split notBefore] at entries
      dsimp only
      rw [less_apply, books.count, entries]
      omega
  · rcases holds.find_eq_none Fault.freed Fault.hang present with ⟨prev, found⟩
    refine ⟨s, ?_, ?_, rfl, rfl, rfl⟩
    · simp only [Followed.unsubscribe, refGet, refPut, first, third, found, ok_bind, if_false,
        less_more]
    · rw [List.erase_of_not_mem present]
      exact books

/-- **Spec of `x_object_del_follower`.** -/
theorem Books.delFollower (books : s.Books own ls fs) (thiz : 0 < own s.thiz) (owned : 0 < own o) :
    ∃ s', s.delFollower o = .ok s' ∧
      s'.Books own ls ((FollowerCall.delFollower o).onFollowers ls fs) ∧ s.Untouched s' := by
  rcases books.alive thiz owned with ⟨first, second, third, fourth, fifth⟩
  rcases books.followers with ⟨cells, holds⟩
  rw [FollowerCall.onFollowers]
  by_cases present : o ∈ fs
  · rcases holds.find_eq_some Fault.freed Fault.hang present with
      ⟨before, p, behind, keysBefore, keysBehind, rfl, rfl, notBefore, place, found⟩
    refine ⟨{ s with refcount := less o s.refcount
                     writeoutVector := (s.writeoutVector.unlink before.getLast? p).free p }, ?_, ?_,
      rfl, rfl, rfl⟩
    · have still : less o (more s.thiz s.refcount) s.thiz ≠ 0 := by
        rw [less_apply, more_apply, books.count, if_pos rfl]
        split <;> omega
      simp only [Followed.delFollower, refGet, refPut, first, second, still, found,
        ok_bind, if_false,
        less_comm s.thiz o, less_more]
    · rw [erase_split notBefore]
      refine ⟨books.listeners, ⟨_, holds.remove place⟩, fun x => ?_⟩
      have entries := count_erase_eq x present
      rw [erase_split notBefore] at entries
      dsimp only
      rw [less_apply, books.count, entries]
      omega
  · rcases holds.find_eq_none Fault.freed Fault.hang present with ⟨prev, found⟩
    refine ⟨s, ?_, ?_, rfl, rfl, rfl⟩
    · simp only [Followed.delFollower, refGet, refPut, first, third, found, ok_bind, if_false,
        less_more]
    · rw [List.erase_of_not_mem present]
      exact books

/-- **A call** does to the lists what it says, and keeps the books. -/
theorem Books.exec {call : FollowerCall} (books : s.Books own ls fs) (thiz : 0 < own s.thiz)
    (owned : 0 < own call.object) :
    ∃ s', call.exec s = .ok s' ∧
      s'.Books own (call.onListeners ls) (call.onFollowers ls fs) ∧ s.Untouched s' := by
  cases call with
  | addFollower o => exact books.addFollower thiz owned
  | delFollower o => exact books.delFollower thiz owned
  | subscribe o => exact books.subscribe thiz owned
  | unsubscribe o => exact books.unsubscribe thiz owned

end Followed

/-- Nobody becomes a listener twice. -/
theorem FollowerCall.nodup_onListeners {ls : List Addr} (nodup : ls.Nodup) (call : FollowerCall) :
    (call.onListeners ls).Nodup := by
  cases call with
  | subscribe o =>
      rw [onListeners]
      split
      · exact nodup
      · next absent => exact List.nodup_cons.mpr ⟨absent, nodup⟩
  | unsubscribe o => exact nodup.erase o
  | addFollower o => exact nodup
  | delFollower o => exact nodup

/-! ## Followers as a set -/

/-- The last call about the follower, if there is one, was an add. -/
def LastAdd (calls : List FollowerCall) (o : Addr) : Prop :=
  ∃ before behind, calls = before ++ .addFollower o :: behind ∧ .delFollower o ∉ behind

theorem lastAdd_concat {calls : List FollowerCall} {call : FollowerCall} {o : Addr} :
    LastAdd (calls ++ [call]) o ↔
      call = .addFollower o ∨ LastAdd calls o ∧ call ≠ .delFollower o := by
  constructor
  · rintro ⟨before, behind, split, kept⟩
    rcases List.eq_nil_or_concat behind with rfl | ⟨behind, last, rfl⟩
    · rcases List.append_inj' split rfl with ⟨-, same⟩
      exact .inl (List.cons.inj same).1
    · right
      rw [List.concat_eq_append, ← List.cons_append, ← List.append_assoc] at split
      rcases List.append_inj' split rfl with ⟨rfl, same⟩
      cases same
      rw [List.concat_eq_append, List.mem_append, List.mem_singleton, not_or] at kept
      exact ⟨⟨before, behind, rfl, kept.1⟩, Ne.symm kept.2⟩
  · rintro (rfl | ⟨⟨before, behind, rfl, kept⟩, other⟩)
    · exact ⟨calls, [], rfl, by simp⟩
    · refine ⟨before, behind ++ [call], by simp, ?_⟩
      rw [List.mem_append, List.mem_singleton, not_or]
      exact ⟨kept, Ne.symm other⟩

namespace Followed

variable {s s' start : Followed} {own : Addr → Nat} {ls fs : List Addr} {calls : List FollowerCall}
  {call : FollowerCall}

/-- The followers are those whose last call was an add, each of them once, and they have one
reference more for it, whether they listen or not. -/
structure FollowersAreSet (start : Followed) (calls : List FollowerCall) (s : Followed) : Prop where
  members : ∀ o, o ∈ s.writeoutVector.toList ↔ LastAdd calls o
  once : ∀ o, s.writeoutVector.toList.count o ≤ 1
  references : ∀ o, s.refcount o = start.refcount o +
    (if o ∈ s.writeoutVector.toList then 1 else 0) + if o ∈ s.listeners.toList then 1 else 0

/-- A new follower is not listening either, or it is there already. -/
def AddsCleanly (s : Followed) (call : FollowerCall) : Prop :=
  ∀ f, call = .addFollower f → (f ∈ s.listeners.toList ↔ f ∈ s.writeoutVector.toList)

/-- An object that has been created. -/
structure New (s : Followed) : Prop where
  listeners : s.listeners = .empty
  writeoutVector : s.writeoutVector = .empty
  alive : 0 < s.refcount s.thiz

theorem Books.listeners_eq (books : s.Books own ls fs) : s.listeners.toList = ls := by
  rcases books.listeners with ⟨cells, holds⟩
  exact holds.toList_eq

theorem Books.followers_eq (books : s.Books own ls fs) : s.writeoutVector.toList = fs := by
  rcases books.followers with ⟨cells, holds⟩
  exact holds.toList_eq

/-- **Every sequence of calls** keeps the books. -/
theorem books_of_run (new : start.New) (owned : ∀ call ∈ calls, 0 < start.refcount call.object) :
    ∃ s ls fs, run FollowerCall.exec start calls = .ok s ∧ s.Books start.refcount ls fs ∧
      ls.Nodup ∧ s.thiz = start.thiz := by
  induction calls using List.reverseRecOn with
  | nil =>
      refine ⟨start, [], [], rfl, ⟨⟨[], ?_⟩, ⟨[], ?_⟩, by simp⟩, List.nodup_nil, rfl⟩
      · rw [new.listeners]
        exact .empty
      · rw [new.writeoutVector]
        exact .empty
  | append_singleton before call ih =>
      rw [List.forall_mem_append] at owned
      rcases ih owned.1 with ⟨s, ls, fs, result, books, nodup, thiz⟩
      have alive : 0 < start.refcount s.thiz := by
        rw [thiz]
        exact new.alive
      rcases books.exec alive (owned.2 call (List.mem_singleton_self call)) with
        ⟨s', last, books', untouched⟩
      refine ⟨s', _, _, ?_, books', FollowerCall.nodup_onListeners nodup call,
        untouched.thiz.trans thiz⟩
      rw [run_concat, result, ok_bind, last]

/-- The set, in terms of the list. -/
theorem Books.areSet_iff (books : s.Books start.refcount ls fs) (nodup : ls.Nodup) :
    FollowersAreSet start calls s ↔ (∀ o, o ∈ fs ↔ LastAdd calls o) ∧ fs.Nodup := by
  have listed : ∀ o, ls.count o = if o ∈ ls then 1 else 0 := fun _ => nodup.count
  constructor
  · rintro ⟨members, once, -⟩
    rw [books.followers_eq] at members once
    exact ⟨members, List.nodup_iff_count_le_one.mpr once⟩
  · rintro ⟨members, distinct⟩
    refine ⟨?_, ?_, fun o => ?_⟩
    · rw [books.followers_eq]
      exact members
    · rw [books.followers_eq]
      exact List.nodup_iff_count_le_one.mp distinct
    · have once : fs.count o = if o ∈ fs then 1 else 0 := distinct.count
      rw [books.followers_eq, books.listeners_eq, books.count, listed, once]
      omega

/-- A call that adds cleanly keeps the set. -/
theorem set_of_addsCleanly (members : ∀ o, o ∈ fs ↔ LastAdd calls o) (distinct : fs.Nodup)
    (cleanly : ∀ f, call = .addFollower f → (f ∈ ls ↔ f ∈ fs)) :
    (∀ o, o ∈ call.onFollowers ls fs ↔ LastAdd (calls ++ [call]) o) ∧
      (call.onFollowers ls fs).Nodup := by
  cases call with
  | subscribe f =>
      refine ⟨fun o => ?_, distinct⟩
      rw [lastAdd_concat, FollowerCall.onFollowers, members]
      simp
  | unsubscribe f =>
      refine ⟨fun o => ?_, distinct⟩
      rw [lastAdd_concat, FollowerCall.onFollowers, members]
      simp
  | delFollower f =>
      refine ⟨fun o => ?_, distinct.erase f⟩
      rw [lastAdd_concat, FollowerCall.onFollowers, distinct.mem_erase_iff, members]
      simp [and_comm, eq_comm]
  | addFollower f =>
      have same := cleanly f rfl
      rw [FollowerCall.onFollowers]
      split
      · next listening =>
          refine ⟨fun o => ?_, distinct⟩
          rw [lastAdd_concat, members]
          have already := (members f).mp (same.mp listening)
          constructor
          · exact fun added => .inr ⟨added, by simp⟩
          · rintro (equal | ⟨added, -⟩)
            · cases equal
              exact already
            · exact added
      · next absent =>
          have notYet : f ∉ fs := fun member => absent (same.mpr member)
          refine ⟨fun o => ?_, List.nodup_cons.mpr ⟨notYet, distinct⟩⟩
          rw [lastAdd_concat, List.mem_cons, members]
          simp [eq_comm]

/-- A run that adds cleanly. -/
theorem set_of_along (new : start.New) (owned : ∀ call ∈ calls, 0 < start.refcount call.object)
    (along : Along FollowerCall.exec AddsCleanly start calls) :
    ∃ s, run FollowerCall.exec start calls = .ok s ∧ FollowersAreSet start calls s := by
  induction calls using List.reverseRecOn with
  | nil =>
      rcases books_of_run new owned with ⟨s, ls, fs, result, books, nodup, -⟩
      refine ⟨s, result, (books.areSet_iff nodup).mpr ?_⟩
      cases result
      have none : fs = [] := by
        rw [← books.followers_eq, new.writeoutVector]
        rfl
      rw [none]
      refine ⟨fun o => iff_of_false List.not_mem_nil ?_, List.nodup_nil⟩
      rintro ⟨before, behind, split, -⟩
      cases before <;> cases split
  | append_singleton before call ih =>
      rw [List.forall_mem_append] at owned
      rw [along_append] at along
      rcases ih owned.1 along.1 with ⟨s, result, set⟩
      rcases books_of_run new owned.1 with ⟨_, ls, fs, reached, books, nodup, thiz⟩
      cases result.symm.trans reached
      have alive : 0 < start.refcount s.thiz := by
        rw [thiz]
        exact new.alive
      rcases books.exec alive (owned.2 call (List.mem_singleton_self call)) with
        ⟨s', last, books', -⟩
      refine ⟨s', ?_, ?_⟩
      · rw [run_concat, result, ok_bind, last]
      · rw [books'.areSet_iff (FollowerCall.nodup_onListeners nodup call)]
        rw [books.areSet_iff nodup] at set
        have cleanly := (along.2 s result).1
        rw [AddsCleanly, books.listeners_eq, books.followers_eq] at cleanly
        exact set_of_addsCleanly set.1 set.2 cleanly

end Followed

open Followed in
/-- **The followers of an object form a set** in every state of a run exactly when each follower
that is added is in both lists or in none of them. -/
theorem followersAreSet_iff {start : Followed} {calls : List FollowerCall} (new : start.New)
    (owned : ∀ call ∈ calls, 0 < start.refcount call.object) :
    (∀ before behind, calls = before ++ behind →
      ∃ s, run FollowerCall.exec start before = .ok s ∧ FollowersAreSet start before s) ↔
    Along FollowerCall.exec AddsCleanly start calls := by
  constructor
  · intro set
    rw [along_iff]
    rintro before call behind rfl s result f rfl
    rw [List.forall_mem_append, List.forall_mem_cons] at owned
    rcases books_of_run new owned.1 with ⟨_, ls, fs, reached, books, nodup, thiz⟩
    cases result.symm.trans reached
    have alive : 0 < start.refcount s.thiz := by
      rw [thiz]
      exact new.alive
    have called : ∃ s', FollowerCall.exec s (.addFollower f) = .ok s' ∧
        s'.Books start.refcount ls ((FollowerCall.addFollower f).onFollowers ls fs) ∧
          s.Untouched s' :=
      books.addFollower alive owned.2.1
    rcases called with ⟨s', last, books', -⟩
    rcases set before (.addFollower f :: behind) rfl with ⟨_, again, now⟩
    cases result.symm.trans again
    rcases set (before ++ [.addFollower f]) behind (by simp) with ⟨_, again', after⟩
    rw [run_concat, result, ok_bind, last] at again'
    cases again'
    have addedLast : LastAdd (before ++ [.addFollower f]) f := lastAdd_concat.mpr (.inl rfl)
    rw [books'.areSet_iff nodup, FollowerCall.onFollowers] at after
    rw [books.listeners_eq, books.followers_eq]
    by_cases listening : f ∈ ls
    · rw [if_pos listening] at after
      exact iff_of_true listening ((after.1 f).mpr addedLast)
    · rw [if_neg listening] at after
      exact iff_of_false listening (List.nodup_cons.mp after.2).1
  · rintro along before behind rfl
    rw [List.forall_mem_append] at owned
    exact set_of_along new owned.1 (along_append.mp along).1

/-- An object with empty lists, and others that the program holds. -/
def newFollowed : Followed where
  thiz := 0
  refcount _ := 1
  ioLifeCount _ := 0
  writeHandler := none
  listeners := .empty
  writeoutVector := .empty

theorem followersAreSet_iff_new :
    (∀ before behind, [.addFollower 1, .subscribe 1, .delFollower 1] = before ++ behind →
      ∃ s, run FollowerCall.exec newFollowed before = .ok s ∧
        Followed.FollowersAreSet newFollowed before s) ↔
    Along FollowerCall.exec Followed.AddsCleanly newFollowed
      [.addFollower 1, .subscribe 1, .delFollower 1] :=
  followersAreSet_iff ⟨rfl, rfl, by decide⟩ (by decide)

/-- A listener does not become a follower. -/
theorem not_followersAreSet_listener :
    ¬∀ before behind, [FollowerCall.subscribe 1, .addFollower 1] = before ++ behind →
      ∃ s, run FollowerCall.exec newFollowed before = .ok s ∧
        Followed.FollowersAreSet newFollowed before s := by
  intro set
  rcases set [.subscribe 1, .addFollower 1] [] rfl with ⟨s, result, members, -, -⟩
  have computed : (run FollowerCall.exec newFollowed [.subscribe 1, .addFollower 1]).map
      (fun s => s.writeoutVector.toList) = .ok [] := by
    decide
  rw [result] at computed
  have none : s.writeoutVector.toList = [] := Except.ok.inj computed
  have member : 1 ∈ s.writeoutVector.toList :=
    (members 1).mpr ⟨[.subscribe 1], [], rfl, List.not_mem_nil⟩
  rw [none] at member
  cases member

end Xwbot
