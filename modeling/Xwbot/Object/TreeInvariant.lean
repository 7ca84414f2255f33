import Xwbot.Object.Tree

/-!
# What the links represent

Seen from outside, each object has a list of sons in the order in which they
were appended.  `Rep` connects the links with these lists; the lemmas below say
what each function does to them, and under which condition it does it.
-/

namespace Xwbot.Heap

open Links

/-- The sons of each object, oldest first. -/
abbrev Kids := Addr → List Addr

/-- The links of the live objects represent the lists. -/
structure Rep (h : Heap) (kids : Kids) : Prop where
  path : ∀ p, h.live p = true → Path h.sibling (h.sons p) (kids p) none
  mem : ∀ p, h.live p = true → ∀ x, x ∈ kids p ↔ h.live x = true ∧ h.parent x = some p
  count : ∀ p, h.live p = true → h.childCount p = (kids p).length
  /-- An object without a parent has no sibling. -/
  loose : ∀ x, h.live x = true → h.parent x = none → h.sibling x = none

variable {h h' : Heap} {kids : Kids} {p x : Addr}

theorem Rep.nodup (rep : h.Rep kids) (alive : h.live p = true) : (kids p).Nodup :=
  (rep.path p alive).nodup

theorem Rep.live_of_mem (rep : h.Rep kids) (alive : h.live p = true) (member : x ∈ kids p) :
    h.live x = true :=
  ((rep.mem p alive x).mp member).1

theorem Rep.parent_of_mem (rep : h.Rep kids) (alive : h.live p = true) (member : x ∈ kids p) :
    h.parent x = some p :=
  ((rep.mem p alive x).mp member).2

/-- An object is in the list of its parent only. -/
theorem Rep.notMem_of_parent_ne (rep : h.Rep kids) (alive : h.live p = true)
    (other : h.parent x ≠ some p) : x ∉ kids p :=
  fun member => other (rep.parent_of_mem alive member)

/-- The heaps agree on every live object. -/
structure Agree (h h' : Heap) : Prop where
  live : h'.live = h.live
  name : ∀ x, h.live x = true → h'.name x = h.name x
  childCount : ∀ x, h.live x = true → h'.childCount x = h.childCount x
  parent : ∀ x, h.live x = true → h'.parent x = h.parent x
  next : ∀ x, h.live x = true → h'.next x = h.next x
  sibling : ∀ x, h.live x = true → h'.sibling x = h.sibling x
  sons : ∀ x, h.live x = true → h'.sons x = h.sons x
  attrs : ∀ x, h.live x = true → h'.attrs x = h.attrs x
  content : ∀ x, h.live x = true → h'.content x = h.content x
  bus : ∀ x, h.live x = true → h'.bus x = h.bus x
  refcount : ∀ x, h.live x = true → h'.refcount x = h.refcount x
  objclass : ∀ x, h.live x = true → h'.objclass x = h.objclass x

theorem Rep.agree (rep : h.Rep kids) (agree : Agree h h') : h'.Rep kids where
  path q alive := by
    rw [agree.live] at alive
    rw [agree.sons q alive]
    exact (rep.path q alive).congr fun x member => agree.sibling x (rep.live_of_mem alive member)
  mem q alive x := by
    rw [agree.live] at alive ⊢
    rw [rep.mem q alive x]
    exact and_congr_right fun aliveX => by rw [agree.parent x aliveX]
  count q alive := by
    rw [agree.live] at alive
    rw [agree.childCount q alive, rep.count q alive]
  loose x alive orphan := by
    rw [agree.live] at alive
    rw [agree.parent x alive] at orphan
    rw [agree.sibling x alive, rep.loose x alive orphan]

/-! ## Looking up -/

/-- The first object of a list whose name begins the given one. -/
def firstNamed (h : Heap) (l : List Addr) (cname : Text) : Option Addr :=
  l.find? fun x => eqnText (h.name x) cname

theorem deref_of_live (alive : h.live x = true) : h.deref (some x) = .ok x := by
  simp only [deref, alive, if_true]

/-- The loop over the sons of an object. -/
theorem Rep.follow (rep : h.Rep kids) (alive : h.live p = true) (stop : Addr → Bool) :
    h.follow h.sibling stop (h.sons p) =
      .ok (((kids p).takeWhile fun x => !stop x).getLast?, (kids p).find? stop) :=
  h.follow_of_passes
    (passes_of_path (rep.path p alive) fun _ member => rep.live_of_mem alive member)

theorem getChild_of_path (alive : h.live p = true) {l : List Addr}
    (path : Path h.sibling (h.sons p) l none) (sonsAlive : ∀ x ∈ l, h.live x = true)
    (cname : Text) : h.getChild (some p) (some cname) = .ok (h.firstNamed l cname) := by
  simp only [Heap.getChild, deref_of_live alive, ok_bind]
  rw [h.follow_of_passes (passes_of_path path sonsAlive), ok_bind]
  rfl

theorem Rep.getChild (rep : h.Rep kids) (alive : h.live p = true) (cname : Text) :
    h.getChild (some p) (some cname) = .ok (h.firstNamed (kids p) cname) :=
  getChild_of_path alive (rep.path p alive) (fun _ member => rep.live_of_mem alive member) cname

theorem Rep.getIndex (rep : h.Rep kids) (alive : ∀ p, h.parent x = some p → h.live p = true) :
    h.getIndex x = .ok () := by
  unfold Heap.getIndex
  cases parent_eq : h.parent x with
  | none => rfl
  | some p =>
      simp only [deref_of_live (alive p parent_eq), ok_bind, rep.follow (alive p parent_eq)]

/-- A son splits the list of its parent. -/
theorem Rep.split (rep : h.Rep kids) (alive : h.live p = true) (member : x ∈ kids p) :
    ∃ before behind, kids p = before ++ x :: behind ∧ x ∉ before ∧ x ∉ behind ∧
      h.follow h.sibling (· = x) (h.sons p) = .ok (before.getLast?, some x) := by
  obtain ⟨before, behind, kids_eq⟩ := List.append_of_mem member
  have nodup := rep.nodup alive
  rw [kids_eq, List.nodup_append, List.nodup_cons] at nodup
  obtain ⟨-, ⟨notBehind, -⟩, apart⟩ := nodup
  have notBefore : x ∉ before := fun inside => apart x inside x List.mem_cons_self rfl
  refine ⟨before, behind, kids_eq, notBefore, notBehind, ?_⟩
  have path := rep.path p alive
  rw [kids_eq] at path
  obtain ⟨c, front, rfl, -⟩ := path_append.mp path
  refine h.follow_of_passes ⟨front, fun y inside => ?_, fun y inside => ?_, ?_, ?_⟩
  · exact rep.live_of_mem alive (by simp [kids_eq, inside])
  · exact decide_eq_false (ne_of_mem_of_not_mem inside notBefore)
  · rintro y ⟨⟩
    exact rep.live_of_mem alive member
  · rintro y ⟨⟩
    exact decide_eq_true rfl

/-! ## Removing an object from the list of its parent -/

/-- The lists without an object. -/
def drop (x : Addr) (kids : Kids) : Kids :=
  fun p => (kids p).filter (· ≠ x)

theorem Rep.live_of_mem_drop (rep : h.Rep kids) {y : Addr} (alive : h.live p = true)
    (member : y ∈ drop x kids p) : h.live y = true :=
  rep.live_of_mem alive (List.mem_of_mem_filter member)

theorem drop_eq_of_notMem (outside : x ∉ kids p) : drop x kids p = kids p := by
  rw [drop, List.filter_eq_self]
  exact fun y member => decide_eq_true (ne_of_mem_of_not_mem member outside)

theorem drop_drop (x : Addr) (kids : Kids) : drop x (drop x kids) = drop x kids := by
  funext p
  simp [drop]

theorem drop_eq_of_split {before behind : List Addr} (kids_eq : kids p = before ++ x :: behind)
    (notBefore : x ∉ before) (notBehind : x ∉ behind) : drop x kids p = before ++ behind := by
  rw [drop, kids_eq, List.filter_append, List.filter_cons_of_neg (by simp)]
  congr 1
  · exact List.filter_eq_self.mpr fun y member =>
      decide_eq_true (ne_of_mem_of_not_mem member notBefore)
  · exact List.filter_eq_self.mpr fun y member =>
      decide_eq_true (ne_of_mem_of_not_mem member notBehind)

/-- The links after `x`, with the object `before` in front of it, has been taken out
of the list of `p`.  The `next` links are arbitrary. -/
def unlinked (h : Heap) (p x : Addr) (before : Option Addr) (next : Addr → Option Addr) : Heap :=
  { h with
    parent := Function.update h.parent x none
    sons := match before with
      | none => Function.update h.sons p (h.sibling x)
      | some _ => h.sons
    sibling := match before with
      | none => Function.update h.sibling x none
      | some y => Function.update (Function.update h.sibling y (h.sibling x)) x none
    next := next
    childCount := Function.update h.childCount p (h.childCount p - 1) }

/-- Taking out a son removes it from its list and changes nothing else. -/
theorem Rep.unlinked (rep : h.Rep kids) (alive : h.live p = true) {before behind : List Addr}
    (kids_eq : kids p = before ++ x :: behind) (notBefore : x ∉ before) (notBehind : x ∉ behind)
    (next : Addr → Option Addr) : (h.unlinked p x before.getLast? next).Rep (drop x kids) := by
  have parent_eq : h.parent x = some p := rep.parent_of_mem alive (by simp [kids_eq])
  have outside : ∀ q, h.live q = true → q ≠ p → x ∉ kids q := fun q aliveQ other =>
    rep.notMem_of_parent_ne aliveQ (by rw [parent_eq]; simpa using other.symm)
  have path := rep.path p alive
  rw [kids_eq] at path
  -- the object in front of `x` has the same parent
  have front : ∀ y, before.getLast? = some y → y ∈ kids p := fun y last => by
    rw [kids_eq]
    exact List.mem_append_left _ (List.mem_of_getLast? last)
  refine ⟨fun q aliveQ => ?_, fun q aliveQ y => ?_, fun q aliveQ => ?_, fun y aliveY orphan => ?_⟩
  · by_cases same : q = p
    · subst same
      rw [drop_eq_of_split kids_eq notBefore notBehind]
      cases before using List.reverseRecOn with
      | nil =>
          simp only [Heap.unlinked, List.getLast?_nil, Function.update_self, List.nil_append]
          exact Path.tail path notBehind
      | append_singleton before y =>
          simp only [Heap.unlinked, List.getLast?_concat]
          rw [List.append_assoc, List.singleton_append] at path ⊢
          exact path.unlink
    · have pathQ := rep.path q aliveQ
      rw [drop_eq_of_notMem (outside q aliveQ same)]
      cases last : before.getLast? with
      | none =>
          simp only [Heap.unlinked, Function.update_of_ne same]
          exact pathQ.update (outside q aliveQ same)
      | some y =>
          simp only [Heap.unlinked]
          refine (pathQ.update ?_).update (outside q aliveQ same)
          apply rep.notMem_of_parent_ne aliveQ
          rw [rep.parent_of_mem alive (front y last)]
          simpa using Ne.symm same
  · change y ∈ drop x kids q ↔ h.live y = true ∧ Function.update h.parent x none y = some q
    rw [drop, List.mem_filter, rep.mem q aliveQ y, decide_eq_true_eq]
    by_cases same : y = x
    · simp [same]
    · simp [same]
  · change Function.update h.childCount p (h.childCount p - 1) q = (drop x kids q).length
    by_cases same : q = p
    · subst same
      rw [Function.update_self, rep.count q alive, drop_eq_of_split kids_eq notBefore notBehind,
        kids_eq]
      simp only [List.length_append, List.length_cons]
      omega
    · rw [Function.update_of_ne same, drop_eq_of_notMem (outside q aliveQ same)]
      exact rep.count q aliveQ
  · change Function.update h.parent x none y = none at orphan
    by_cases same : y = x
    · subst same
      cases last : before.getLast? <;> simp [Heap.unlinked]
    · rw [Function.update_of_ne same] at orphan
      have loose := rep.loose y aliveY orphan
      cases last : before.getLast? with
      | none =>
          simp only [Heap.unlinked, Function.update_of_ne same]
          exact loose
      | some z =>
          have other : y ≠ z := by
            rintro rfl
            rw [rep.parent_of_mem alive (front y last)] at orphan
            cases orphan
          simp only [Heap.unlinked, Function.update_of_ne same, Function.update_of_ne other]
          exact loose

/-- Freeing an object without a parent changes no list. -/
theorem Rep.free (rep : h.Rep kids) (orphan : h.parent x = none) : (h.free x).Rep kids := by
  have alive_of : ∀ y, (h.free x).live y = true → h.live y = true ∧ y ≠ x := by
    intro y alive
    change Function.update h.live x false y = true at alive
    rw [Function.update_apply] at alive
    split at alive
    · cases alive
    · next other => exact ⟨alive, other⟩
  refine ⟨fun q alive => rep.path q (alive_of q alive).1, fun q alive y => ?_,
    fun q alive => rep.count q (alive_of q alive).1,
    fun y alive noParent => rep.loose y (alive_of y alive).1 noParent⟩
  rw [rep.mem q (alive_of q alive).1 y]
  refine and_congr_left fun parent_eq => ?_
  change h.live y = true ↔ Function.update h.live x false y = true
  have other : y ≠ x := by
    rintro rfl
    change h.parent y = some q at parent_eq
    rw [orphan] at parent_eq
    cases parent_eq
  rw [Function.update_of_ne other]

theorem Rep.congr {kids' : Kids} (rep : h.Rep kids)
    (same : ∀ p, h.live p = true → kids' p = kids p) : h.Rep kids' where
  path p alive := by
    rw [same p alive]
    exact rep.path p alive
  mem p alive x := by
    rw [same p alive]
    exact rep.mem p alive x
  count p alive := by
    rw [same p alive]
    exact rep.count p alive
  loose := rep.loose

/-- An object without a parent is in no list. -/
theorem Rep.drop_orphan (rep : h.Rep kids) (orphan : h.parent x = none) :
    h.Rep (drop x kids) :=
  rep.congr fun p alive =>
    drop_eq_of_notMem (rep.notMem_of_parent_ne alive (by rw [orphan]; simp))

/-! ## Appending an object -/

/-- The lists after an object is appended. -/
def extend (p c : Addr) (kids : Kids) : Kids :=
  Function.update kids p (kids p ++ [c])

/-- The links after `c` has been put behind `last`, the last son of `p` if there is one.
The `next` links are arbitrary. -/
def linked (h : Heap) (p c : Addr) (last : Option Addr) (next : Addr → Option Addr) : Heap :=
  { h with
    parent := Function.update h.parent c (some p)
    sons := match last with
      | none => Function.update h.sons p (some c)
      | some _ => h.sons
    sibling := match last with
      | none => Function.update h.sibling c none
      | some y => Function.update (Function.update h.sibling y (some c)) c none
    next := next
    childCount := Function.update h.childCount p (h.childCount p + 1) }

/-- Linking puts the object at the end of one list and changes nothing else. -/
theorem Rep.linked {c : Addr} (rep : h.Rep kids) (alive : h.live p = true)
    (aliveC : h.live c = true) (orphan : h.parent c = none) (next : Addr → Option Addr) :
    (h.linked p c (kids p).getLast? next).Rep (extend p c kids) := by
  have outside : ∀ q, h.live q = true → c ∉ kids q := fun q aliveQ =>
    rep.notMem_of_parent_ne aliveQ (by rw [orphan]; simp)
  have front : ∀ y, (kids p).getLast? = some y → y ∈ kids p := fun y last =>
    List.mem_of_getLast? last
  refine ⟨fun q aliveQ => ?_, fun q aliveQ y => ?_, fun q aliveQ => ?_, fun y aliveY noParent => ?_⟩
  · by_cases same : q = p
    · subst same
      have path := rep.path q alive
      have fresh := outside q alive
      rw [extend, Function.update_self]
      cases kids_eq : kids q using List.reverseRecOn with
      | nil =>
          simp only [Heap.linked, List.getLast?_nil, Function.update_self, List.nil_append]
          exact ⟨rfl, by simp⟩
      | append_singleton before y =>
          rw [kids_eq] at path fresh
          have nodup := path.nodup
          rw [List.nodup_append] at nodup
          have notBefore : y ∉ before := fun member => nodup.2.2 y member y (by simp) rfl
          simp only [Heap.linked, List.getLast?_concat]
          have extended := (path.concat (v := some c) notBefore).update (v := none) fresh
          exact path_append.mpr ⟨some c, extended, rfl, by simp⟩
    · have pathQ := rep.path q aliveQ
      rw [extend, Function.update_of_ne same]
      cases last : (kids p).getLast? with
      | none =>
          simp only [Heap.linked, Function.update_of_ne same]
          exact pathQ.update (outside q aliveQ)
      | some y =>
          simp only [Heap.linked]
          refine (pathQ.update ?_).update (outside q aliveQ)
          apply rep.notMem_of_parent_ne aliveQ
          rw [rep.parent_of_mem alive (front y last)]
          simpa using Ne.symm same
  · change y ∈ extend p c kids q ↔
      h.live y = true ∧ Function.update h.parent c (some p) y = some q
    by_cases sameC : y = c
    · subst sameC
      rw [Function.update_self]
      by_cases same : q = p
      · simp [extend, same, aliveC]
      · simp [extend, same, outside q aliveQ, Ne.symm same]
    · rw [Function.update_of_ne sameC, ← rep.mem q aliveQ y]
      by_cases same : q = p
      · subst same
        simp [extend, sameC]
      · simp [extend, same]
  · change Function.update h.childCount p (h.childCount p + 1) q = (extend p c kids q).length
    by_cases same : q = p
    · subst same
      simp [extend, rep.count q alive]
    · simp [extend, same, rep.count q aliveQ]
  · change Function.update h.parent c (some p) y = none at noParent
    have sameC : y ≠ c := by
      rintro rfl
      simp at noParent
    rw [Function.update_of_ne sameC] at noParent
    have loose := rep.loose y aliveY noParent
    cases last : (kids p).getLast? with
    | none =>
        simp only [Heap.linked, Function.update_of_ne sameC]
        exact loose
    | some z =>
        have other : y ≠ z := by
          rintro rfl
          rw [rep.parent_of_mem alive (front y last)] at noParent
          cases noParent
        simp only [Heap.linked, Function.update_of_ne sameC, Function.update_of_ne other]
        exact loose

/-- The loop along `next` from an object meets only live objects, up to one that
stops it or to the end. -/
def NextOk (h : Heap) (start : Option Addr) (stop : Addr → Bool) : Prop :=
  ∃ l found, Passes h.live stop h.next start l found

/-- The objects that `__x_object_insert_into_tree` looks at are live. -/
def AppendOk (h : Heap) (kids : Kids) (p c : Addr) : Prop :=
  h.live p = true ∧ h.live c = true ∧ h.parent c = none ∧
    (kids p ≠ [] → h.NextOk (h.firstNamed (kids p ++ [c]) (h.name c)) fun _ => false)

/-- The `next` links after `c` has been put behind `last`, the end of the chain of its
name if there is one. -/
def nextWith (h : Heap) (c : Addr) (last : Option Addr) : Addr → Option Addr :=
  Function.update (match last with
    | some z => Function.update h.next z (some c)
    | none => h.next) c none

/-- What `__x_object_insert_into_tree` does is settled up to its walk along `next`. -/
theorem insertIntoTree_eq_of_path {c : Addr} {l : List Addr}
    (path : Path h.sibling (h.sons p) l none) (alive : h.live p = true)
    (sonsAlive : ∀ y ∈ l, h.live y = true) (aliveC : h.live c = true) (fresh : c ∉ l)
    (loose : h.sibling c = none) :
    h.insertIntoTree p c =
      if l = [] then .ok (h.linked p c l.getLast? (h.nextWith c none))
      else h.follow h.next (fun _ => false) (h.firstNamed (l ++ [c]) (h.name c)) >>= fun walk =>
        .ok (h.linked p c l.getLast? (h.nextWith c walk.1)) := by
  cases l_eq : l using List.reverseRecOn with
  | nil =>
      rw [l_eq] at path
      have sons_eq : h.sons p = none := path
      simp only [Heap.insertIntoTree, setParent_sons, sons_eq, ok_bind, if_true]
      rfl
  | append_singleton before y =>
      rw [if_neg (by simp)]
      obtain ⟨son, sons_eq⟩ : ∃ son, h.sons p = some son := by
        rw [l_eq] at path
        cases before with
        | nil => exact ⟨y, path.1⟩
        | cons son rest => exact ⟨son, path.1⟩
      -- the end of the sibling list
      have last : (h.setParent c (some p)).follow h.sibling (fun _ => false) (h.sons p) =
          .ok (some y, none) := by
        have passes : Passes h.live (fun _ => false) h.sibling (h.sons p)
            (l.takeWhile fun _ => !false) (l.find? fun _ => false) :=
          passes_of_path path sonsAlive
        have walked := h.follow_of_passes passes
        rw [l_eq, List.takeWhile_eq_self_iff.mpr (by simp), List.find?_eq_none.mpr (by simp),
          List.getLast?_concat] at walked
        exact walked
      -- the sons with the new one, which is linked already
      have walk : Path (Function.update h.sibling y (some c)) (h.sons p) (l ++ [c]) none := by
        have nodup := path.nodup
        rw [l_eq] at path nodup fresh ⊢
        rw [List.nodup_append] at nodup
        have extended := path.concat (v := some c) fun member =>
          nodup.2.2 y member y (by simp) rfl
        have other : c ≠ y := fun same => fresh (by simp [same])
        exact path_append.mpr ⟨some c, extended, rfl, by
          rw [Function.update_of_ne other]
          exact loose⟩
      have named : ((h.setParent c (some p)).setSibling y (some c)).getChild (some p)
          (some (h.name c)) = .ok (h.firstNamed (l ++ [c]) (h.name c)) := by
        refine getChild_of_path (h := (h.setParent c (some p)).setSibling y (some c)) alive walk ?_
          (h.name c)
        intro x member
        rcases List.mem_append.mp member with member | member
        · exact sonsAlive x member
        · rw [List.mem_singleton.mp member]
          exact aliveC
      simp only [Heap.insertIntoTree, setParent_sons, setParent_sibling]
      rw [sons_eq] at last ⊢
      simp only [last, ok_bind, setSibling_name, setParent_name, named, ← l_eq]
      change h.follow h.next (fun _ => false) _ >>= _ = _
      cases h.follow h.next (fun _ => false) (h.firstNamed (l ++ [c]) (h.name c)) with
      | error fault => rfl
      | ok found =>
          obtain ⟨last, found⟩ := found
          rw [l_eq, List.getLast?_concat]
          cases last <;> rfl

theorem Rep.insertIntoTree_eq {c : Addr} (rep : h.Rep kids) (alive : h.live p = true)
    (aliveC : h.live c = true) (orphan : h.parent c = none) :
    h.insertIntoTree p c =
      if kids p = [] then .ok (h.linked p c (kids p).getLast? (h.nextWith c none))
      else h.follow h.next (fun _ => false) (h.firstNamed (kids p ++ [c]) (h.name c)) >>=
        fun walk =>
        .ok (h.linked p c (kids p).getLast? (h.nextWith c walk.1)) :=
  insertIntoTree_eq_of_path (rep.path p alive) alive (fun _ member => rep.live_of_mem alive member)
    aliveC (rep.notMem_of_parent_ne alive (by rw [orphan]; simp)) (rep.loose c aliveC orphan)

/-- **Spec of `__x_object_insert_into_tree`.** -/
theorem Rep.insertIntoTree {c : Addr} (rep : h.Rep kids) (ok : h.AppendOk kids p c) :
    ∃ next, h.insertIntoTree p c = .ok (h.linked p c (kids p).getLast? next) := by
  obtain ⟨alive, aliveC, orphan, nextOk⟩ := ok
  rw [rep.insertIntoTree_eq alive aliveC orphan]
  by_cases none : kids p = []
  · rw [if_pos none]
    exact ⟨_, rfl⟩
  · obtain ⟨passed, found, passes⟩ := nextOk none
    rw [if_neg none, h.follow_of_passes passes, ok_bind]
    exact ⟨_, rfl⟩

/-- **Spec of `x_object_append_child_no_cb`.** -/
theorem Rep.appendChildNoCb {c : Addr} (rep : h.Rep kids) (ok : h.AppendOk kids p c) :
    ∃ h', h.appendChildNoCb p c = .ok h' ∧ h'.Rep (extend p c kids) ∧ h'.live = h.live := by
  obtain ⟨next, inserted⟩ := rep.insertIntoTree ok
  obtain ⟨alive, aliveC, orphan, -⟩ := ok
  have rep' := rep.linked alive aliveC orphan next
  simp only [Heap.appendChildNoCb, deref_of_live alive, deref_of_live aliveC, ok_bind, inserted]
  exact ⟨_, rfl, ⟨rep'.path, rep'.mem, rep'.count, rep'.loose⟩, rfl⟩

/-! ## Destroying an object -/

/-- The objects that `x_object_destroy_no_cb` looks at are live. -/
def DestroyOk (h : Heap) (kids : Kids) (x : Addr) : Prop :=
  h.live x = true ∧ ∀ p, h.parent x = some p →
    h.live p = true ∧ h.NextOk (h.firstNamed (drop x kids p) (h.name x)) (· = x)

/-- The heap with other `next` links. -/
@[simps -fullyApplied]
def withNext (h : Heap) (next : Addr → Option Addr) : Heap :=
  { h with next := next }

/-- The `next` links after `x` has been taken out of the chain in which the objects
`passed` come first.  When the loop did not find it, only its own link is cleared. -/
def nextWithout (h : Heap) (x : Addr) (passed : List Addr) (found : Option Addr) :
    Addr → Option Addr :=
  Function.update (match passed.getLast?, found with
    | some w, some y => Function.update h.next w (h.next y)
    | _, _ => h.next) x none

/-- The loop did not find the object. -/
theorem nextWithout_none {passed : List Addr} :
    h.nextWithout x passed none = Function.update h.next x none := by
  unfold nextWithout
  cases passed.getLast? <;> rfl

/-- The chain of an object's name is repaired; only `next` links change. -/
theorem unlinkNext_eq_ok {l passed : List Addr} {found : Option Addr} (alive : h.live p = true)
    (path : Path h.sibling (h.sons p) l none) (sonsAlive : ∀ y ∈ l, h.live y = true)
    (passes : Passes h.live (· = x) h.next (h.firstNamed l (h.name x)) passed found) :
    h.unlinkNext p x = .ok (h.withNext (h.nextWithout x passed found)) := by
  simp only [unlinkNext, getChild_of_path alive path sonsAlive, ok_bind,
    h.follow_of_passes passes, nextWithout]
  cases passed.getLast? <;> cases found <;> rfl

/-- The first walk of `x_object_destroy_no_cb`: together with the stores behind it, and
with any `next` links, it takes the object out of the list of its parent. -/
theorem Rep.unlinkSibling (rep : h.Rep kids) (alive : h.live x = true) (aliveP : h.live p = true)
    (parent_eq : h.parent x = some p) :
    ∃ middle before, h.unlinkSibling p x = .ok middle ∧ middle.next = h.next ∧
      (∀ next, ((middle.withNext next).setParent x none).setChildCount p
        (middle.childCount p - 1) = h.unlinked p x before next) ∧
      ∀ next, (h.unlinked p x before next).Rep (drop x kids) := by
  obtain ⟨before, behind, kids_eq, notBefore, notBehind, found_eq⟩ :=
    rep.split aliveP ((rep.mem p aliveP x).mpr ⟨alive, parent_eq⟩)
  have done := rep.unlinked aliveP kids_eq notBefore notBehind
  simp only [Heap.unlinkSibling, found_eq, ok_bind]
  cases last : before.getLast? with
  | none => exact ⟨_, none, rfl, rfl, fun next => rfl, last ▸ done⟩
  | some y => exact ⟨_, some y, rfl, rfl, fun next => rfl, last ▸ done⟩

/-- Between the two walks the lookup of the name sees the other sons. -/
theorem path_of_unlinkSibling (aliveP : h.live p = true) {middle : Heap}
    {before : Option Addr}
    (middle_eq : ∀ next, ((middle.withNext next).setParent x none).setChildCount p
      (middle.childCount p - 1) = h.unlinked p x before next)
    (done : ∀ next, (h.unlinked p x before next).Rep (drop x kids)) :
    Path middle.sibling (middle.sons p) (drop x kids p) none ∧ middle.live = h.live ∧
      middle.name = h.name := by
  have live_same := congrArg Heap.live (middle_eq h.next)
  have name_same := congrArg Heap.name (middle_eq h.next)
  simp only [setChildCount_live, setParent_live, withNext_live, setChildCount_name,
    setParent_name, withNext_name, Heap.unlinked] at live_same name_same
  have walk := (done h.next).path p aliveP
  rw [← middle_eq] at walk
  exact ⟨walk, live_same, name_same⟩

/-- `x_object_destroy_no_cb` for an object with a parent, and what becomes of the chain of its
name. -/
theorem Rep.destroySon (rep : h.Rep kids) (alive : h.live x = true) (aliveP : h.live p = true)
    (parent_eq : h.parent x = some p) {passed : List Addr} {found : Option Addr}
    (passes : Passes h.live (· = x) h.next (h.firstNamed (drop x kids p) (h.name x)) passed found) :
    ∃ h', h.destroyNoCb x = .ok h' ∧ h'.Rep (drop x kids) ∧
      h'.live = Function.update h.live x false ∧ h'.next = h.nextWithout x passed found := by
  obtain ⟨middle, before, unlink_eq, next_same, middle_eq, done⟩ :=
    rep.unlinkSibling alive aliveP parent_eq
  obtain ⟨walk, live_same, name_same⟩ :=
    path_of_unlinkSibling aliveP middle_eq done
  have next_eq : middle.unlinkNext p x =
      .ok (middle.withNext (middle.nextWithout x passed found)) := by
    refine unlinkNext_eq_ok (by rw [live_same, aliveP]) walk (fun y member => ?_) ?_
    · rw [live_same]
      exact rep.live_of_mem_drop aliveP member
    · rw [firstNamed, live_same, next_same, name_same]
      exact passes
  refine ⟨_, ?_, (done (middle.nextWithout x passed found)).free (by simp [Heap.unlinked]), rfl,
    ?_⟩
  · unfold Heap.destroyNoCb
    simp only [deref_of_live alive, parent_eq, deref_of_live aliveP, ok_bind, unlink_eq, next_eq]
    rw [← middle_eq]
    rfl
  · change middle.nextWithout x passed found = _
    simp only [nextWithout, next_same]

/-- **Spec of `x_object_destroy_no_cb`.** -/
theorem Rep.destroyNoCb (rep : h.Rep kids) (ok : h.DestroyOk kids x) :
    ∃ h', h.destroyNoCb x = .ok h' ∧ h'.Rep (drop x kids) ∧
      h'.live = Function.update h.live x false := by
  obtain ⟨alive, parentOk⟩ := ok
  cases parent_eq : h.parent x with
  | none =>
      refine ⟨h.free x, ?_, (rep.drop_orphan parent_eq).free parent_eq, rfl⟩
      unfold Heap.destroyNoCb
      simp only [deref_of_live alive, parent_eq, ok_bind]
  | some p =>
      obtain ⟨aliveP, passed, found, passes⟩ := parentOk p parent_eq
      obtain ⟨h', result, rep', live_eq, -⟩ := rep.destroySon alive aliveP parent_eq passes
      exact ⟨h', result, rep', live_eq⟩

/-- The sibling list is repaired behind the first son. -/
theorem removeSibling_eq_ok {y : Addr}
    (found : h.follow h.sibling (· = x) (h.sons p) = .ok (some y, some x)) :
    h.removeSibling p x = .ok ((h.setSibling y (h.sibling x)).setSibling x none) := by
  simp only [removeSibling, found, ok_bind]

/-- **Spec of `__x_object_remove_from_treenode`**, for a son that is not the first. -/
theorem Rep.removeFromTreenode (rep : h.Rep kids) (alive : h.live p = true)
    (aliveX : h.live x = true) (parent_eq : h.parent x = some p) (notFirst : h.sons p ≠ some x)
    {passed : List Addr} {found : Option Addr}
    (passes : Passes h.live (· = x) h.next (h.firstNamed (kids p) (h.name x)) passed found) :
    ∃ before, h.removeFromTreenode p x =
        .ok (h.unlinked p x before (h.nextWithout x passed found)) ∧
      (h.unlinked p x before (h.nextWithout x passed found)).Rep (drop x kids) := by
  obtain ⟨before, behind, kids_eq, notBefore, notBehind, found_eq⟩ :=
    rep.split alive ((rep.mem p alive x).mpr ⟨aliveX, parent_eq⟩)
  have path := rep.path p alive
  obtain ⟨y, last⟩ : ∃ y, before.getLast? = some y := by
    cases before with
    | nil =>
        rw [kids_eq] at path
        exact absurd path.1 notFirst
    | cons z rest => exact ⟨_, List.getLast?_eq_some_getLast (List.cons_ne_nil z rest)⟩
  obtain ⟨son, sons_eq⟩ : ∃ son, h.sons p = some son := by
    cases kids_eq' : kids p with
    | nil => simp [kids_eq] at kids_eq'
    | cons son rest =>
        rw [kids_eq'] at path
        exact ⟨son, path.1⟩
  let next := h.nextWithout x passed found
  have next_eq : (h.setParent x none).unlinkNext p x = .ok ((h.setParent x none).withNext next) :=
    unlinkNext_eq_ok (h := h.setParent x none) alive path
      (fun _ member => rep.live_of_mem alive member) passes
  have positive : ¬ h.childCount p ≤ 0 := by
    rw [rep.count p alive, kids_eq]
    simp only [List.length_append, List.length_cons]
    omega
  refine ⟨before.getLast?, ?_, rep.unlinked alive kids_eq notBefore notBehind next⟩
  have removed := removeSibling_eq_ok (h := (h.setParent x none).withNext next) (p := p)
    (last ▸ found_eq)
  simp only [Heap.removeFromTreenode, setParent_sons, sons_eq, next_eq, ok_bind, removed]
  simp only [setSibling_childCount, withNext_childCount, setParent_childCount, positive, if_false,
    last]
  rfl

/-! ## References -/

/-- Dropping a reference only looks at live objects. -/
def PutOk (h : Heap) (kids : Kids) (o : Addr) : Prop :=
  h.live o = true ∧ (h.refcount o ≤ 1 → h.DestroyOk kids o)

/-- The lists after dropping a reference. -/
def afterPut (h : Heap) (o : Addr) (kids : Kids) : Kids :=
  if h.refcount o ≤ 1 then drop o kids else kids

/-- **Spec of `x_object_ref_put`.** -/
theorem Rep.refPut (rep : h.Rep kids) (ok : h.PutOk kids x) :
    ∃ h', h.refPut (some x) = .ok h' ∧ h'.Rep (h.afterPut x kids) ∧
      ∀ y, y ≠ x → h'.live y = h.live y := by
  obtain ⟨alive, destroyOk⟩ := ok
  have rep' : (h.setRefcount x (h.refcount x - 1)).Rep kids :=
    ⟨rep.path, rep.mem, rep.count, rep.loose⟩
  simp only [Heap.refPut, deref_of_live alive, ok_bind, setRefcount_refcount, Function.update_self]
  unfold afterPut
  by_cases last : h.refcount x ≤ 1
  · rw [if_pos (by omega), if_pos last]
    obtain ⟨h', destroyed, rep'', live_eq⟩ := rep'.destroyNoCb (x := x) (destroyOk last)
    refine ⟨h', destroyed, rep'', fun y other => ?_⟩
    rw [live_eq, Function.update_of_ne other]
    rfl
  · rw [if_neg (by omega), if_neg last]
    exact ⟨_, rfl, rep', fun _ _ => rfl⟩

/-- A notification leaves every live object as it is. -/
theorem notify_eq_ok (h : Heap) :
    ∃ h', h.notify = .ok h' ∧ Agree h h' ∧ h'.top = h.top + 1 := by
  have unused : h.live h.top = false := by
    rw [← Bool.not_eq_true]
    exact fun alive => absurd (h.live_lt _ alive) (lt_irrefl _)
  have other : ∀ x, h.live x = true → x ≠ h.top := fun x alive => (h.live_lt x alive).ne
  refine ⟨((h.alloc (lit "$message") none).1.setRefcount h.top 0).free h.top, ?_, ?_, rfl⟩
  · have alive : (h.alloc (lit "$message") none).1.live h.top = true := Function.update_self ..
    have once : (h.alloc (lit "$message") none).1.refcount h.top = 1 := Function.update_self ..
    have orphan : (h.alloc (lit "$message") none).1.parent h.top = none := Function.update_self ..
    change (h.alloc (lit "$message") none).1.refPut (some h.top) = _
    simp only [Heap.refPut, deref_of_live alive, ok_bind, once, Int.sub_self, setRefcount_refcount,
      Function.update_self, le_refl, if_true, Heap.destroyNoCb]
    rw [deref_of_live (by exact alive), ok_bind]
    simp only [setRefcount_parent, orphan]
  · refine ⟨?_, ?_, ?_, ?_, ?_, ?_, ?_, ?_, ?_, ?_, ?_, ?_⟩
    · funext x
      by_cases same : x = h.top
      · simp [same, unused]
      · simp [same, alloc]
    all_goals
      intro x alive
      simp [other x alive, alloc]

/-- **Spec of `x_object_append_child`.** -/
theorem Rep.appendChild {c : Addr} (rep : h.Rep kids) (ok : h.AppendOk kids p c) :
    ∃ h', h.appendChild p c = .ok h' ∧ h'.Rep (extend p c kids) ∧ h'.live = h.live := by
  obtain ⟨h', appended, rep', live_eq⟩ := rep.appendChildNoCb ok
  obtain ⟨h'', notified, agree, -⟩ := notify_eq_ok h'
  have aliveP : h'.live p = true := by rw [live_eq, ok.1]
  have indexed : h'.getIndex c = .ok () := by
    refine rep'.getIndex fun q parent_eq => ?_
    have own := rep'.parent_of_mem aliveP (x := c) (by simp [extend])
    rw [own] at parent_eq
    cases parent_eq
    exact aliveP
  refine ⟨h'', ?_, rep'.agree agree, by rw [agree.live, live_eq]⟩
  simp only [Heap.appendChild, appended, ok_bind, indexed, notified]

/-! ## Conditions and heaps that agree -/

theorem firstNamed_agree (agree : Agree h h') {l : List Addr} (alive : ∀ y ∈ l, h.live y = true)
    (cname : Text) : h'.firstNamed l cname = h.firstNamed l cname := by
  induction l with
  | nil => rfl
  | cons y rest ih =>
      rw [List.forall_mem_cons] at alive
      have rest_eq := ih alive.2
      simp only [firstNamed] at rest_eq
      simp only [firstNamed, List.find?_cons, agree.name y alive.1, rest_eq]

theorem NextOk.agree {start : Option Addr} {stop : Addr → Bool} (ok : h.NextOk start stop)
    (agree : Agree h h') : h'.NextOk start stop := by
  obtain ⟨l, found, passes⟩ := ok
  refine ⟨l, found, ?_⟩
  rw [agree.live]
  exact ⟨passes.path.congr fun y member => agree.next y (passes.live_of_mem y member),
    passes.live_of_mem, passes.stop_of_mem, passes.live_of_found, passes.stop_of_found⟩

theorem PutOk.agree (rep : h.Rep kids) (ok : h.PutOk kids x) (agree : Agree h h') :
    h'.PutOk kids x := by
  obtain ⟨alive, destroyOk⟩ := ok
  refine ⟨by rw [agree.live, alive], fun last => ⟨by rw [agree.live, alive], fun p parent_eq => ?_⟩⟩
  rw [agree.refcount x alive] at last
  rw [agree.parent x alive] at parent_eq
  obtain ⟨-, parentOk⟩ := destroyOk last
  obtain ⟨aliveP, nextOk⟩ := parentOk p parent_eq
  refine ⟨by rw [agree.live, aliveP], ?_⟩
  rw [agree.name x alive, firstNamed_agree agree fun y member => rep.live_of_mem_drop aliveP member]
  exact nextOk.agree agree

/-- The heap after a reference to an object without a parent is dropped. -/
def release (h : Heap) (x : Addr) : Heap :=
  if h.refcount x ≤ 1 then (h.setRefcount x (h.refcount x - 1)).free x
  else h.setRefcount x (h.refcount x - 1)

theorem refPut_of_orphan (alive : h.live x = true) (orphan : h.parent x = none) :
    h.refPut (some x) = .ok (h.release x) := by
  simp only [Heap.refPut, deref_of_live alive, ok_bind, setRefcount_refcount, Function.update_self,
    release]
  by_cases last : h.refcount x ≤ 1
  · rw [if_pos (by omega), if_pos last, Heap.destroyNoCb, deref_of_live (by exact alive), ok_bind]
    simp only [setRefcount_parent, orphan]
  · rw [if_neg (by omega), if_neg last]

/-- With more than one reference nothing happens but the count. -/
theorem refPut_of_many (alive : h.live x = true) (many : 1 < h.refcount x) :
    h.refPut (some x) = .ok (h.setRefcount x (h.refcount x - 1)) := by
  simp only [refPut, deref_of_live alive, ok_bind, setRefcount_refcount, Function.update_self]
  rw [if_neg (by omega)]

/-- With the last reference the object is destroyed. -/
theorem refPut_of_last (alive : h.live x = true) (last : h.refcount x ≤ 1) :
    h.refPut (some x) = (h.setRefcount x (h.refcount x - 1)).destroyNoCb x := by
  simp only [refPut, deref_of_live alive, ok_bind, setRefcount_refcount, Function.update_self]
  rw [if_pos (by omega)]

theorem Rep.release (rep : h.Rep kids) (orphan : h.parent x = none) : (h.release x).Rep kids := by
  have rep' : (h.setRefcount x (h.refcount x - 1)).Rep kids :=
    ⟨rep.path, rep.mem, rep.count, rep.loose⟩
  unfold Heap.release
  split
  · exact rep'.free orphan
  · exact rep'

theorem live_of_free {y : Addr} (alive : (h.free x).live y = true) : h.live y = true := by
  rw [free_live, Function.update_apply] at alive
  split at alive
  · cases alive
  · exact alive

theorem Agree.free (agree : Agree h h') : Agree (h.free x) (h'.free x) where
  live := by simp [agree.live]
  name y alive := agree.name y (live_of_free alive)
  childCount y alive := agree.childCount y (live_of_free alive)
  parent y alive := agree.parent y (live_of_free alive)
  next y alive := agree.next y (live_of_free alive)
  sibling y alive := agree.sibling y (live_of_free alive)
  sons y alive := agree.sons y (live_of_free alive)
  attrs y alive := agree.attrs y (live_of_free alive)
  content y alive := agree.content y (live_of_free alive)
  bus y alive := agree.bus y (live_of_free alive)
  refcount y alive := agree.refcount y (live_of_free alive)
  objclass y alive := agree.objclass y (live_of_free alive)

theorem Agree.setRefcount (agree : Agree h h') (n : Int) :
    Agree (h.setRefcount x n) (h'.setRefcount x n) where
  live := agree.live
  name := agree.name
  childCount := agree.childCount
  parent := agree.parent
  next := agree.next
  sibling := agree.sibling
  sons := agree.sons
  attrs := agree.attrs
  content := agree.content
  bus := agree.bus
  refcount y alive := by
    rw [setRefcount_refcount, setRefcount_refcount, Function.update_apply, Function.update_apply,
      agree.refcount y alive]
  objclass := agree.objclass

theorem Agree.release (agree : Agree h h') (alive : h.live x = true) :
    Agree (h.release x) (h'.release x) := by
  unfold Heap.release
  rw [agree.refcount x alive]
  split
  · exact (agree.setRefcount _).free
  · exact agree.setRefcount _

/-! ## Removing an object -/

/-- The objects that `x_object_remove_from_parent` looks at are live, and the object is
not the first son of its parent.  The last condition is about the reference to the
parent, which is dropped when the object has been unlinked and its own reference is gone. -/
def RemoveOk (h : Heap) (kids : Kids) (x : Addr) : Prop :=
  h.live x = true ∧ ∀ p, h.parent x = some p →
    h.live p = true ∧ h.sons p ≠ some x ∧
      ∃ passed found,
        Passes h.live (· = x) h.next (h.firstNamed (kids p) (h.name x)) passed found ∧
        ∀ before, ((h.unlinked p x before (h.nextWithout x passed found)).release x).PutOk
          (drop x kids) p

/-- The lists after `x_object_remove_from_parent`. -/
def afterRemove (h : Heap) (x : Addr) (kids : Kids) : Kids :=
  match h.parent x with
  | none => kids
  | some p => if h.refcount p ≤ 1 then drop p (drop x kids) else drop x kids

/-- **Spec of `x_object_remove_from_parent`.** -/
theorem Rep.removeFromParent (rep : h.Rep kids) (ok : h.RemoveOk kids x) :
    ∃ h', h.removeFromParent x = .ok h' ∧ h'.Rep (h.afterRemove x kids) := by
  obtain ⟨alive, parentOk⟩ := ok
  simp only [Heap.removeFromParent, deref_of_live alive, ok_bind, afterRemove]
  cases parent_eq : h.parent x with
  | none =>
      refine ⟨h.release x, ?_, rep.release parent_eq⟩
      simp only [ok_bind, refPut_of_orphan alive parent_eq]
      rfl
  | some p =>
      obtain ⟨aliveP, notFirst, passed, found, passes, putOk⟩ := parentOk p parent_eq
      obtain ⟨before, removed, rep'⟩ :=
        rep.removeFromTreenode aliveP alive parent_eq notFirst passes
      have putOk := putOk before
      set h₁ := h.unlinked p x before (h.nextWithout x passed found) with h₁_eq
      have alive₁ : h₁.live x = true := alive
      have orphan₁ : h₁.parent x = none := by simp [h₁_eq, Heap.unlinked]
      obtain ⟨h₂, notified, agree, -⟩ := notify_eq_ok h₁
      have alive₂ : h₂.live x = true := by rw [agree.live, alive₁]
      have orphan₂ : h₂.parent x = none := by rw [agree.parent x alive₁, orphan₁]
      have putOk₂ := putOk.agree (rep'.release orphan₁) (agree.release alive₁)
      obtain ⟨h₃, put, rep₃, -⟩ := ((rep'.agree agree).release orphan₂).refPut putOk₂
      have indexed : h.getIndex x = .ok () := by
        refine rep.getIndex fun q same => ?_
        rw [parent_eq] at same
        cases same
        exact aliveP
      refine ⟨h₃, ?_, ?_⟩
      · simp only [deref_of_live aliveP, ok_bind, indexed, removed, notified,
          refPut_of_orphan alive₂ orphan₂, put]
      · have counts : p ≠ x → (h₂.release x).refcount p = h.refcount p := by
          intro other
          have kept : (h₂.release x).refcount p = h₂.refcount p := by
            unfold Heap.release
            split <;> simp [other]
          rw [kept, agree.refcount p aliveP]
          rfl
        by_cases same : p = x
        · subst same
          convert rep₃ using 1
          simp only [afterPut, drop_drop]
          split <;> split <;> rfl
        · rw [afterPut, counts same] at rep₃
          exact rep₃

end Xwbot.Heap
