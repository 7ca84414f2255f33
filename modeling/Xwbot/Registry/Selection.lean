import Xwbot.Registry

/-!
# Selecting a class

The classes that are registered under one name are linked behind the first of them, which
is the one in the table.  The loop of `x_obj_get_class` is to try them one after the other,
but its test for the end of the list is true for the entry that it starts at.
-/

namespace Xwbot

open Runs

variable {classmatch : Nat → Option (AttrList → Int)} {turns : Nat}
  {calls : List RegistryCall} {call : RegistryCall} {r r' : Registry} {key name : Text}
  {ns : Text} {c : Nat} {attrs : AttrList}

/-- The class has a callback, and it accepts the attributes. -/
def accepts (classmatch : Nat → Option (AttrList → Int)) (attrs : AttrList) (c : Nat) : Bool :=
  (classmatch c).any fun classmatch => classmatch attrs > 0

/-- The class that a call registers under a name in a namespace, both up to letter case. -/
def RegistryCall.registration (name ns : Text) : RegistryCall → Option Nat
  | classRegisterNs name' c ns' =>
      if lowcase name' = lowcase name ∧ lowcase (ns'.getD dflNamespaceName) = lowcase ns then some c
      else none
  | objGetClass .. => none

/-- The classes registered under a name, in the order of the calls. -/
def registrations (calls : List RegistryCall) (name ns : Text) : List Nat :=
  calls.filterMap (RegistryCall.registration name ns)

theorem RegistryCall.registration_eq_some : call.registration name ns = some c ↔
    ∃ name' ns', call = .classRegisterNs name' c ns' ∧ lowcase name' = lowcase name ∧
      lowcase (ns'.getD dflNamespaceName) = lowcase ns := by
  cases call with
  | objGetClass => simp [registration]
  | classRegisterNs name' c' ns' =>
      constructor
      · intro registers
        by_cases same : lowcase name' = lowcase name ∧
            lowcase (ns'.getD dflNamespaceName) = lowcase ns
        · rw [registration, if_pos same] at registers
          cases registers
          exact ⟨name', ns', rfl, same⟩
        · rw [registration, if_neg same] at registers
          cases registers
      · rintro ⟨_, _, ⟨⟩, same⟩
        exact if_pos same

theorem mem_registrations : c ∈ registrations calls name ns ↔ Registered calls name ns c := by
  rw [registrations, List.mem_filterMap]
  constructor
  · rintro ⟨call, member, registers⟩
    rcases RegistryCall.registration_eq_some.mp registers with ⟨name', ns', rfl, same⟩
    exact ⟨name', ns', member, same⟩
  · rintro ⟨name', ns', member, same⟩
    exact ⟨_, member, RegistryCall.registration_eq_some.mpr ⟨name', ns', rfl, same⟩⟩

/-- All registrations of a name are spelled alike. -/
def Uniform (calls : List RegistryCall) (name ns : Text) : Prop :=
  ∃ key, ∀ name' c ns', RegistryCall.classRegisterNs name' c ns' ∈ calls →
    lowcase name' = lowcase name → lowcase (ns'.getD dflNamespaceName) = lowcase ns → name' = key

/-- The class of the first registration that lookups find. -/
def FirstFindable (calls : List RegistryCall) (name ns : Text) (c : Nat) : Prop :=
  ∃ before name' ns' behind, calls = before ++ .classRegisterNs name' c ns' :: behind ∧
    lowcase name' = lowcase name ∧ lowcase (ns'.getD dflNamespaceName) = lowcase ns ∧
    Findable (before ++ [.classRegisterNs name' c ns']) name ns ∧ ¬Findable before name ns

theorem exists_firstFindable (findable : Findable calls name ns) :
    ∃ c, FirstFindable calls name ns c := by
  induction calls using List.reverseRecOn with
  | nil =>
      rcases findable with ⟨before, name', c, ns', behind, split, -⟩
      cases before <;> cases split
  | append_singleton before call ih =>
      by_cases earlier : Findable before name ns
      · rcases ih earlier with ⟨c, front, name', ns', behind, rfl, rest⟩
        exact ⟨c, front, name', ns', behind ++ [call], by simp, rest⟩
      · rcases (findable_concat.mp findable).resolve_left earlier with
          ⟨name', c, ns', rfl, -, sameName, sameNs, -⟩
        exact ⟨c, before, name', ns', [], rfl, sameName, sameNs, findable, earlier⟩

/-! ## What the scan visits -/

namespace Registry

/-- The classes that the loop of `x_obj_get_class` looks at. -/
def visits (classmatch : Nat → Option (AttrList → Int)) (r : Registry) (attrs : AttrList)
    (ret : Nat) : Nat → Option Nat → List Nat
  | _, none => []
  | 0, some _ => []
  | turns + 1, some ret_ =>
      ret_ ::
        if accepts classmatch attrs ret_ then []
        else if ret_ = ret then []
        else visits classmatch r attrs ret turns (r.next ret_)

/-- The classes that a call of `x_obj_get_class` looks at. -/
def objGetClassVisits (classmatch : Nat → Option (AttrList → Int)) (turns : Nat) (r : Registry)
    (name : Text) (ns : Option Text) (attrs : AttrList) : Except Fault (List Nat) := do
  let (r, ns) ← r.classGetNs (ns.getD dflNamespaceName)
  let ret ← (r.classmap ns).htLowcaseGet name
  .ok (match ret with
    | some ret => visits classmatch r attrs ret (turns + 1) (some ret)
    | none => [])

/-- The loop is left in its first turn, at the class it starts with. -/
theorem visits_start (ret : Nat) : visits classmatch r attrs ret (turns + 1)
    (some ret) = [ret] := by
  rw [visits, if_pos rfl]
  split <;> rfl

/-! ## The head of a list -/

/-- The class stands in the table under a name, where lookups find it. -/
structure Heads (r : Registry) (key ns : Text) (c : Nat) : Prop where
  cell : ∃ n, r.nsmap.lowcaseFind (lowcase ns) = some n ∧ (r.classmap n).htGet key = some c ∧
    (r.classmap n).lowcaseFind (lowcase key) = some c

variable (classmatch turns) in
/-- A lookup finds the head, and returns it. -/
theorem Heads.objGetClass {ns : Option Text} (heads : r.Heads key (ns.getD dflNamespaceName) c)
    (same : lowcase key = lowcase name) {proto : Bool}
    (fits : (RegistryCall.objGetClass name ns attrs proto).Fits) :
    r.objGetClass classmatch turns name ns attrs proto = .ok (r, .oclass c) ∧
      r.objGetClassVisits classmatch turns name ns attrs = .ok [c] := by
  rcases heads.cell with ⟨n, found, -, stored⟩
  rw [same] at stored
  have namespace_eq : r.classGetNs (ns.getD dflNamespaceName) = .ok (r, n) := by
    rw [classGetNs, Table.htLowcaseGet, if_neg (Nat.not_le.mpr fits.1), ok_bind, found]
  have head_eq : (r.classmap n).htLowcaseGet name = .ok (some c) := by
    rw [Table.htLowcaseGet, if_neg (Nat.not_le.mpr fits.2), stored]
  constructor
  · simp only [Registry.objGetClass, namespace_eq, head_eq, ok_bind, matchLoop_start]
  · simp only [objGetClassVisits, namespace_eq, head_eq, ok_bind, visits_start]

/-- Looking up a namespace leaves the head where it is. -/
theorem Heads.classGetNs {nsname : Text} {n : Nat} (heads : r.Heads key ns c)
    (describes : Describes calls r) (result : r.classGetNs nsname = .ok (r', n)) :
    r'.Heads key ns c ∧ (∀ n', r'.nsmap.lowcaseFind (lowcase ns) = some n' → n' = n →
      lowcase nsname = lowcase ns) := by
  rcases heads.cell with ⟨m, found, stored, head⟩
  have old := describes.allocated ns m found
  rcases bind_eq_ok_iff.mp result with ⟨looked, get, rest⟩
  unfold Table.htLowcaseGet at get
  split at get
  · cases get
  · cases get
    cases looked : r.nsmap.lowcaseFind (lowcase nsname) with
    | some n' =>
        rw [looked] at rest
        cases rest
        refine ⟨heads, ?_⟩
        rintro n' found' rfl
        exact describes.apart nsname ns n' looked found'
    | none =>
        rw [looked] at rest
        cases rest
        have kept : (r.newNs nsname).nsmap.lowcaseFind (lowcase ns) = some m := by
          rw [Describes.lowcaseFind_newNs looked, if_neg]
          · exact found
          · rintro ⟨-, same⟩
            rw [same, found] at looked
            cases looked
        have unchanged : (r.newNs nsname).classmap m = r.classmap m :=
          Function.update_of_ne (Nat.ne_of_lt old) _ _
        refine ⟨⟨m, kept, ?_, ?_⟩, ?_⟩
        · rw [unchanged]
          exact stored
        · rw [unchanged]
          exact head
        · rintro n' found' rfl
          rw [kept] at found'
          cases found'
          exact absurd old (Nat.lt_irrefl _)

/-- Inserting into a list changes no table. -/
theorem maps_of_listInsert {l e : Nat} (result : r.listInsert l e = .ok r') :
    r'.nsmap = r.nsmap ∧ r'.classmap = r.classmap := by
  simp only [listInsert] at result
  split at result
  · cases result
  · cases result
    exact ⟨rfl, rfl⟩

/-- A registration under another name, or under the same one, leaves the head where it is. -/
theorem Heads.register {n c' : Nat} (heads : r.Heads key ns c)
    (other : r.nsmap.lowcaseFind (lowcase ns) = some n → lowcase name = lowcase key → name = key)
    (result : r.register name c' n = .ok r') : r'.Heads key ns c := by
  rcases heads.cell with ⟨m, found, stored, head⟩
  unfold Registry.register at result
  cases present : (r.classmap n).htGet name with
  | some myclass =>
      rw [present] at result
      rcases maps_of_listInsert result with ⟨nsmap_eq, classmap_eq⟩
      refine ⟨m, ?_, ?_, ?_⟩
      · rw [nsmap_eq, found]
      · rw [classmap_eq, stored]
      · rw [classmap_eq, head]
  | none =>
      rw [present] at result
      cases result
      by_cases same : m = n
      · rw [same] at found stored head
        have different : name ≠ key := by
          rintro rfl
          rw [present] at stored
          cases stored
        refine ⟨n, found, ?_, ?_⟩
        · dsimp only
          rw [Function.update_self, Table.htGet_htSet, if_neg (Ne.symm different), stored]
        · dsimp only
          rw [Function.update_self, Table.lowcaseFind_htSet (.inl present), if_neg, head]
          rintro ⟨-, sameLow⟩
          exact different (other found sameLow)
      · refine ⟨m, found, ?_, ?_⟩
        · dsimp only
          rw [Function.update_of_ne same, stored]
        · dsimp only
          rw [Function.update_of_ne same, head]

/-- **A call** leaves the head where it is. -/
theorem Heads.step (heads : r.Heads key ns c) (describes : Describes calls r)
    (other : ∀ name' c' ns', call = .classRegisterNs name' c' ns' →
      lowcase name' = lowcase key → lowcase (ns'.getD dflNamespaceName) = lowcase ns → name' = key)
    (result : call.step classmatch turns r = .ok r') : r'.Heads key ns c := by
  cases call with
  | objGetClass name ns' attrs proto =>
      rcases map_eq_ok_iff.mp result with ⟨⟨last, ptr⟩, got, rfl⟩
      rcases bind_eq_ok_iff.mp got with ⟨⟨middle, n⟩, looked, rest⟩
      rcases bind_eq_ok_iff.mp rest with ⟨ret, -, rest⟩
      have last_eq : last = middle := by
        cases ret with
        | none =>
            cases rest
            rfl
        | some ret =>
            rcases bind_eq_ok_iff.mp rest with ⟨_, -, done⟩
            cases done
            rfl
      rw [last_eq]
      exact (heads.classGetNs describes looked).1
  | classRegisterNs name c' ns' =>
      rcases bind_eq_ok_iff.mp result with ⟨⟨middle, n⟩, looked, stored⟩
      have start : (r.listInit c').Heads key ns c := ⟨heads.cell⟩
      rcases start.classGetNs (describes.listInit c') looked with ⟨heads', apart⟩
      refine heads'.register (fun found sameLow => ?_) stored
      exact other name c' ns' rfl sameLow (apart n found rfl)

/-- **The calls behind** a registration leave its class at the head. -/
theorem Heads.run (heads : r.Heads key ns c) (describes : Describes calls r)
    {behind : List RegistryCall}
    (other : ∀ name' c' ns', RegistryCall.classRegisterNs name' c' ns' ∈ behind →
      lowcase name' = lowcase key → lowcase (ns'.getD dflNamespaceName) = lowcase ns → name' = key)
    (result : run (RegistryCall.step classmatch turns) r behind = .ok r') : r'.Heads key ns c := by
  induction behind generalizing calls r with
  | nil =>
      cases result
      exact heads
  | cons call rest ih =>
      rw [run_cons] at result
      rcases bind_eq_ok_iff.mp result with ⟨middle, first, later⟩
      rcases describes.step (fits_of_step first) with ⟨middle', first', described⟩
      cases first.symm.trans first'
      have heads' := heads.step describes
        (fun name' c' ns' same => other name' c' ns' (by simp [same])) first
      exact ih heads' described
        (fun name' c' ns' member => other name' c' ns' (List.mem_cons_of_mem _ member)) later

/-- The first registration that lookups find stands at the head. -/
theorem heads_of_first {ns' : Option Text} (describes : Describes calls r)
    (findable : Findable (calls ++ [.classRegisterNs key c ns']) key ns)
    (new : ¬Findable calls key ns)
    (result : (RegistryCall.classRegisterNs key c ns').step classmatch turns r = .ok r') :
    r'.Heads key ns c := by
  have good : WellHashed key := by
    rcases (findable_concat.mp findable).resolve_left new with ⟨_, _, _, ⟨⟩, good, -⟩
    exact good
  have fits : (RegistryCall.classRegisterNs key c ns').Fits := fits_of_step result
  have stepped : ∃ last, (RegistryCall.classRegisterNs key c ns').step classmatch turns
    r = .ok last ∧
      Describes (calls ++ [.classRegisterNs key c ns']) last := describes.step fits
  rcases stepped with ⟨last, result', described⟩
  cases result.symm.trans result'
  -- the namespace is looked up first
  rcases @Describes.classGetNs calls (r.listInit c) (.objGetClass key ns' [] false)
    (describes.listInit c) fits (by rintro _ _ _ ⟨⟩) with ⟨middle, n, looked, -, between, -, -⟩
  have absent : ∀ m, middle.nsmap.lowcaseFind (lowcase ns) = some m →
      (middle.classmap m).lowcaseFind (lowcase key) = none := by
    intro m there
    by_contra some
    have earlier := (between.findable ns m key there).mp (Option.isSome_iff_ne_none.mpr some)
    rw [Describes.findable_lookup (by rintro _ _ _ ⟨⟩)] at earlier
    exact new earlier
  rcases bind_eq_ok_iff.mp result with ⟨⟨middle', n'⟩, looked', stored⟩
  cases looked.symm.trans looked'
  have installed : Installed (calls ++ [.classRegisterNs key c ns']) ns := by
    rcases (findable_concat.mp findable).resolve_left new with ⟨_, _, _, ⟨⟩, -, -, -, installed⟩
    exact installed
  rcases Option.isSome_iff_exists.mp ((described.installed ns).mpr installed) with ⟨m, there⟩
  have isSome := (described.findable ns m key there).mpr findable
  change middle.register key c n = .ok r' at stored
  unfold Registry.register at stored
  cases present : (middle.classmap n).htGet key with
  | some myclass =>
      rw [present] at stored
      rcases maps_of_listInsert stored with ⟨nsmap_eq, classmap_eq⟩
      rw [nsmap_eq] at there
      rw [classmap_eq, absent m there] at isSome
      cases isSome
  | none =>
      rw [present] at stored
      cases stored
      dsimp only at there isSome
      have here : m = n := by
        by_contra elsewhere
        rw [Function.update_of_ne elsewhere, absent m there] at isSome
        cases isSome
      rw [here] at there
      refine ⟨n, there, ?_, ?_⟩
      · dsimp only
        rw [Function.update_self, Table.htGet_htSet, if_pos rfl]
      · dsimp only
        rw [Function.update_self, Table.lowcaseFind_htSet (.inl present), if_pos ⟨good, rfl⟩]

end Registry

/-- Lookups depend on the lower-case form of a name only. -/
theorem findable_congr (same : lowcase key = lowcase name) :
    Findable calls key ns ↔ Findable calls name ns := by
  simp only [Findable, same]

/-- After a run, the first class that lookups find stands at the head. -/
theorem heads_of_run (uniform : Uniform calls name ns) (first : FirstFindable calls name ns c)
    (result : run (RegistryCall.step classmatch turns) .empty calls = .ok r) :
    ∃ key, lowcase key = lowcase name ∧ r.Heads key ns c := by
  rcases first with ⟨before, key, ns', behind, rfl, sameName, sameNs, findable, new⟩
  rw [← findable_congr sameName] at findable new
  rcases run_append_eq_ok result with ⟨start, reached, later⟩
  rw [run_cons] at later
  rcases bind_eq_ok_iff.mp later with ⟨middle, registered, behindRun⟩
  rcases describes_of_run classmatch turns (fits_of_run reached) with ⟨_, reached', describes⟩
  cases reached.symm.trans reached'
  rcases describes.step (fits_of_step registered) with ⟨_, registered', described⟩
  cases registered.symm.trans registered'
  have heads := Registry.heads_of_first describes findable new registered
  rcases uniform with ⟨spelling, alike⟩
  have key_eq : key = spelling := alike key c ns' (by simp) sameName sameNs
  refine ⟨key, sameName, heads.run described (fun name' c' ns'' member low sameNs' => ?_) behindRun⟩
  rw [key_eq]
  exact alike name' c' ns'' (by simp [member]) (low.trans sameName) sameNs'

/-! ## The selected class -/

variable (classmatch turns calls name attrs) in
/-- After the calls, a lookup returns a class that accepts the attributes if one of the
classes registered under the name does, and the first one otherwise; and its scan visits all
of them if it does not come to one that accepts. -/
def Selects (ns : Option Text) (proto : Bool) : Prop :=
  ∃ r r' c visited, run (RegistryCall.step classmatch turns) .empty calls = .ok r ∧
    r.objGetClass classmatch turns name ns attrs proto = .ok (r', .oclass c) ∧
    r.objGetClassVisits classmatch turns name ns attrs = .ok visited ∧
    ((∃ x ∈ registrations calls name (ns.getD dflNamespaceName), accepts classmatch attrs x) →
      accepts classmatch attrs c) ∧
    ((∀ x ∈ registrations calls name (ns.getD dflNamespaceName), ¬accepts classmatch attrs x) →
      (registrations calls name (ns.getD dflNamespaceName)).head? = some c) ∧
    ((∀ x ∈ registrations calls name (ns.getD dflNamespaceName), x ∈ visited) ∨
      ∃ x ∈ visited, accepts classmatch attrs x)

/-- **Class selection.**  It works exactly when the names fit the buffers, and the first class
that lookups find under the name accepts the attributes or is the only one. -/
theorem selects_iff {ns : Option Text} {proto : Bool}
    (uniform : Uniform calls name (ns.getD dflNamespaceName)) :
    Selects classmatch turns calls name attrs ns proto ↔
      (∀ call ∈ calls, call.Fits) ∧ (RegistryCall.objGetClass name ns attrs proto).Fits ∧
        ∃ c, FirstFindable calls name (ns.getD dflNamespaceName) c ∧
          (accepts classmatch attrs c ∨
            ∀ x ∈ registrations calls name (ns.getD dflNamespaceName), x = c) := by
  constructor
  · rintro ⟨r, r', c, visited, result, lookup, scanned, -, -, all⟩
    have fits := fits_of_run result
    have fitsHere : (RegistryCall.objGetClass name ns attrs proto).Fits := by
      have step : RegistryCall.step classmatch turns r (.objGetClass name ns attrs proto) =
          .ok r' := by
        rw [RegistryCall.step, lookup]
        rfl
      exact fits_of_step step
    refine ⟨fits, fitsHere, ?_⟩
    rcases describes_of_run classmatch turns fits with ⟨_, reached, describes⟩
    cases result.symm.trans reached
    rcases describes.objGetClass classmatch turns fitsHere with ⟨_, ptr, looked, -, found⟩
    cases lookup.symm.trans looked
    have findable : Findable calls name (ns.getD dflNamespaceName) := by
      rcases found with ⟨_, -, -, findable⟩ | ⟨null, -⟩
      · exact findable
      · cases proto <;> cases null
    rcases exists_firstFindable findable with ⟨first, isFirst⟩
    rcases heads_of_run uniform isFirst result with ⟨key, same, heads⟩
    rcases heads.objGetClass classmatch turns same fitsHere with
      ⟨-, scanned'⟩
    cases scanned.symm.trans scanned'
    refine ⟨first, isFirst, ?_⟩
    rcases all with all | ⟨x, member, accepted⟩
    · right
      intro x member
      simpa using all x member
    · left
      rwa [List.mem_singleton.mp member] at accepted
  · rintro ⟨fits, fitsHere, c, isFirst, right⟩
    rcases describes_of_run classmatch turns fits with ⟨r, result, -⟩
    rcases heads_of_run uniform isFirst result with ⟨key, same, heads⟩
    rcases heads.objGetClass classmatch turns same fitsHere with
      ⟨lookup, scanned⟩
    have member : c ∈ registrations calls name (ns.getD dflNamespaceName) := by
      rcases isFirst with ⟨before, name', ns', behind, rfl, sameName, sameNs, -⟩
      exact mem_registrations.mpr ⟨name', ns', by simp, sameName, sameNs⟩
    refine ⟨r, r, c, [c], result, lookup, scanned, ?_, ?_, ?_⟩
    · rintro ⟨x, inside, accepted⟩
      rcases right with here | only
      · exact here
      · rwa [only x inside] at accepted
    · intro refused
      rcases right with here | only
      · exact absurd here (refused c member)
      · cases cells : registrations calls name (ns.getD dflNamespaceName) with
        | nil =>
            rw [cells] at member
            cases member
        | cons x rest =>
            rw [List.head?_cons, only x (by simp [cells])]
    · rcases right with here | only
      · exact .inr ⟨c, List.mem_singleton_self c, here⟩
      · left
        intro x inside
        rw [only x inside]
        exact List.mem_singleton_self c

/-- Two classes for `message`, of which the second one accepts what has a `type`. -/
def twoClasses : List RegistryCall :=
  [.classRegisterNs (lit "message") 0 none, .classRegisterNs (lit "message") 1 none]

/-- The callback of the second class. -/
def secondMatches : Nat → Option (AttrList → Int)
  | 1 => some fun attrs => if (getattr (lit "type") attrs).isSome then 1 else 0
  | _ => none

theorem uniform_twoClasses : Uniform twoClasses (lit "message") dflNamespaceName := by
  refine ⟨lit "message", fun name' c ns' member _ _ => ?_⟩
  simp only [twoClasses, List.mem_cons, RegistryCall.classRegisterNs.injEq, List.not_mem_nil,
    or_false] at member
  rcases member with ⟨rfl, -⟩ | ⟨rfl, -⟩ <;> rfl

theorem selects_iff_twoClasses :
    Selects secondMatches 0 twoClasses (lit "message") [] none false ↔
      (∀ call ∈ twoClasses, call.Fits) ∧
        (RegistryCall.objGetClass (lit "message") none [] false).Fits ∧
        ∃ c, FirstFindable twoClasses (lit "message") dflNamespaceName c ∧
          (accepts secondMatches [] c ∨
            ∀ x ∈ registrations twoClasses (lit "message") dflNamespaceName, x = c) :=
  selects_iff uniform_twoClasses

/-- The second class accepts, and the first one is returned. -/
theorem not_selects_twoClasses :
    accepts secondMatches [(lit "type", lit "chat")] 1 ∧
      (run (RegistryCall.step secondMatches 0) .empty twoClasses >>= fun r =>
        (r.objGetClass secondMatches 0 (lit "message") none [(lit "type", lit "chat")] false).map
          Prod.snd) = .ok (.oclass 0) ∧
      ¬Selects secondMatches 0 twoClasses (lit "message")
        [(lit "type", lit "chat")] none false := by
  have computed : (run (RegistryCall.step secondMatches 0) .empty twoClasses >>= fun r =>
      (r.objGetClass secondMatches 0 (lit "message") none [(lit "type", lit "chat")] false).map
        Prod.snd) = .ok (.oclass 0) := by
    decide +kernel
  refine ⟨by decide, computed, ?_⟩
  rintro ⟨r, r', c, visited, result, lookup, -, right, -⟩
  rw [result, ok_bind, lookup] at computed
  cases computed
  have accepted := right ⟨1, by decide, by decide⟩
  revert accepted
  decide

end Xwbot
