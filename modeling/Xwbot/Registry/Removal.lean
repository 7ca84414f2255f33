import Xwbot.Registry

/-!
# Unregistering a class

`x_class_unregister_ns` deletes the cell of the name that the class has itself.  All classes that
were registered under a name share its cell, and a class may have been registered under other
names than its own.
-/

namespace Xwbot

open Runs

namespace Registry

variable {classmatch : Nat → Option (AttrList → Int)} {turns : Nat} {cname : Nat → Text}
  {calls : List RegistryCall} {call : RegistryCall} {r r' : Registry} {key name nsname : Text}
  {ns ns' : Option Text} {c c' oclass n : Nat}

/-- `x_class_unregister_ns`; `cname` is the field of the classes. -/
def classUnregisterNs (cname : Nat → Text) (r : Registry) (oclass : Nat) (ns : Option Text) :
    Except Fault Registry := do
  let (r, ns) ← r.classGetNs (ns.getD dflNamespaceName)
  .ok { r with classmap := Function.update r.classmap ns ((r.classmap ns).htDel (cname oclass)) }

/-! ## What a lookup comes to -/

/-- The cells that a lookup of a name in a namespace can come to, one for each spelling of the
name that was registered; the first one counts. -/
def spellings (r : Registry) (name nsname : Text) : List (Text × Nat) :=
  match r.nsmap.lowcaseFind (lowcase nsname) with
  | some n => (r.classmap n).spellings name
  | none => []

variable (classmatch turns) in
/-- Some lookup of the name in the namespace returns the class. -/
def Resolves (r : Registry) (name : Text) (ns : Option Text) (c : Nat) : Prop :=
  ∃ attrs proto r', r.objGetClass classmatch turns name ns attrs proto = .ok (r', .oclass c)

theorem spellings_congr {key nsname' : Text} (sameName : lowcase key = lowcase name)
    (sameNs : lowcase nsname' = lowcase nsname) :
      r.spellings key nsname' = r.spellings name nsname := by
  simp only [spellings, Table.spellings, sameName, sameNs]

theorem lowcase_of_mem_spellings {p : Text × Nat} (member : p ∈ r.spellings name nsname) :
    lowcase p.1 = lowcase name := by
  unfold spellings at member
  split at member
  · exact Table.lowcase_of_mem_spellings member
  · cases member

/-- **Lookups**: the first cell counts, if the names fit the buffers. -/
theorem resolves_iff : r.Resolves classmatch turns name ns c ↔
    ((ns.getD dflNamespaceName).length < lowcaseBuf ∧ name.length < lowcaseBuf) ∧
      (r.spellings name (ns.getD dflNamespaceName)).head?.map Prod.snd = some c := by
  constructor
  · rintro ⟨attrs, proto, r', lookup⟩
    have fits : (RegistryCall.objGetClass name ns attrs proto).Fits := by
      have step : RegistryCall.step classmatch turns r (.objGetClass name ns attrs proto) =
          .ok r' := by
        rw [RegistryCall.step, lookup]
        rfl
      exact fits_of_step step
    refine ⟨fits, ?_⟩
    rw [objGetClass, classGetNs, Table.htLowcaseGet, if_neg (Nat.not_le.mpr fits.1), ok_bind]
      at lookup
    cases found : r.nsmap.lowcaseFind (lowcase (ns.getD dflNamespaceName)) with
    | none =>
        rw [found] at lookup
        have cleared : (r.newNs (ns.getD dflNamespaceName)).classmap r.namespaces = .empty :=
          Function.update_self _ _ _
        simp only [ok_bind, cleared, Table.htLowcaseGet, if_neg (Nat.not_le.mpr fits.2),
          Table.lowcaseFind_empty] at lookup
        cases proto <;> cases lookup
    | some n =>
        rw [found] at lookup
        simp only [ok_bind, Table.htLowcaseGet, if_neg (Nat.not_le.mpr fits.2)] at lookup
        rw [Table.lowcaseFind_eq_spellings] at lookup
        simp only [spellings, found]
        cases first : ((r.classmap n).spellings name).head?.map Prod.snd with
        | none =>
            rw [first] at lookup
            cases proto <;> cases lookup
        | some ret =>
            rw [first] at lookup
            simp only [matchLoop_start, ok_bind] at lookup
            cases lookup
            rfl
  · rintro ⟨fits, first⟩
    refine ⟨[], false, r, ?_⟩
    cases found : r.nsmap.lowcaseFind (lowcase (ns.getD dflNamespaceName)) with
    | none =>
        simp only [spellings, found] at first
        cases first
    | some n =>
        simp only [spellings, found] at first
        rw [← Table.lowcaseFind_eq_spellings] at first
        rw [objGetClass, classGetNs, Table.htLowcaseGet, if_neg (Nat.not_le.mpr fits.1),
          ok_bind, found]
        simp only [ok_bind, Table.htLowcaseGet, if_neg (Nat.not_le.mpr fits.2), first,
          matchLoop_start]

/-! ## The tables of classes -/

/-- No key stands twice in a table of classes, and each one is in its list. -/
def Tidy (r : Registry) : Prop :=
  ∀ n, (r.classmap n).Distinct ∧ (r.classmap n).Placed

theorem Tidy.empty : Tidy .empty :=
  fun _ => ⟨.empty, .empty⟩

theorem Tidy.classGetNs (tidy : r.Tidy) (result : r.classGetNs nsname = .ok (r', n)) : r'.Tidy := by
  rcases bind_eq_ok_iff.mp result with ⟨found, -, rest⟩
  cases found with
  | some n' =>
      cases rest
      exact tidy
  | none =>
      cases rest
      intro m
      by_cases new : m = r.namespaces
      · have cleared : (r.newNs nsname).classmap m = .empty := by
          rw [new]
          exact Function.update_self _ _ _
        rw [cleared]
        exact ⟨.empty, .empty⟩
      · have unchanged : (r.newNs nsname).classmap m = r.classmap m := Function.update_of_ne new _ _
        rw [unchanged]
        exact tidy m

theorem Tidy.register (tidy : r.Tidy) (result : r.register name c n = .ok r') : r'.Tidy := by
  unfold Registry.register at result
  split at result
  · cases result
    intro m
    dsimp only
    by_cases here : m = n
    · rw [here, Function.update_self]
      exact ⟨(tidy n).1.htSet, (tidy n).2.htSet⟩
    · rw [Function.update_of_ne here]
      exact tidy m
  · simp only [listInsert] at result
    split at result
    · cases result
    · cases result
      exact tidy

/-- **A call** keeps the tables tidy. -/
theorem Tidy.step (tidy : r.Tidy) (result : call.step classmatch turns r = .ok r') : r'.Tidy := by
  cases call with
  | classRegisterNs name c ns =>
      rcases bind_eq_ok_iff.mp result with ⟨⟨middle, n⟩, looked, stored⟩
      have start : (r.listInit c).Tidy := tidy
      exact (start.classGetNs looked).register stored
  | objGetClass name ns attrs proto =>
      rcases map_eq_ok_iff.mp result with ⟨⟨last, ptr⟩, got, rfl⟩
      rcases bind_eq_ok_iff.mp got with ⟨⟨middle, n⟩, looked, rest⟩
      rcases bind_eq_ok_iff.mp rest with ⟨ret, -, rest⟩
      have last_eq : last = middle := by
        cases ret with
        | none =>
            cases rest
            rfl
        | some ret =>
            rcases bind_eq_ok_iff.mp rest with ⟨_, -, done⟩
            cases done
            rfl
      rw [last_eq]
      exact tidy.classGetNs looked

theorem Tidy.run (tidy : r.Tidy)
    (result : run (RegistryCall.step classmatch turns) r calls = .ok r') : r'.Tidy := by
  induction calls generalizing r with
  | nil =>
      cases result
      exact tidy
  | cons call rest ih =>
      rw [run_cons] at result
      rcases bind_eq_ok_iff.mp result with ⟨middle, first, later⟩
      exact ih (tidy.step first) later

/-! ## What is taken away -/

/-- **Spec of `x_class_unregister_ns`**: the spelling of the class's own name goes. -/
theorem spellings_classUnregisterNs (describes : Describes calls r) (tidy : r.Tidy)
    (result : r.classUnregisterNs cname oclass ns = .ok r') (name nsname : Text) :
    r'.spellings name nsname =
      if lowcase nsname = lowcase (ns.getD dflNamespaceName) then
        (r.spellings name nsname).filter fun p => p.1 ≠ cname oclass
      else r.spellings name nsname := by
  rcases bind_eq_ok_iff.mp result with ⟨⟨middle, n⟩, looked, done⟩
  cases done
  rcases bind_eq_ok_iff.mp looked with ⟨found, get, rest⟩
  unfold Table.htLowcaseGet at get
  split at get
  · cases get
  · cases get
    cases found : r.nsmap.lowcaseFind (lowcase (ns.getD dflNamespaceName)) with
    | some n' =>
        rw [found] at rest
        cases rest
        by_cases same : lowcase nsname = lowcase (ns.getD dflNamespaceName)
        · simp only [spellings, same, found, if_true, Function.update_self]
          exact Table.spellings_htDel (tidy n).1 (tidy n).2 name
        · simp only [spellings, same, if_false]
          cases there : r.nsmap.lowcaseFind (lowcase nsname) with
          | none => rfl
          | some m =>
              have other : m ≠ n := by
                rintro rfl
                exact same (describes.apart _ _ m there found)
              simp only [Function.update_of_ne other]
    | none =>
        rw [found] at rest
        cases rest
        simp only [spellings, Describes.lowcaseFind_newNs found]
        by_cases same : lowcase nsname = lowcase (ns.getD dflNamespaceName)
        · -- the namespace was not there, and the new one is empty
          rw [if_pos same, same, found]
          split
          · next m there =>
              split at there
              · cases there
                have cleared : (r.newNs (ns.getD dflNamespaceName)).classmap
                  r.namespaces = .empty :=
                  Function.update_self _ _ _
                rw [Function.update_self, cleared, Table.htDel_empty]
                rfl
              · cases there
          · rfl
        · rw [if_neg same, if_neg fun both => same both.2.symm]
          cases there : r.nsmap.lowcaseFind (lowcase nsname) with
          | none => rfl
          | some m =>
              have old := describes.allocated nsname m there
              have other : m ≠ r.namespaces := Nat.ne_of_lt old
              have unchanged : (r.newNs (ns.getD dflNamespaceName)).classmap m = r.classmap m :=
                Function.update_of_ne other _ _
              simp only [Function.update_of_ne other, unchanged]

/-! ## Exactly one class -/

variable (classmatch turns cname) in
/-- After the call no lookup returns the class, and every other one is found where it was. -/
def Unregisters (r : Registry) (oclass : Nat) (ns : Option Text) : Prop :=
  ∃ r', r.classUnregisterNs cname oclass ns = .ok r' ∧
    (∀ name ns', ¬r'.Resolves classmatch turns name ns' oclass) ∧
    ∀ name ns' c, c ≠ oclass → r.Resolves classmatch turns name ns' c →
      r'.Resolves classmatch turns name ns' c

/-- Taking away the spelling `key` of a name takes away `c` and no other class: the spelling that
counts is `key` and holds `c` and the next one does not, or it is another one and does not hold
`c`.  It makes no difference that a class goes which the next spelling holds as well. -/
def Owns (key : Text) (c : Nat) : List (Text × Nat) → Prop
  | [] => True
  | p :: rest =>
      if p.1 = key then
        rest.head?.map Prod.snd ≠ some c ∧ (p.2 = c ∨ rest.head?.map Prod.snd = some p.2)
      else p.2 ≠ c

variable (classmatch turns cname) in
/-- The class is found under its own name in the namespace only, and owns the cell there. -/
def Sole (r : Registry) (oclass : Nat) (ns : Option Text) : Prop :=
  (∀ name ns', r.Resolves classmatch turns name ns' oclass →
    lowcase name = lowcase (cname oclass) ∧
      lowcase (ns'.getD dflNamespaceName) = lowcase (ns.getD dflNamespaceName)) ∧
  ((cname oclass).length < lowcaseBuf →
    Owns (cname oclass) oclass (r.spellings (cname oclass) (ns.getD dflNamespaceName)))

/-- The first spelling that is left. -/
theorem owns_iff {cells : List (Text × Nat)} (distinct : (cells.map Prod.fst).Nodup) :
    Owns key c cells ↔
      ((cells.filter fun p => p.1 ≠ key).head?.map Prod.snd ≠ some c) ∧
        ∀ c', c' ≠ c → cells.head?.map Prod.snd = some c' →
          (cells.filter fun p => p.1 ≠ key).head?.map Prod.snd = some c' := by
  cases cells with
  | nil => simp [Owns]
  | cons p rest =>
      rw [List.map_cons, List.nodup_cons] at distinct
      by_cases here : p.1 = key
      · have left : ((p :: rest).filter fun p => p.1 ≠ key) = rest := by
          rw [List.filter_cons_of_neg (by simpa using here), List.filter_eq_self]
          intro q member
          have other : q.1 ≠ key := by
            intro same
            apply distinct.1
            rw [here, ← same]
            exact List.mem_map_of_mem member
          simpa using other
        rw [left, Owns, if_pos here]
        apply and_congr_right
        intro _
        constructor
        · rintro (mine | again) c' other first
          · cases first
            exact absurd mine other
          · cases first
            exact again
        · intro kept
          by_cases mine : p.2 = c
          · exact .inl mine
          · exact .inr (kept p.2 mine rfl)
      · have left : ((p :: rest).filter fun p => p.1 ≠ key) = p :: rest.filter fun p => p.1 ≠ key :=
          List.filter_cons_of_pos (by simpa using here)
        rw [left, Owns, if_neg here]
        constructor
        · intro other
          refine ⟨fun first => other (Option.some.inj first), fun c' _ first => first⟩
        · rintro ⟨other, -⟩ mine
          exact other (congrArg some mine)

/-- What is found behind a call, in a registry whose tables are in order. -/
theorem unregisters_iff (describes : Describes calls r) (tidy : r.Tidy)
    (fits : (ns.getD dflNamespaceName).length < lowcaseBuf) :
    r.Unregisters classmatch turns cname oclass ns ↔ r.Sole classmatch turns cname oclass ns := by
  have length_eq : ∀ {a b : Text}, lowcase a = lowcase b → a.length = b.length := by
    intro a b same
    simpa [lowcase] using congrArg List.length same
  have distinct : ((r.spellings (cname oclass) (ns.getD dflNamespaceName)).map Prod.fst).Nodup := by
    unfold spellings
    split
    · exact (tidy _).1.spellings _
    · exact List.nodup_nil
  -- a lookup elsewhere finds what it found before
  have elsewhere : ∀ {r'}, r.classUnregisterNs cname oclass ns = .ok r' → ∀ {name nsname},
      ¬(lowcase name = lowcase (cname oclass) ∧
        lowcase nsname = lowcase (ns.getD dflNamespaceName)) →
      r'.spellings name nsname = r.spellings name nsname := by
    intro r' result name nsname other
    rw [spellings_classUnregisterNs describes tidy result]
    split
    · next sameNs =>
        rw [List.filter_eq_self]
        intro p member
        have different : p.1 ≠ cname oclass := by
          intro same
          apply other
          rw [← lowcase_of_mem_spellings member, same]
          exact ⟨rfl, sameNs⟩
        simpa using different
    · rfl
  -- and a lookup of the name finds what is left of its spellings
  have here : ∀ {r'}, r.classUnregisterNs cname oclass ns = .ok r' → ∀ {name nsname},
      lowcase name = lowcase (cname oclass) →
      lowcase nsname = lowcase (ns.getD dflNamespaceName) →
      r'.spellings name nsname = (r.spellings (cname oclass) (ns.getD dflNamespaceName)).filter
        fun p => p.1 ≠ cname oclass := by
    intro r' result name nsname sameName sameNs
    rw [spellings_classUnregisterNs describes tidy result, if_pos sameNs,
      spellings_congr sameName sameNs]
  constructor
  · rintro ⟨r', result, gone, kept⟩
    constructor
    · intro name ns' resolves
      by_contra other
      apply gone name ns'
      rw [resolves_iff] at resolves ⊢
      rw [elsewhere result other]
      exact resolves
    · intro fitsName
      rw [owns_iff distinct]
      constructor
      · intro left
        apply gone (cname oclass) ns
        rw [resolves_iff, here result rfl rfl]
        exact ⟨⟨fits, fitsName⟩, left⟩
      · intro c' other first
        have after := kept (cname oclass) ns c' other (resolves_iff.mpr ⟨⟨fits, fitsName⟩, first⟩)
        rw [resolves_iff, here result rfl rfl] at after
        exact after.2
  · rintro ⟨only, owns⟩
    obtain ⟨r', result⟩ : ∃ r', r.classUnregisterNs cname oclass ns = .ok r' := by
      rw [classUnregisterNs, Registry.classGetNs, Table.htLowcaseGet, if_neg (Nat.not_le.mpr fits),
        ok_bind]
      cases r.nsmap.lowcaseFind (lowcase (ns.getD dflNamespaceName)) with
      | none => exact ⟨_, rfl⟩
      | some n => exact ⟨_, rfl⟩
    refine ⟨r', result, ?_, ?_⟩
    · intro name ns' resolves
      rw [resolves_iff] at resolves
      by_cases same : lowcase name = lowcase (cname oclass) ∧
          lowcase (ns'.getD dflNamespaceName) = lowcase (ns.getD dflNamespaceName)
      · have fitsName : (cname oclass).length < lowcaseBuf := length_eq same.1 ▸ resolves.1.2
        rw [here result same.1 same.2] at resolves
        exact ((owns_iff distinct).mp (owns fitsName)).1 resolves.2
      · rw [elsewhere result same, ← resolves_iff] at resolves
        exact same (only name ns' resolves)
    · intro name ns' c' other resolves
      rw [resolves_iff] at resolves ⊢
      refine ⟨resolves.1, ?_⟩
      by_cases same : lowcase name = lowcase (cname oclass) ∧
          lowcase (ns'.getD dflNamespaceName) = lowcase (ns.getD dflNamespaceName)
      · have fitsName : (cname oclass).length < lowcaseBuf := length_eq same.1 ▸ resolves.1.2
        have first := resolves.2
        rw [spellings_congr same.1 same.2] at first
        rw [here result same.1 same.2]
        exact ((owns_iff distinct).mp (owns fitsName)).2 c' other first
      · rw [elsewhere result same]
        exact resolves.2

end Registry

/-- **Unregistering a class** removes it, and it alone, exactly when it is found under its own name
in the namespace only and owns the cell of this name. -/
theorem unregisters_iff_sole {classmatch : Nat → Option (AttrList → Int)} {turns : Nat}
    {cname : Nat → Text} {calls : List RegistryCall} {name : Text} {oclass : Nat} {ns : Option Text}
    (registered : .classRegisterNs name oclass ns ∈ calls) :
    (∀ r, run (RegistryCall.step classmatch turns) .empty calls = .ok r →
      r.Unregisters classmatch turns cname oclass ns) ↔
    ∀ r, run (RegistryCall.step classmatch turns) .empty calls = .ok r →
      r.Sole classmatch turns cname oclass ns := by
  apply forall₂_congr
  intro r result
  rcases describes_of_run classmatch turns (fits_of_run result) with ⟨_, reached, describes⟩
  cases result.symm.trans reached
  exact Registry.unregisters_iff describes (Registry.Tidy.empty.run result)
    (fits_of_run result _ registered)

/-- A class that is registered under another name. -/
theorem unregisters_iff_sole_proceed :
    (∀ r, run (RegistryCall.step (fun _ => none) 0) .empty
        [.classRegisterNs (lit "starttls") 0 none, .classRegisterNs (lit "proceed") 0 none] =
          .ok r →
      r.Unregisters (fun _ => none) 0 (fun _ => lit "starttls") 0 none) ↔
    ∀ r, run (RegistryCall.step (fun _ => none) 0) .empty
        [.classRegisterNs (lit "starttls") 0 none, .classRegisterNs (lit "proceed") 0 none] =
          .ok r →
      r.Sole (fun _ => none) 0 (fun _ => lit "starttls") 0 none :=
  unregisters_iff_sole (List.mem_cons_self)

/-- A class that is unregistered takes the one along that was registered before it. -/
theorem not_unregisters_message :
    ¬∀ r, run (RegistryCall.step (fun _ => none) 0) .empty
        [.classRegisterNs (lit "message") 0 none, .classRegisterNs (lit "message") 1 none] = .ok r →
      r.Unregisters (fun _ => none) 0 (fun _ => lit "message") 1 none := by
  intro unregisters
  have computed : (run (RegistryCall.step (fun _ => none) 0) .empty
      [.classRegisterNs (lit "message") 0 none, .classRegisterNs (lit "message") 1 none] >>=
        fun r =>
        (r.classUnregisterNs (fun _ => lit "message") 1 none).map fun r' =>
          (r.spellings (lit "message") dflNamespaceName,
            r'.spellings (lit "message") dflNamespaceName)) =
      .ok ([(lit "message", 0)], []) := by
    decide +kernel
  rcases bind_eq_ok_iff.mp computed with ⟨r, result, unregistered⟩
  rcases unregisters r result with ⟨r', result', -, kept⟩
  rw [result'] at unregistered
  rcases Prod.mk.inj (Except.ok.inj unregistered) with ⟨before, after⟩
  have resolves : r.Resolves (fun _ => none) 0 (lit "message") none 0 := by
    rw [Registry.resolves_iff]
    refine ⟨by decide, ?_⟩
    rw [Option.getD_none, before]
    rfl
  have gone := kept (lit "message") none 0 (by decide) resolves
  rw [Registry.resolves_iff, Option.getD_none, after] at gone
  cases gone.2

end Xwbot
