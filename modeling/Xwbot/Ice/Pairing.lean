import Xwbot.Ice.IoStream

/-!
# Pairing of candidates

A local candidate is paired with all remote ones that are there, a remote
candidate with the first local one.  No pair is made twice and no remote
candidate is left out; but a remote candidate that comes before all local ones
makes a pair without a local end, and nothing counts the pairs.
-/

namespace Xwbot.Ice

open Runs

variable {p : Platform} {ice ice' : IoStream} {cand remote : Candidate} {name : Text}
  {attrs : AttrList} {out : List Output}

/-! ## Slots -/

namespace Slots

variable {α : Type} {slots slots' : Slots α} {a : α} {l : List α}

theorem ext_items (same : slots.items = slots'.items) : slots = slots' := by
  cases slots
  cases slots'
  cases same
  rfl

theorem push_eq_ok_iff : slots.push a = .ok slots' ↔ slots'.items = slots.items ++ [a] := by
  unfold push
  constructor
  · intro result
    split at result
    · cases result
      rfl
    · cases result
  · intro items
    have fits := slots'.fits
    rw [items, List.length_append] at fits
    have room : slots.items.length < maxConnPairs := fits
    rw [dif_pos room]
    exact congrArg Except.ok (ext_items items.symm)

theorem run_push_eq_ok_iff : run push slots l = .ok slots' ↔
    slots'.items = slots.items ++ l := by
  induction l generalizing slots with
  | nil =>
      rw [run_nil, List.append_nil]
      constructor
      · intro same
        cases same
        rfl
      · intro items
        exact congrArg Except.ok (ext_items items.symm)
  | cons a rest ih =>
      rw [run_cons, bind_eq_ok_iff]
      constructor
      · rintro ⟨middle, first, later⟩
        rw [ih.mp later, push_eq_ok_iff.mp first, List.append_assoc]
        rfl
      · intro items
        have fits := slots'.fits
        rw [items, List.length_append, List.length_cons] at fits
        have room : (slots.items ++ [a]).length ≤ maxConnPairs := by
          rw [List.length_append, List.length_singleton]
          omega
        refine ⟨⟨slots.items ++ [a], room⟩, push_eq_ok_iff.mpr rfl, ih.mpr ?_⟩
        rw [items, List.append_assoc]
        rfl

end Slots

/-- The addresses of both ends of a pair; the local one may be NULL. -/
def CandidatePair.key (pair : CandidatePair) : Option Nat × Nat :=
  (pair.localCand.map Candidate.ptr, pair.remote.ptr)

/-! ## What an insertion does -/

namespace IoStream

/-- The pairs that an additional local candidate makes. -/
def localPairs (p : Platform) (ice : IoStream) (cand : Candidate) : List CandidatePair :=
  ice.remotes.items.mapIdx fun i remote => newPair p (ice.draws + i) (some cand) remote

/-- The pair that an additional remote candidate makes. -/
def remotePair (p : Platform) (ice : IoStream) (remote : Candidate) : CandidatePair :=
  newPair p ice.draws ice.locals.items.head? remote

theorem mem_localPairs {pair : CandidatePair} (member : pair ∈ localPairs p ice cand) :
    pair.localCand = some cand ∧ pair.remote ∈ ice.remotes.items := by
  rcases List.mem_mapIdx.mp member with ⟨i, inside, same⟩
  cases same
  exact ⟨rfl, List.getElem_mem inside⟩

theorem exists_localPairs (member : remote ∈ ice.remotes.items) :
    ∃ pair ∈ localPairs p ice cand, pair.remote = remote ∧ pair.localCand = some cand := by
  rcases List.mem_iff_getElem.mp member with ⟨i, inside, same⟩
  refine ⟨_, List.mem_mapIdx.mpr ⟨i, inside, rfl⟩, ?_⟩
  rw [same]
  exact ⟨rfl, rfl⟩

/-- Either the array is full, or the candidate and its pairs go behind the others. -/
theorem insertLocalCandidate_eq_ok_iff : insertLocalCandidate p ice cand = .ok ice' ↔
    maxConnPairs ≤ ice.locals.items.length ∧ ice' = ice ∨
      ice.locals.items.length < maxConnPairs ∧ ∃ locals cPairs,
        locals.items = ice.locals.items ++ [cand] ∧
        cPairs.items = ice.cPairs.items ++ localPairs p ice cand ∧
        ice' = { ice with
          locals := locals, cPairs := cPairs
          draws := ice.draws + (localPairs p ice cand).length } := by
  unfold insertLocalCandidate
  constructor
  · intro result
    split at result
    · rename_i full
      cases result
      exact .inl ⟨full, rfl⟩
    · rename_i room
      rcases bind_eq_ok_iff.mp result with ⟨locals, pushed, result⟩
      rcases bind_eq_ok_iff.mp result with ⟨cPairs, paired, same⟩
      cases same
      exact .inr ⟨Nat.lt_of_not_le room, locals, cPairs, Slots.push_eq_ok_iff.mp pushed,
        Slots.run_push_eq_ok_iff.mp paired, rfl⟩
  · rintro (⟨full, rfl⟩ | ⟨room, locals, cPairs, pushed, paired, rfl⟩)
    · rw [if_pos full]
    · rw [if_neg (Nat.not_le.mpr room), Slots.push_eq_ok_iff.mpr pushed, ok_bind]
      dsimp only
      rw [← localPairs, Slots.run_push_eq_ok_iff.mpr paired, ok_bind]

theorem insertRemoteCandidate_eq_ok_iff : insertRemoteCandidate p ice remote = .ok ice' ↔
    maxConnPairs ≤ ice.remotes.items.length ∧ ice' = ice ∨
      ice.remotes.items.length < maxConnPairs ∧ ∃ remotes cPairs,
        remotes.items = ice.remotes.items ++ [remote] ∧
        cPairs.items = ice.cPairs.items ++ [remotePair p ice remote] ∧
        ice' = { ice with
          remotes := remotes, cPairs := cPairs, draws := ice.draws + 1 } := by
  unfold insertRemoteCandidate
  constructor
  · intro result
    split at result
    · rename_i full
      cases result
      exact .inl ⟨full, rfl⟩
    · rename_i room
      rcases bind_eq_ok_iff.mp result with ⟨remotes, pushed, result⟩
      rcases bind_eq_ok_iff.mp result with ⟨cPairs, paired, same⟩
      cases same
      exact .inr ⟨Nat.lt_of_not_le room, remotes, cPairs, Slots.push_eq_ok_iff.mp pushed,
        Slots.push_eq_ok_iff.mp paired, rfl⟩
  · rintro (⟨full, rfl⟩ | ⟨room, remotes, cPairs, pushed, paired, rfl⟩)
    · rw [if_pos full]
    · rw [if_neg (Nat.not_le.mpr room), Slots.push_eq_ok_iff.mpr pushed, ok_bind]
      rw [← remotePair, Slots.push_eq_ok_iff.mpr paired, ok_bind]

theorem insertLocalCandidate_succeeds_iff : Succeeds (insertLocalCandidate p ice cand) ↔
    (ice.locals.items.length < maxConnPairs →
      ice.cPairs.items.length + ice.remotes.items.length ≤ maxConnPairs) := by
  have made : (localPairs p ice cand).length = ice.remotes.items.length := List.length_mapIdx
  constructor
  · rintro ⟨ice', result⟩ room
    rcases insertLocalCandidate_eq_ok_iff.mp result with ⟨full, -⟩ | ⟨-, -, cPairs, -, paired, -⟩
    · exact absurd room (Nat.not_lt.mpr full)
    · have fits := cPairs.fits
      rw [paired, List.length_append, made] at fits
      exact fits
  · intro fits
    by_cases room : ice.locals.items.length < maxConnPairs
    · refine ⟨_, insertLocalCandidate_eq_ok_iff.mpr (.inr ⟨room,
        ⟨ice.locals.items ++ [cand], ?_⟩, ⟨ice.cPairs.items ++ localPairs p ice cand, ?_⟩,
        rfl, rfl, rfl⟩)⟩
      · rw [List.length_append]
        exact room
      · rw [List.length_append, made]
        exact fits room
    · exact ⟨ice, insertLocalCandidate_eq_ok_iff.mpr (.inl ⟨Nat.not_lt.mp room, rfl⟩)⟩

theorem insertRemoteCandidate_succeeds_iff : Succeeds (insertRemoteCandidate p ice remote) ↔
    (ice.remotes.items.length < maxConnPairs → ice.cPairs.items.length < maxConnPairs) := by
  constructor
  · rintro ⟨ice', result⟩ room
    rcases insertRemoteCandidate_eq_ok_iff.mp result with ⟨full, -⟩ | ⟨-, -, cPairs, -, paired, -⟩
    · exact absurd room (Nat.not_lt.mpr full)
    · have fits := cPairs.fits
      rw [paired, List.length_append] at fits
      exact fits
  · intro fits
    by_cases room : ice.remotes.items.length < maxConnPairs
    · refine ⟨_, insertRemoteCandidate_eq_ok_iff.mpr (.inr ⟨room,
        ⟨ice.remotes.items ++ [remote], ?_⟩, ⟨ice.cPairs.items ++ [remotePair p ice remote], ?_⟩,
        rfl, rfl, rfl⟩)⟩
      · rw [List.length_append]
        exact room
      · rw [List.length_append]
        exact fits room
    · exact ⟨ice, insertRemoteCandidate_eq_ok_iff.mpr (.inl ⟨Nat.not_lt.mp room, rfl⟩)⟩

/-! ## What the pairs are made of -/

/-- What holds whatever children are appended. -/
structure Grown (ice : IoStream) : Prop where
  localsBelow : ∀ c ∈ ice.locals.items, c.ptr < ice.mallocs
  remotesBelow : ∀ c ∈ ice.remotes.items, c.ptr < ice.mallocs
  remotesOnce : (ice.remotes.items.map Candidate.ptr).Nodup
  ends : ∀ pair ∈ ice.cPairs.items,
    (∀ l, pair.localCand = some l → l ∈ ice.locals.items) ∧ pair.remote ∈ ice.remotes.items
  once : (ice.cPairs.items.map CandidatePair.key).Nodup
  covered : ice.locals.items ≠ [] → ∀ remote ∈ ice.remotes.items,
    ∃ pair ∈ ice.cPairs.items, pair.remote = remote ∧ pair.localCand.isSome

theorem grown_created (attrs : AttrList) (sockv4 sockv4Ctl : Nat) :
    Grown (created attrs sockv4 sockv4Ctl) where
  localsBelow := by simp [created, Slots.empty]
  remotesBelow := by simp [created, Slots.empty]
  remotesOnce := List.nodup_nil
  ends := by simp [created, Slots.empty]
  once := List.nodup_nil
  covered := by simp [created, Slots.empty]

/-- Only the arrays and the number of allocations matter. -/
theorem Grown.congr (grown : Grown ice) (pairs : ice'.cPairs = ice.cPairs)
    (locals : ice'.locals = ice.locals) (remotes : ice'.remotes = ice.remotes)
    (mallocs : ice.mallocs ≤ ice'.mallocs) : Grown ice' where
  localsBelow := by
    rw [locals]
    exact fun c member => Nat.lt_of_lt_of_le (grown.localsBelow c member) mallocs
  remotesBelow := by
    rw [remotes]
    exact fun c member => Nat.lt_of_lt_of_le (grown.remotesBelow c member) mallocs
  remotesOnce := by
    rw [remotes]
    exact grown.remotesOnce
  ends := by
    rw [pairs, locals, remotes]
    exact grown.ends
  once := by
    rw [pairs]
    exact grown.once
  covered := by
    rw [pairs, locals, remotes]
    exact grown.covered

/-- The pairs of a new local candidate differ from each other and from all earlier ones. -/
theorem Grown.insertLocal (grown : Grown ice) (below : cand.ptr < ice.mallocs)
    (fresh : ∀ c ∈ ice.locals.items, c.ptr ≠ cand.ptr)
    (result : insertLocalCandidate p ice cand = .ok ice') : Grown ice' := by
  rcases insertLocalCandidate_eq_ok_iff.mp result with
    ⟨-, rfl⟩ | ⟨-, locals, cPairs, pushed, paired, rfl⟩
  · exact grown
  have mem_locals : ∀ c, c ∈ locals.items ↔ c ∈ ice.locals.items ∨ c = cand := by
    intro c
    rw [pushed, List.mem_append, List.mem_singleton]
  have mem_pairs : ∀ pair, pair ∈ cPairs.items ↔
      pair ∈ ice.cPairs.items ∨ pair ∈ localPairs p ice cand := by
    intro pair
    rw [paired, List.mem_append]
  constructor
  · intro c member
    rcases (mem_locals c).mp member with earlier | rfl
    · exact grown.localsBelow c earlier
    · exact below
  · exact grown.remotesBelow
  · exact grown.remotesOnce
  · intro pair member
    rcases (mem_pairs pair).mp member with earlier | made
    · rcases grown.ends pair earlier with ⟨own, other⟩
      exact ⟨fun l same => (mem_locals l).mpr (.inl (own l same)), other⟩
    · rcases mem_localPairs made with ⟨own, other⟩
      refine ⟨fun l same => (mem_locals l).mpr (.inr ?_), other⟩
      rw [own] at same
      exact (Option.some.inj same).symm
  · show (cPairs.items.map CandidatePair.key).Nodup
    rw [paired, List.map_append]
    apply List.nodup_append.mpr
    refine ⟨grown.once, ?_, ?_⟩
    · have keys : (localPairs p ice cand).map CandidatePair.key =
          (ice.remotes.items.map Candidate.ptr).map fun ptr => (some cand.ptr, ptr) := by
        apply List.ext_getElem?
        intro i
        simp only [localPairs, List.getElem?_map, List.getElem?_mapIdx, Option.map_map]
        rfl
      rw [keys]
      apply grown.remotesOnce.map
      intro a b same
      exact (Prod.mk.inj same).2
    · rintro key earlier key' made rfl
      rcases List.mem_map.mp earlier with ⟨pair, member, same⟩
      rcases List.mem_map.mp made with ⟨pair', member', same'⟩
      rw [CandidatePair.key] at same same'
      rw [(mem_localPairs member').1] at same'
      rw [← same', Prod.mk.injEq] at same
      rcases Option.map_eq_some_iff.mp same.1 with ⟨l, own, ptr⟩
      exact fresh l ((grown.ends pair member).1 l own) ptr
  · intro _ remote member
    rcases @exists_localPairs p ice cand remote member with ⟨pair, made, other, own⟩
    refine ⟨pair, (mem_pairs pair).mpr (.inr made), other, ?_⟩
    rw [own]
    rfl

theorem Grown.insertRemote (grown : Grown ice) (below : remote.ptr < ice.mallocs)
    (fresh : ∀ c ∈ ice.remotes.items, c.ptr ≠ remote.ptr)
    (result : insertRemoteCandidate p ice remote = .ok ice') : Grown ice' := by
  rcases insertRemoteCandidate_eq_ok_iff.mp result with
    ⟨-, rfl⟩ | ⟨-, remotes, cPairs, pushed, paired, rfl⟩
  · exact grown
  have mem_remotes : ∀ c, c ∈ remotes.items ↔ c ∈ ice.remotes.items ∨ c = remote := by
    intro c
    rw [pushed, List.mem_append, List.mem_singleton]
  have mem_pairs : ∀ pair, pair ∈ cPairs.items ↔
      pair ∈ ice.cPairs.items ∨ pair = remotePair p ice remote := by
    intro pair
    rw [paired, List.mem_append, List.mem_singleton]
  constructor
  · exact grown.localsBelow
  · intro c member
    rcases (mem_remotes c).mp member with earlier | rfl
    · exact grown.remotesBelow c earlier
    · exact below
  · show (remotes.items.map Candidate.ptr).Nodup
    rw [pushed, List.map_append]
    apply List.nodup_append.mpr
    refine ⟨grown.remotesOnce, List.nodup_singleton _, ?_⟩
    rintro ptr earlier ptr' last rfl
    rcases List.mem_map.mp earlier with ⟨c, member, same⟩
    rw [List.mem_singleton.mp last] at same
    exact fresh c member same
  · intro pair member
    rcases (mem_pairs pair).mp member with earlier | rfl
    · rcases grown.ends pair earlier with ⟨own, other⟩
      exact ⟨own, (mem_remotes _).mpr (.inl other)⟩
    · refine ⟨fun l own => ?_, (mem_remotes _).mpr (.inr rfl)⟩
      exact List.mem_of_mem_head? own
  · show (cPairs.items.map CandidatePair.key).Nodup
    rw [paired, List.map_append]
    apply List.nodup_append.mpr
    refine ⟨grown.once, List.nodup_singleton _, ?_⟩
    rintro key earlier key' last rfl
    rcases List.mem_map.mp earlier with ⟨pair, member, same⟩
    rw [List.mem_singleton.mp last] at same
    exact fresh pair.remote (grown.ends pair member).2 (Prod.mk.inj same).2
  · intro hasLocal c member
    rcases (mem_remotes c).mp member with earlier | rfl
    · rcases grown.covered hasLocal c earlier with ⟨pair, made, other, own⟩
      exact ⟨pair, (mem_pairs pair).mpr (.inl made), other, own⟩
    · refine ⟨_, (mem_pairs _).mpr (.inr rfl), rfl, ?_⟩
      exact List.isSome_head?.mpr hasLocal

/-! ## Appended children -/

theorem onLocalCandidate_eq_ok_iff : onLocalCandidate p ice attrs = .ok (ice', out) ↔
    xobjToSockaddrIn p attrs = none ∧ ice' = ice ∧ out = [] ∨
      ∃ addr, xobjToSockaddrIn p attrs = some addr ∧ ∃ middle,
        insertLocalCandidate p { ice with mallocs := ice.mallocs + 1 }
          ⟨ice.mallocs, addr, some (localStreamId p ice), none, none⟩ = .ok middle ∧
        ice' = { middle with
          draws := middle.draws + 1
          children := middle.children.modify (middle.children.length - 1) fun child =>
            { child with
              attrs := setattr (lit "id") (some (decimal (localStreamId p ice))) child.attrs } } ∧
        out = [.candidateNew
          (setattr (lit "id") (some (decimal (localStreamId p ice))) attrs)] := by
  unfold onLocalCandidate
  cases parsed : xobjToSockaddrIn p attrs with
  | none => simp [eq_comm]
  | some addr =>
      simp only [reduceCtorEq, false_and, false_or, Option.some.injEq, exists_eq_left']
      rw [bind_eq_ok_iff]
      constructor
      · rintro ⟨middle, inserted, same⟩
        cases same
        exact ⟨middle, inserted, rfl, rfl⟩
      · rintro ⟨middle, inserted, rfl, rfl⟩
        exact ⟨middle, inserted, rfl⟩

theorem onRemoteCandidate_eq_ok_iff : onRemoteCandidate p ice attrs = .ok (ice', out) ↔
    out = [] ∧ (xobjToSockaddrIn p attrs = none ∧ ice' = ice ∨
      ∃ addr, xobjToSockaddrIn p attrs = some addr ∧ ∃ username password,
        insertRemoteCandidate p { ice with mallocs := ice.mallocs + 1 }
          ⟨ice.mallocs, addr, none, username, password⟩ = .ok ice' ∧
        username = (getattr (lit "username") attrs).or
          ((getattr (lit "ufrag") attrs).or (getenv p ice (lit "ufrag"))) ∧
        password = (getattr (lit "password") attrs).or
          ((getattr (lit "pwd") attrs).or (getenv p ice (lit "pwd")))) := by
  unfold onRemoteCandidate
  cases parsed : xobjToSockaddrIn p attrs with
  | none => simp [eq_comm, and_comm]
  | some addr =>
      simp only [reduceCtorEq, false_and, false_or, Option.some.injEq, exists_eq_left']
      rw [bind_eq_ok_iff]
      constructor
      · rintro ⟨middle, inserted, same⟩
        cases same
        exact ⟨rfl, _, _, inserted, rfl, rfl⟩
      · rintro ⟨rfl, username, password, inserted, rfl, rfl⟩
        exact ⟨ice', inserted, rfl⟩

/-- No name stands for both kinds of candidates. -/
theorem not_candidate_of_local (own : eqText (lit "local-candidate") name = true) :
    eqText (lit "candidate") name = false := by
  cases other : eqText (lit "candidate") name with
  | false => rfl
  | true =>
      simp only [eqText, decide_eq_true_eq] at own other
      have same := own.trans other.symm
      revert same
      decide

/-- There is room for the pairs that a child adds. -/
def Insertable (p : Platform) (ice : IoStream) (name : Text) (attrs : AttrList) : Prop :=
  (xobjToSockaddrIn p attrs).isSome →
    (eqText (lit "local-candidate") name = true → ice.locals.items.length < maxConnPairs →
      ice.cPairs.items.length + ice.remotes.items.length ≤ maxConnPairs) ∧
    (eqText (lit "candidate") name = true → ice.remotes.items.length < maxConnPairs →
      ice.cPairs.items.length < maxConnPairs)

theorem onLocalCandidate_succeeds_iff : Succeeds (onLocalCandidate p ice attrs) ↔
    ((xobjToSockaddrIn p attrs).isSome → ice.locals.items.length < maxConnPairs →
      ice.cPairs.items.length + ice.remotes.items.length ≤ maxConnPairs) := by
  constructor
  · rintro ⟨⟨ice', out⟩, result⟩ address
    rcases onLocalCandidate_eq_ok_iff.mp result with ⟨missing, -⟩ | ⟨addr, -, middle, inserted, -⟩
    · rw [missing] at address
      cases address
    · have fits := insertLocalCandidate_succeeds_iff.mp ⟨middle, inserted⟩
      exact fits
  · intro fits
    cases parsed : xobjToSockaddrIn p attrs with
    | none => exact ⟨_, onLocalCandidate_eq_ok_iff.mpr (.inl ⟨parsed, rfl, rfl⟩)⟩
    | some addr =>
        rw [parsed] at fits
        rcases (@insertLocalCandidate_succeeds_iff p { ice with mallocs := ice.mallocs + 1 }
          ⟨ice.mallocs, addr, some (localStreamId p ice), none, none⟩).mpr (fits rfl) with
          ⟨middle, inserted⟩
        exact ⟨_, onLocalCandidate_eq_ok_iff.mpr (.inr ⟨addr, parsed, middle, inserted, rfl, rfl⟩)⟩

theorem onRemoteCandidate_succeeds_iff : Succeeds (onRemoteCandidate p ice attrs) ↔
    ((xobjToSockaddrIn p attrs).isSome → ice.remotes.items.length < maxConnPairs →
      ice.cPairs.items.length < maxConnPairs) := by
  constructor
  · rintro ⟨⟨ice', out⟩, result⟩ address
    rcases (onRemoteCandidate_eq_ok_iff.mp result).2 with
      ⟨missing, -⟩ | ⟨addr, -, username, password, inserted, -⟩
    · rw [missing] at address
      cases address
    · have fits := insertRemoteCandidate_succeeds_iff.mp ⟨ice', inserted⟩
      exact fits
  · intro fits
    cases parsed : xobjToSockaddrIn p attrs with
    | none => exact ⟨_, onRemoteCandidate_eq_ok_iff.mpr ⟨rfl, .inl ⟨parsed, rfl⟩⟩⟩
    | some addr =>
        rw [parsed] at fits
        have inserts : ∀ cand, Succeeds
            (insertRemoteCandidate p { ice with mallocs := ice.mallocs + 1 } cand) :=
          fun cand => insertRemoteCandidate_succeeds_iff.mpr (fits rfl)
        unfold onRemoteCandidate
        rw [parsed]
        dsimp only
        rw [succeeds_bind_iff]
        rcases inserts _ with ⟨middle, inserted⟩
        exact ⟨middle, inserted, succeeds_ok _⟩

/-- The append succeeds exactly if its pairs fit. -/
theorem appendChild_succeeds_iff : Succeeds (appendChild p ice name attrs) ↔
    Insertable p ice name attrs := by
  unfold appendChild onChildAppend Insertable
  split
  · rename_i own
    rw [onLocalCandidate_succeeds_iff, not_candidate_of_local own]
    simp [own, linkChild]
  · rename_i notOwn
    split
    · rename_i other
      rw [onRemoteCandidate_succeeds_iff]
      simp [notOwn, other, linkChild]
    · rename_i notOther
      simp [notOwn, notOther]

theorem Grown.appendChild (grown : Grown ice)
    (result : appendChild p ice name attrs = .ok (ice', out)) : Grown ice' := by
  have linked : Grown (ice.linkChild name attrs) :=
    grown.congr rfl rfl rfl (Nat.le_refl _)
  unfold IoStream.appendChild onChildAppend at result
  split at result
  · rcases onLocalCandidate_eq_ok_iff.mp result with
      ⟨-, rfl, -⟩ | ⟨addr, -, middle, inserted, rfl, -⟩
    · exact linked
    · have counted : Grown { ice.linkChild name attrs with
          mallocs := (ice.linkChild name attrs).mallocs + 1 } :=
        linked.congr rfl rfl rfl (Nat.le_succ _)
      have inserted' := counted.insertLocal (Nat.lt_succ_self _)
        (fun c member => Nat.ne_of_lt (linked.localsBelow c member)) inserted
      exact inserted'.congr rfl rfl rfl (Nat.le_refl _)
  · split at result
    · rcases (onRemoteCandidate_eq_ok_iff.mp result).2 with
        ⟨-, rfl⟩ | ⟨addr, -, username, password, inserted, -⟩
      · exact linked
      · have counted : Grown { ice.linkChild name attrs with
            mallocs := (ice.linkChild name attrs).mallocs + 1 } :=
          linked.congr rfl rfl rfl (Nat.le_succ _)
        exact counted.insertRemote (Nat.lt_succ_self _)
          (fun c member => Nat.ne_of_lt (linked.remotesBelow c member)) inserted
    · cases result
      exact linked

/-! ## Complete pairs -/

/-- A remote candidate finds a local one to be paired with. -/
def Anchored (p : Platform) (ice : IoStream) (name : Text) (attrs : AttrList) : Prop :=
  (xobjToSockaddrIn p attrs).isSome → eqText (lit "candidate") name = true →
    ice.remotes.items.length < maxConnPairs → ice.locals.items ≠ []

/-- All pairs have a local end. -/
def Complete (ice : IoStream) : Prop :=
  ∀ pair ∈ ice.cPairs.items, pair.localCand.isSome

/-- Pairs stay complete exactly if each remote candidate finds a local one. -/
theorem complete_appendChild_iff (complete : Complete ice)
    (result : appendChild p ice name attrs = .ok (ice', out)) :
    Complete ice' ↔ Anchored p ice name attrs := by
  unfold appendChild onChildAppend at result
  unfold Anchored
  split at result
  · rename_i own
    rw [not_candidate_of_local own]
    simp only [Bool.false_eq_true, false_implies, implies_true, iff_true]
    rcases onLocalCandidate_eq_ok_iff.mp result with
      ⟨-, rfl, -⟩ | ⟨addr, -, middle, inserted, rfl, -⟩
    · exact complete
    · rcases insertLocalCandidate_eq_ok_iff.mp inserted with
        ⟨-, rfl⟩ | ⟨-, locals, cPairs, -, paired, rfl⟩
      · exact complete
      · intro pair member
        rcases List.mem_append.mp (paired ▸ member) with earlier | made
        · exact complete pair earlier
        · rw [(mem_localPairs made).1]
          rfl
  · split at result
    · rename_i other
      rcases (onRemoteCandidate_eq_ok_iff.mp result).2 with
        ⟨missing, rfl⟩ | ⟨addr, parsed, username, password, inserted, -⟩
      · rw [missing]
        simp only [Option.isSome_none, Bool.false_eq_true, false_implies, iff_true]
        exact complete
      · rw [parsed]
        rcases insertRemoteCandidate_eq_ok_iff.mp inserted with
          ⟨full, rfl⟩ | ⟨room, remotes, cPairs, -, paired, rfl⟩
        · constructor
          · intro _ _ _ room
            exact absurd room (Nat.not_lt.mpr full)
          · intro _
            exact complete
        · constructor
          · intro complete' _ _ _
            have last := complete' _ (by rw [paired]; exact List.mem_concat_self)
            exact List.isSome_head?.mp last
          · intro anchored pair member
            rcases List.mem_append.mp (paired ▸ member) with earlier | made
            · exact complete pair earlier
            · rw [List.mem_singleton.mp made]
              exact List.isSome_head?.mpr (anchored rfl other room)
    · rename_i notOther
      cases result
      constructor
      · intro _ _ other
        exact absurd other notOther
      · intro _
        exact complete

/-! ## Runs of appended children -/

/-- All stored pairs are made of candidates that were inserted, no two of them of the same
ones, and no remote candidate is left out. -/
structure Paired (ice : IoStream) : Prop where
  ends : ∀ pair ∈ ice.cPairs.items,
    (∃ l ∈ ice.locals.items, pair.localCand = some l) ∧ pair.remote ∈ ice.remotes.items
  once : (ice.cPairs.items.map CandidatePair.key).Nodup
  covered : ice.locals.items ≠ [] → ∀ remote ∈ ice.remotes.items,
    ∃ pair ∈ ice.cPairs.items, pair.remote = remote ∧
      ∃ l ∈ ice.locals.items, pair.localCand = some l

theorem Grown.paired_iff (grown : Grown ice) : Paired ice ↔ Complete ice := by
  have real : ∀ pair ∈ ice.cPairs.items, pair.localCand.isSome →
      ∃ l ∈ ice.locals.items, pair.localCand = some l := by
    intro pair member hasLocal
    rcases Option.isSome_iff_exists.mp hasLocal with ⟨l, own⟩
    exact ⟨l, (grown.ends pair member).1 l own, own⟩
  constructor
  · intro paired pair member
    rcases (paired.ends pair member).1 with ⟨l, -, own⟩
    rw [own]
    rfl
  · intro complete
    refine ⟨fun pair member => ⟨real pair member (complete pair member),
      (grown.ends pair member).2⟩, grown.once, fun hasLocal remote member => ?_⟩
    rcases grown.covered hasLocal remote member with ⟨pair, made, other, own⟩
    exact ⟨pair, made, other, real pair made own⟩

/-- One child is appended, given by its name and its attributes. -/
def append (p : Platform) (ice : IoStream) (child : Text × AttrList) : Except Fault IoStream :=
  (appendChild p ice child.1 child.2).map Prod.fst

/-- The append stays inside the arrays and leaves proper pairs. -/
def Pairs (p : Platform) (ice : IoStream) (child : Text × AttrList) : Prop :=
  ∃ ice', append p ice child = .ok ice' ∧ Paired ice'

theorem pairs_iff (grown : Grown ice) (complete : Complete ice) (child : Text × AttrList) :
    Pairs p ice child ↔ Insertable p ice child.1 child.2 ∧ Anchored p ice child.1 child.2 := by
  constructor
  · rintro ⟨ice', appended, paired⟩
    rcases map_eq_ok_iff.mp appended with ⟨⟨ice'', out⟩, result, rfl⟩
    have complete' := (grown.appendChild result).paired_iff.mp paired
    exact ⟨appendChild_succeeds_iff.mp ⟨_, result⟩,
      (complete_appendChild_iff complete result).mp complete'⟩
  · rintro ⟨fits, anchored⟩
    rcases appendChild_succeeds_iff.mpr fits with ⟨⟨ice', out⟩, result⟩
    have complete' := (complete_appendChild_iff complete result).mpr anchored
    exact ⟨ice', map_eq_ok_iff.mpr ⟨_, result, rfl⟩,
      (grown.appendChild result).paired_iff.mpr complete'⟩

instance (p : Platform) (ice : IoStream) (name : Text) (attrs : AttrList) :
    Decidable (Insertable p ice name attrs) := by
  unfold Insertable
  infer_instance

/-- **Pairing.**  In a run of appended children the pairs are proper after every child exactly
if the pairs of each child fit and each remote candidate comes behind a local one. -/
theorem along_pairs_iff {sockv4 sockv4Ctl : Nat} {children : List (Text × AttrList)} :
    Along (append p) (Pairs p) (created attrs sockv4 sockv4Ctl) children ↔
      Along (append p)
        (fun ice child => Insertable p ice child.1 child.2 ∧ Anchored p ice child.1 child.2)
        (created attrs sockv4 sockv4Ctl) children := by
  refine along_congr (fun ice => Grown ice ∧ Complete ice) ?_
    (fun ice child inside => pairs_iff inside.1 inside.2 child)
    ⟨grown_created attrs sockv4 sockv4Ctl, by simp [Complete, created, Slots.empty]⟩
  rintro ice child ice' ⟨grown, complete⟩ ⟨ice'', appended', paired⟩ appended
  cases appended.symm.trans appended'
  rcases map_eq_ok_iff.mp appended with ⟨⟨_, out⟩, result, rfl⟩
  have grown' := grown.appendChild result
  exact ⟨grown', grown'.paired_iff.mp paired⟩

/-- A host that knows one address. -/
def host : Platform where
  hmac := zeroHmac
  crcTab := fun _ => 0
  heap := fun _ => 0
  random := fun n => Fin.ofNat _ (1000 + n)
  stnPkt := fun _ => 0
  inetAton := fun addr => if addr = lit "10.0.0.1" then some 0x0A000001 else none
  outer := fun _ => none

/-- A candidate on a port of the host. -/
def candidateAt (name port : String) : Text × AttrList :=
  (lit name, [(lit "ip", lit "10.0.0.1"), (lit "port", lit port)])

/-- A remote candidate without a local one, and two local candidates around 256 remote ones. -/
theorem not_along_pairs_early :
    ¬Along (append host) (Pairs host) (created [] 5 6) [candidateAt "candidate" "5000"] ∧
      ¬Along (append host) (Pairs host) (created [] 5 6)
        (candidateAt "local-candidate" "4000" ::
          (List.replicate 256 (candidateAt "candidate" "5000") ++
            [candidateAt "local-candidate" "4001"])) := by
  constructor
  · intro along
    have first := (pairs_iff (grown_created [] 5 6) (by simp [Complete, created, Slots.empty])
      (candidateAt "candidate" "5000")).mp along.1
    exact first.2 (by decide) (by decide) (by decide) rfl
  · intro along
    have fits : ∀ ice child, Pairs host ice child → Insertable host ice child.1 child.2 := by
      rintro ice child ⟨ice', appended, -⟩
      rcases map_eq_ok_iff.mp appended with ⟨_, result, -⟩
      exact appendChild_succeeds_iff.mp ⟨_, result⟩
    have fit := along.mono fits
    revert fit
    decide +kernel

end IoStream

end Xwbot.Ice
