import Xwbot.HashTable
import Xwbot.Runs

/-!
# The registry of object classes

`x_objfactory.c` keeps the classes of each namespace in a table of their own, and the
namespaces in a table above these.  A lookup copies its key to lower case before it hashes
it; a registration hashes the key as it is written.
-/

namespace Xwbot

open Runs

/-- `DFL_NAMESPACE_NAME`. -/
def dflNamespaceName : Text :=
  lit "defaultns"

/-- What `x_obj_get_class` returns. -/
inductive ClassPtr where
  | null
  /-- `__protoclass`. -/
  | proto
  | oclass (c : Nat)
  deriving DecidableEq, Repr

/-- The state of the factory.  The namespaces and the classes are numbered. -/
structure Registry where
  nsmap : Table Nat
  /-- `x_malloc` has given out the namespaces below this number. -/
  namespaces : Nat
  /-- The field `classmap` of a namespace. -/
  classmap : Nat → Table Nat
  /-- The field `lentry.next` of a class. -/
  next : Nat → Option Nat
  /-- The field `lentry.prev` of a class. -/
  prev : Nat → Option Nat

namespace Registry

/-- The factory before anything is registered. -/
def empty : Registry where
  nsmap := .empty
  namespaces := 0
  classmap _ := .empty
  next _ := none
  prev _ := none

/-- `xw_list_init`. -/
def listInit (r : Registry) (l : Nat) : Registry :=
  { r with prev := Function.update r.prev l (some l), next := Function.update r.next l (some l) }

/-- `xw_list_insert`. -/
def listInsert (r : Registry) (l e : Nat) : Except Fault Registry :=
  let r := { r with prev := Function.update r.prev e (some l) }
  let r := { r with next := Function.update r.next e (r.next l) }
  let r := { r with next := Function.update r.next l (some e) }
  match r.next e with
  | none => .error .segv
  | some behind => .ok { r with prev := Function.update r.prev behind (some e) }

/-- The branch of `x_class_get_ns` that finds nothing: an empty namespace is stored. -/
def newNs (r : Registry) (nsname : Text) : Registry :=
  { r with
    namespaces := r.namespaces + 1
    classmap := Function.update r.classmap r.namespaces .empty
    nsmap := r.nsmap.htSet nsname r.namespaces }

/-- `x_class_get_ns`. -/
def classGetNs (r : Registry) (nsname : Text) : Except Fault (Registry × Nat) := do
  let ns ← r.nsmap.htLowcaseGet nsname
  match ns with
  | some ns => .ok (r, ns)
  | none => .ok (r.newNs nsname, r.namespaces)

/-- The loop of `x_obj_get_class` over the classes behind `ret`, for at most so many turns. -/
def matchLoop (classmatch : Nat → Option (AttrList → Int)) (r : Registry) (attrs : AttrList)
    (ret : Nat) : Nat → Option Nat → Except Fault Nat
  | _, none => .ok ret
  | 0, some _ => .error .hang
  | turns + 1, some ret_ =>
      if (classmatch ret_).any (fun classmatch => classmatch attrs > 0) then .ok ret_
      else if ret_ = ret then .ok ret
      else matchLoop classmatch r attrs ret turns (r.next ret_)

/-- `x_obj_get_class`.  Its loop may take `turns + 1` turns. -/
def objGetClass (classmatch : Nat → Option (AttrList → Int)) (turns : Nat) (r : Registry)
    (name : Text) (ns : Option Text) (attrs : AttrList) (protoOnFail : Bool) :
    Except Fault (Registry × ClassPtr) := do
  let (r, ns) ← r.classGetNs (ns.getD dflNamespaceName)
  let ret ← (r.classmap ns).htLowcaseGet name
  match ret with
  | some ret => do
      let ret ← matchLoop classmatch r attrs ret (turns + 1) (some ret)
      .ok (r, .oclass ret)
  | none => .ok (r, if protoOnFail then .proto else .null)

/-- The part of `x_class_register_ns` behind the lookup of the namespace. -/
def register (r : Registry) (name : Text) (oclass ns : Nat) : Except Fault Registry :=
  match (r.classmap ns).htGet name with
  | none => .ok { r with
      classmap := Function.update r.classmap ns ((r.classmap ns).htSet name oclass) }
  | some myclass => r.listInsert myclass oclass

/-- `x_class_register_ns`. -/
def classRegisterNs (r : Registry) (name : Text) (oclass : Nat) (ns : Option Text) :
    Except Fault Registry := do
  let (r, ns) ← (r.listInit oclass).classGetNs (ns.getD dflNamespaceName)
  r.register name oclass ns

end Registry

/-- A call into the factory. -/
inductive RegistryCall where
  | classRegisterNs (name : Text) (oclass : Nat) (ns : Option Text)
  | objGetClass (name : Text) (ns : Option Text) (attrs : AttrList) (protoOnFail : Bool)
  deriving DecidableEq, Repr

namespace RegistryCall

/-- The name of the namespace that a call looks up. -/
def nsname : RegistryCall → Text
  | classRegisterNs _ _ ns => ns.getD dflNamespaceName
  | objGetClass _ ns _ _ => ns.getD dflNamespaceName

/-- The factory after a call. -/
def step (classmatch : Nat → Option (AttrList → Int)) (turns : Nat) (r : Registry) :
    RegistryCall → Except Fault Registry
  | classRegisterNs name oclass ns => r.classRegisterNs name oclass ns
  | objGetClass name ns attrs protoOnFail =>
      (r.objGetClass classmatch turns name ns attrs protoOnFail).map Prod.fst

/-- The names of a call fit the buffers that they are copied into. -/
def Fits : RegistryCall → Prop
  | classRegisterNs _ _ ns => (ns.getD dflNamespaceName).length < lowcaseBuf
  | objGetClass name ns _ _ =>
      (ns.getD dflNamespaceName).length < lowcaseBuf ∧ name.length < lowcaseBuf

end RegistryCall

/-! ## What a sequence of calls registers -/

/-- A class is registered under a name in a namespace, both up to letter case. -/
def Registered (calls : List RegistryCall) (name ns : Text) (c : Nat) : Prop :=
  ∃ name' ns', .classRegisterNs name' c ns' ∈ calls ∧ lowcase name' = lowcase name ∧
    lowcase (ns'.getD dflNamespaceName) = lowcase ns

/-- Some call has installed a namespace where lookups go to find it. -/
def Installed (calls : List RegistryCall) (ns : Text) : Prop :=
  ∃ call ∈ calls, WellHashed call.nsname ∧ lowcase call.nsname = lowcase ns

/-- A registration that lookups find: it hashes its name as they do, and it or a call before
it installed the namespace that they go to. -/
def Findable (calls : List RegistryCall) (name ns : Text) : Prop :=
  ∃ before name' c ns' behind, calls = before ++ .classRegisterNs name' c ns' :: behind ∧
    WellHashed name' ∧ lowcase name' = lowcase name ∧
    lowcase (ns'.getD dflNamespaceName) = lowcase ns ∧
    Installed (before ++ [.classRegisterNs name' c ns']) ns

section Histories

variable {calls : List RegistryCall} {call : RegistryCall} {name ns : Text} {c : Nat}

theorem installed_concat : Installed (calls ++ [call]) ns ↔
    Installed calls ns ∨ WellHashed call.nsname ∧ lowcase call.nsname = lowcase ns := by
  simp only [Installed, List.mem_append, List.mem_singleton]
  constructor
  · rintro ⟨call', member | rfl, good⟩
    · exact .inl ⟨call', member, good⟩
    · exact .inr good
  · rintro (⟨call', member, good⟩ | good)
    · exact ⟨call', .inl member, good⟩
    · exact ⟨call, .inr rfl, good⟩

theorem registered_concat : Registered (calls ++ [call]) name ns c ↔
    Registered calls name ns c ∨ ∃ name' ns', call = .classRegisterNs name' c ns' ∧
      lowcase name' = lowcase name ∧ lowcase (ns'.getD dflNamespaceName) = lowcase ns := by
  simp only [Registered, List.mem_append, List.mem_singleton]
  constructor
  · rintro ⟨name', ns', member | rfl, same⟩
    · exact .inl ⟨name', ns', member, same⟩
    · exact .inr ⟨name', ns', rfl, same⟩
  · rintro (⟨name', ns', member, same⟩ | ⟨name', ns', rfl, same⟩)
    · exact ⟨name', ns', .inl member, same⟩
    · exact ⟨name', ns', .inr rfl, same⟩

theorem findable_concat : Findable (calls ++ [call]) name ns ↔
    Findable calls name ns ∨ ∃ name' c ns', call = .classRegisterNs name' c ns' ∧
      WellHashed name' ∧ lowcase name' = lowcase name ∧
      lowcase (ns'.getD dflNamespaceName) = lowcase ns ∧ Installed (calls ++ [call]) ns := by
  constructor
  · rintro ⟨before, name', c, ns', behind, split, found⟩
    rcases List.eq_nil_or_concat behind with rfl | ⟨behind, last, rfl⟩
    · obtain ⟨rfl, same⟩ := List.append_inj' split rfl
      cases same
      exact .inr ⟨name', c, ns', rfl, found⟩
    · left
      rw [List.concat_eq_append, ← List.cons_append, ← List.append_assoc] at split
      obtain ⟨rfl, -⟩ := List.append_inj' split rfl
      exact ⟨before, name', c, ns', behind, rfl, found⟩
  · rintro (⟨before, name', c, ns', behind, rfl, found⟩ | ⟨name', c, ns', rfl, found⟩)
    · exact ⟨before, name', c, ns', behind ++ [call], by simp, found⟩
    · exact ⟨calls, name', c, ns', [], rfl, found⟩

/-- What is findable was registered. -/
theorem Findable.registered (findable : Findable calls name ns) :
    ∃ c, Registered calls name ns c := by
  obtain ⟨before, name', c, ns', behind, rfl, -, sameName, sameNs, -⟩ := findable
  exact ⟨c, name', ns', by simp, sameName, sameNs⟩

end Histories

/-! ## What the tables hold -/

/-- The tables after a sequence of calls. -/
structure Describes (calls : List RegistryCall) (r : Registry) : Prop where
  /-- The namespaces that lookups find are the ones installed. -/
  installed : ∀ ns, (r.nsmap.lowcaseFind (lowcase ns)).isSome ↔ Installed calls ns
  /-- They have been allocated. -/
  allocated : ∀ ns n, r.nsmap.lowcaseFind (lowcase ns) = some n → n < r.namespaces
  /-- Namespaces of different names are different. -/
  apart : ∀ ns ns' n, r.nsmap.lowcaseFind (lowcase ns) = some n →
    r.nsmap.lowcaseFind (lowcase ns') = some n → lowcase ns = lowcase ns'
  /-- A class is found exactly when a findable one was registered. -/
  findable : ∀ ns n name, r.nsmap.lowcaseFind (lowcase ns) = some n →
    (((r.classmap n).lowcaseFind (lowcase name)).isSome ↔ Findable calls name ns)
  /-- A class that is found was registered under the name. -/
  registered : ∀ ns n name c, r.nsmap.lowcaseFind (lowcase ns) = some n →
    (r.classmap n).lowcaseFind (lowcase name) = some c → Registered calls name ns c
  /-- The list of a class with a cell of its own is closed. -/
  closed : ∀ n key c, (r.classmap n).htGet key = some c → (r.next c).isSome

namespace Describes

variable {calls : List RegistryCall} {call : RegistryCall} {r r' : Registry} {name ns : Text}

theorem empty : Describes [] .empty := by
  constructor <;> simp [Registry.empty, Installed]

/-- Only the tables count, and that the lists of classes stay closed. -/
theorem of_eq (describes : Describes calls r) (nsmap : r'.nsmap = r.nsmap)
    (namespaces : r'.namespaces = r.namespaces) (classmap : r'.classmap = r.classmap)
    (closed : ∀ c, (r.next c).isSome → (r'.next c).isSome) : Describes calls r' := by
  constructor
  · simpa only [nsmap] using describes.installed
  · simpa only [nsmap, namespaces] using describes.allocated
  · simpa only [nsmap] using describes.apart
  · simpa only [nsmap, classmap] using describes.findable
  · simpa only [nsmap, classmap] using describes.registered
  · rw [classmap]
    intro n key c stored
    exact closed c (describes.closed n key c stored)

theorem listInit (describes : Describes calls r) (c : Nat) : Describes calls (r.listInit c) := by
  refine describes.of_eq rfl rfl rfl fun c' some => ?_
  by_cases same : c' = c
  · simp [Registry.listInit, same]
  · simpa [Registry.listInit, same] using some

end Describes

/-- Inserting behind a class whose list is closed. -/
theorem Registry.listInsert_eq_ok {r : Registry} {l e : Nat} (closed : (r.next l).isSome) :
    ∃ r', r.listInsert l e = .ok r' ∧ r'.nsmap = r.nsmap ∧ r'.namespaces = r.namespaces ∧
      r'.classmap = r.classmap ∧ ∀ c, (r.next c).isSome → (r'.next c).isSome := by
  have linked : ∀ c, (r.next c).isSome ∨ c = e →
      (Function.update (Function.update r.next e (r.next l)) l (some e) c).isSome := by
    intro c cases
    by_cases first : c = l
    · simp [first]
    · rw [Function.update_of_ne first]
      by_cases second : c = e
      · rw [second, Function.update_self]
        exact closed
      · rw [Function.update_of_ne second]
        exact cases.resolve_right second
  obtain ⟨behind, next⟩ := Option.isSome_iff_exists.mp (linked e (.inr rfl))
  let r' : Registry := { r with
    prev := Function.update (Function.update r.prev e (some l)) behind (some e)
    next := Function.update (Function.update r.next e (r.next l)) l (some e) }
  refine ⟨r', ?_, rfl, rfl, rfl, fun c isSome => linked c (.inl isSome)⟩
  simp only [listInsert]
  rw [next]

namespace Describes

variable {calls : List RegistryCall} {r r' : Registry} {name nsname : Text} {n c : Nat}

section Lookup

variable {call : RegistryCall}

theorem findable_lookup (isLookup : ∀ name c ns, call ≠ .classRegisterNs name c ns)
    {ns : Text} :
    Findable (calls ++ [call]) name ns ↔ Findable calls name ns := by
  rw [findable_concat]
  constructor
  · rintro (earlier | ⟨name', c, ns', same, -⟩)
    · exact earlier
    · exact absurd same (isLookup name' c ns')
  · exact Or.inl

/-- Looking up a namespace that is there. -/
theorem lookup (describes : Describes calls r)
    (found : r.nsmap.lowcaseFind (lowcase call.nsname) = some n)
    (isLookup : ∀ name c ns, call ≠ .classRegisterNs name c ns) :
      Describes (calls ++ [call]) r := by
  constructor
  · intro ns
    rw [installed_concat, describes.installed]
    constructor
    · exact Or.inl
    · rintro (earlier | ⟨-, same⟩)
      · exact earlier
      · rw [← describes.installed, ← same, found]
        rfl
  · exact describes.allocated
  · exact describes.apart
  · intro ns n name found
    rw [findable_lookup isLookup]
    exact describes.findable ns n name found
  · intro ns n name c found stored
    exact registered_concat.mpr (.inl (describes.registered ns n name c found stored))
  · exact describes.closed

/-- What lookups find behind the installation of a namespace. -/
theorem lowcaseFind_newNs (absent : r.nsmap.lowcaseFind (lowcase nsname) = none) (ns : Text) :
    (r.newNs nsname).nsmap.lowcaseFind (lowcase ns) =
      if WellHashed nsname ∧ lowcase nsname = lowcase ns then some r.namespaces
      else r.nsmap.lowcaseFind (lowcase ns) :=
  Table.lowcaseFind_htSet (.inr absent)

/-- A namespace that is found is the new one, or was there before and is another. -/
theorem newNs_cases (describes : Describes calls r)
    (absent : r.nsmap.lowcaseFind (lowcase nsname) = none) {ns : Text}
    (found : (r.newNs nsname).nsmap.lowcaseFind (lowcase ns) = some n) :
    (n = r.namespaces ∧ WellHashed nsname ∧ lowcase nsname = lowcase ns) ∨
      (n < r.namespaces ∧ r.nsmap.lowcaseFind (lowcase ns) = some n) := by
  rw [lowcaseFind_newNs absent] at found
  split at found
  · next new =>
      cases found
      exact .inl ⟨rfl, new⟩
  · exact .inr ⟨describes.allocated ns n found, found⟩

/-- Looking up a namespace that is not there, which installs an empty one. -/
theorem newNs (describes : Describes calls r)
    (absent : r.nsmap.lowcaseFind (lowcase call.nsname) = none)
    (isLookup : ∀ name c ns, call ≠ .classRegisterNs name c ns) :
    Describes (calls ++ [call]) (r.newNs call.nsname) := by
  have unchanged : ∀ n, n < r.namespaces →
      (r.newNs call.nsname).classmap n = r.classmap n :=
    fun n before => Function.update_of_ne (Nat.ne_of_lt before) _ _
  have cleared : (r.newNs call.nsname).classmap r.namespaces = .empty :=
    Function.update_self _ _ _
  constructor
  · intro ns
    rw [installed_concat, lowcaseFind_newNs absent]
    split
    · next new => simp [new]
    · next other => simp [other, describes.installed]
  · intro ns n found
    change n < r.namespaces + 1
    rcases describes.newNs_cases absent found with ⟨rfl, -⟩ | ⟨before, -⟩
    · exact Nat.lt_succ_self _
    · exact Nat.lt_succ_of_lt before
  · intro ns ns' n found found'
    rcases describes.newNs_cases absent found with ⟨rfl, -, same⟩ | ⟨before, found⟩
    · rcases describes.newNs_cases absent found' with ⟨-, -, same'⟩ | ⟨before, -⟩
      · exact same.symm.trans same'
      · exact absurd before (Nat.lt_irrefl _)
    · rcases describes.newNs_cases absent found' with ⟨rfl, -⟩ | ⟨-, found'⟩
      · exact absurd before (Nat.lt_irrefl _)
      · exact describes.apart ns ns' n found found'
  · intro ns n name found
    rw [findable_lookup isLookup]
    rcases describes.newNs_cases absent found with ⟨rfl, -, same⟩ | ⟨before, found⟩
    · rw [cleared, Table.lowcaseFind_empty]
      simp only [Option.isSome_none, Bool.false_eq_true, false_iff]
      -- a findable registration would have installed the namespace
      rintro ⟨before, name', c, ns', behind, rfl, -, -, -, call', member, good, same'⟩
      have earlier : Installed (before ++ .classRegisterNs name' c ns' :: behind) call.nsname := by
        refine ⟨call', ?_, good, same'.trans same.symm⟩
        rcases List.mem_append.mp member with member | member
        · exact List.mem_append_left _ member
        · rw [List.mem_singleton.mp member]
          simp
      rw [← describes.installed, absent] at earlier
      cases earlier
    · rw [unchanged n before]
      exact describes.findable ns n name found
  · intro ns n name c found stored
    rw [registered_concat]
    rcases describes.newNs_cases absent found with ⟨rfl, -⟩ | ⟨before, found⟩
    · rw [cleared, Table.lowcaseFind_empty] at stored
      cases stored
    · rw [unchanged n before] at stored
      exact .inl (describes.registered ns n name c found stored)
  · intro n key c stored
    change ((Function.update r.classmap r.namespaces Table.empty n).htGet key) = some c at stored
    by_cases new : n = r.namespaces
    · rw [new, Function.update_self, Table.htGet_empty] at stored
      cases stored
    · rw [Function.update_of_ne new] at stored
      exact describes.closed n key c stored

/-- **Looking a namespace up.**  What the call is given is what later lookups of the name
find, or they find nothing and it is empty. -/
theorem classGetNs (describes : Describes calls r) (fits : call.nsname.length < lowcaseBuf)
    (isLookup : ∀ name c ns, call ≠ .classRegisterNs name c ns) :
    ∃ r' n, r.classGetNs call.nsname = .ok (r', n) ∧ r'.next = r.next ∧
      Describes (calls ++ [call]) r' ∧
      (∀ ns, r'.nsmap.lowcaseFind (lowcase ns) = some n → lowcase call.nsname = lowcase ns) ∧
      (r'.nsmap.lowcaseFind (lowcase call.nsname) = some n ∨
        r'.nsmap.lowcaseFind (lowcase call.nsname) = none ∧ r'.classmap n = .empty) := by
  unfold Registry.classGetNs Table.htLowcaseGet
  rw [if_neg (by omega), ok_bind]
  cases found : r.nsmap.lowcaseFind (lowcase call.nsname) with
  | some n =>
      refine ⟨r, n, rfl, rfl, describes.lookup found isLookup, ?_, .inl found⟩
      intro ns same
      exact describes.apart call.nsname ns n found same
  | none =>
      refine ⟨r.newNs call.nsname, r.namespaces, rfl, rfl, describes.newNs found isLookup, ?_, ?_⟩
      · intro ns same
        rcases describes.newNs_cases found same with ⟨-, -, same⟩ | ⟨before, -⟩
        · exact same
        · exact absurd before (Nat.lt_irrefl _)
      · rw [lowcaseFind_newNs found]
        split
        · exact .inl rfl
        · exact .inr ⟨found, Function.update_self _ _ _⟩

end Lookup

/-- **Storing a class** in the namespace that the call has looked up. -/
theorem register {ns : Option Text} {attrs : AttrList} {proto : Bool} {nsname : Text}
    (given : nsname = ns.getD dflNamespaceName)
    (describes : Describes (calls ++ [.objGetClass name ns attrs proto]) r)
    (closed : (r.next c).isSome)
    (mine : ∀ ns, r.nsmap.lowcaseFind (lowcase ns) = some n → lowcase nsname = lowcase ns)
    (only : r.nsmap.lowcaseFind (lowcase nsname) = some n ∨
      r.nsmap.lowcaseFind (lowcase nsname) = none) :
    ∃ r', r.register name c n = .ok r' ∧ Describes (calls ++ [.classRegisterNs name c ns]) r' := by
  have installed : ∀ ns', Installed (calls ++ [.classRegisterNs name c ns]) ns' ↔
      Installed (calls ++ [.objGetClass name ns attrs proto]) ns' := by
    intro ns'
    rw [installed_concat, installed_concat]
    rfl
  have found : ∀ {ns' n'}, r.nsmap.lowcaseFind (lowcase ns') = some n' →
      (n' = n ↔ lowcase nsname = lowcase ns') := by
    intro ns' n' found
    constructor
    · rintro rfl
      exact mine ns' found
    · intro same
      rw [← same] at found
      rcases only with here | absent
      · exact Option.some.inj (found.symm.trans here)
      · rw [found] at absent
        cases absent
  -- the registrations that the call adds, seen from a namespace that is found
  have findable : ∀ {ns' n'} name', r.nsmap.lowcaseFind (lowcase ns') = some n' →
      (Findable (calls ++ [.classRegisterNs name c ns]) name' ns' ↔
        ((r.classmap n').lowcaseFind (lowcase name')).isSome ∨
          n' = n ∧ WellHashed name ∧ lowcase name = lowcase name') := by
    intro ns' n' name' there
    rw [findable_concat, describes.findable ns' n' name' there,
      findable_lookup (by rintro _ _ _ ⟨⟩), installed, ← describes.installed, there, found there,
      given]
    constructor
    · rintro (earlier | ⟨_, _, _, same, good, sameName, sameNs, -⟩)
      · exact .inl earlier
      · cases same
        exact .inr ⟨sameNs, good, sameName⟩
    · rintro (earlier | ⟨sameNs, good, sameName⟩)
      · exact .inl earlier
      · exact .inr ⟨name, c, ns, rfl, good, sameName, sameNs, rfl⟩
  have registered : ∀ {ns' n' name' c'}, r.nsmap.lowcaseFind (lowcase ns') = some n' →
      ((r.classmap n').lowcaseFind (lowcase name') = some c' ∨
        n' = n ∧ c' = c ∧ lowcase name = lowcase name') →
      Registered (calls ++ [.classRegisterNs name c ns]) name' ns' c' := by
    rintro ns' n' name' c' there (stored | ⟨same, rfl, sameName⟩)
    · have earlier := describes.registered ns' n' name' c' there stored
      rcases registered_concat.mp earlier with earlier | ⟨_, _, ⟨⟩, -⟩
      exact registered_concat.mpr (.inl earlier)
    · rw [found there, given] at same
      exact registered_concat.mpr (.inr ⟨name, ns, rfl, sameName, same⟩)
  unfold Registry.register
  cases present : (r.classmap n).htGet name with
  | none =>
      have lookup : ∀ name', ((r.classmap n).htSet name c).lowcaseFind (lowcase name') =
          if WellHashed name ∧ lowcase name = lowcase name' then some c
          else (r.classmap n).lowcaseFind (lowcase name') :=
        fun name' => Table.lowcaseFind_htSet (.inl present)
      refine ⟨_, rfl, fun ns' => ?_, describes.allocated, describes.apart, ?_, ?_, ?_⟩
      · rw [installed]
        exact describes.installed ns'
      · intro ns' n' name' there
        rw [findable name' there]
        by_cases same : n' = n
        · subst same
          dsimp only
          rw [Function.update_self, lookup]
          split
          · next new => simp [new]
          · next old => simp [old]
        · simp [same]
      · intro ns' n' name' c' there stored
        apply registered there
        by_cases same : n' = n
        · subst same
          dsimp only at stored
          rw [Function.update_self, lookup] at stored
          split at stored
          · next new =>
              cases stored
              exact .inr ⟨rfl, rfl, new.2⟩
          · exact .inl stored
        · dsimp only at stored
          rw [Function.update_of_ne same] at stored
          exact .inl stored
      · intro n' key c' stored
        dsimp only at stored ⊢
        by_cases same : n' = n
        · rw [same, Function.update_self, Table.htGet_htSet] at stored
          split at stored
          · cases stored
            exact closed
          · exact describes.closed n key c' stored
        · rw [Function.update_of_ne same] at stored
          exact describes.closed n' key c' stored
  | some myclass =>
      obtain ⟨r', result, nsmap, namespaces, classmap, keeps⟩ :=
        Registry.listInsert_eq_ok (e := c) (describes.closed n name myclass present)
      refine ⟨r', result, Describes.of_eq ?_ nsmap namespaces classmap keeps⟩
      refine ⟨fun ns' => ?_, describes.allocated, describes.apart, ?_, ?_, describes.closed⟩
      · rw [installed]
        exact describes.installed ns'
      · intro ns' n' name' there
        rw [findable name' there]
        constructor
        · exact Or.inl
        · rintro (earlier | ⟨rfl, good, sameName⟩)
          · exact earlier
          · -- the cell that holds the list is found
            rw [← sameName]
            exact Table.lowcaseFind_isSome good (by rw [present]; rfl)
      · intro ns' n' name' c' there stored
        exact registered there (.inl stored)

end Describes

/-! ## Lookups -/

/-- The loop is left in its first turn, by one of its two exits. -/
theorem Registry.matchLoop_start (classmatch : Nat → Option (AttrList → Int)) (turns : Nat)
    (r : Registry) (attrs : AttrList) (ret : Nat) :
    matchLoop classmatch r attrs ret (turns + 1) (some ret) = .ok ret := by
  rw [matchLoop, if_pos rfl]
  split <;> rfl

section Lookups

variable {classmatch : Nat → Option (AttrList → Int)} {turns : Nat} {calls : List RegistryCall}
  {r : Registry} {name : Text} {ns : Option Text} {attrs : AttrList} {proto : Bool}

variable (classmatch turns) in
/-- A lookup that fits its buffers finds what is findable. -/
theorem Describes.objGetClass (describes : Describes calls r)
    (fits : (RegistryCall.objGetClass name ns attrs proto).Fits) :
    ∃ r' ptr, r.objGetClass classmatch turns name ns attrs proto = .ok (r', ptr) ∧
      Describes (calls ++ [.objGetClass name ns attrs proto]) r' ∧
      ((∃ c, ptr = .oclass c ∧ Registered calls name (ns.getD dflNamespaceName) c ∧
          Findable calls name (ns.getD dflNamespaceName)) ∨
        (ptr = if proto then .proto else .null) ∧
          ¬Findable calls name (ns.getD dflNamespaceName)) := by
  have isLookup : ∀ name' c ns', RegistryCall.objGetClass name ns attrs proto ≠
      .classRegisterNs name' c ns' := by
    rintro _ _ _ ⟨⟩
  obtain ⟨r', n, result, -, described, -, given⟩ :=
    @Describes.classGetNs calls r (.objGetClass name ns attrs proto) describes fits.1 isLookup
  have findable := @Describes.findable_lookup calls name _ isLookup (ns.getD dflNamespaceName)
  dsimp only [RegistryCall.nsname] at result given
  unfold Registry.objGetClass
  rw [result, ok_bind]
  dsimp only
  rw [Table.htLowcaseGet, if_neg (Nat.not_le.mpr fits.2), ok_bind]
  cases stored : (r'.classmap n).lowcaseFind (lowcase name) with
  | some ret =>
      have there : r'.nsmap.lowcaseFind (lowcase (ns.getD dflNamespaceName)) = some n := by
        rcases given with here | ⟨-, cleared⟩
        · exact here
        · rw [cleared, Table.lowcaseFind_empty] at stored
          cases stored
      refine ⟨r', .oclass ret, ?_, described, .inl ⟨ret, rfl, ?_, ?_⟩⟩
      · dsimp only
        rw [Registry.matchLoop_start, ok_bind]
      · have later := described.registered _ n name ret there stored
        rcases registered_concat.mp later with earlier | ⟨_, _, ⟨⟩, -⟩
        exact earlier
      · rw [← findable, ← described.findable _ n name there, stored]
        rfl
  | none =>
      refine ⟨r', _, rfl, described, .inr ⟨rfl, ?_⟩⟩
      rw [← findable]
      rcases given with there | ⟨absent, -⟩
      · rw [← described.findable _ n name there, stored]
        simp
      · rintro ⟨before, name', c, ns', behind, split, -, -, -, call, member, good, same⟩
        have installed : Installed (calls ++ [.objGetClass name ns attrs proto])
            (ns.getD dflNamespaceName) := by
          refine ⟨call, ?_, good, same⟩
          rw [split]
          rcases List.mem_append.mp member with member | member
          · exact List.mem_append_left _ member
          · rw [List.mem_singleton.mp member]
            simp
        rw [← described.installed, absent] at installed
        cases installed

/-- **A call keeps the tables described.** -/
theorem Describes.step {call : RegistryCall} (describes : Describes calls r) (fits : call.Fits) :
    ∃ r', call.step classmatch turns r = .ok r' ∧ Describes (calls ++ [call]) r' := by
  cases call with
  | objGetClass name ns attrs proto =>
      obtain ⟨r', ptr, result, described, -⟩ := describes.objGetClass classmatch turns fits
      refine ⟨r', ?_, described⟩
      rw [RegistryCall.step, result]
      rfl
  | classRegisterNs name c ns =>
      obtain ⟨r', n, result, next, described, mine, given⟩ :=
        @Describes.classGetNs calls (r.listInit c) (.objGetClass name ns [] false)
          (describes.listInit c) fits (by rintro _ _ _ ⟨⟩)
      dsimp only [RegistryCall.nsname] at result mine given
      have closed : (r'.next c).isSome := by
        rw [next]
        simp [Registry.listInit]
      obtain ⟨r'', stored, described⟩ := described.register rfl closed mine (given.imp id And.left)
      refine ⟨r'', ?_, described⟩
      rw [RegistryCall.step, Registry.classRegisterNs, result, ok_bind]
      exact stored

theorem htLowcaseGet_eq_ok {α : Type} {key : Text} {hashtable : Table α} {found : Option α}
    (result : hashtable.htLowcaseGet key = .ok found) : key.length < lowcaseBuf := by
  unfold Table.htLowcaseGet at result
  split at result
  · cases result
  · next fits => exact Nat.not_le.mp fits

/-- A call that does not fit its buffers writes behind their end. -/
theorem fits_of_step {call : RegistryCall} {r' : Registry}
    (result : call.step classmatch turns r = .ok r') : call.Fits := by
  cases call with
  | classRegisterNs name c ns =>
      obtain ⟨looked, first, -⟩ := bind_eq_ok_iff.mp result
      obtain ⟨found, get, -⟩ := bind_eq_ok_iff.mp first
      exact htLowcaseGet_eq_ok get
  | objGetClass name ns attrs proto =>
      obtain ⟨value, result, -⟩ := map_eq_ok_iff.mp result
      obtain ⟨looked, first, second⟩ := bind_eq_ok_iff.mp result
      obtain ⟨found, get, -⟩ := bind_eq_ok_iff.mp first
      obtain ⟨found', get', -⟩ := bind_eq_ok_iff.mp second
      constructor
      · exact htLowcaseGet_eq_ok get
      · exact htLowcaseGet_eq_ok get'

variable (classmatch turns) in
/-- **Every sequence of calls** that fit their buffers leaves the tables described. -/
theorem describes_of_run (fits : ∀ call ∈ calls, call.Fits) :
    ∃ r, run (RegistryCall.step classmatch turns) .empty calls = .ok r ∧ Describes calls r := by
  induction calls using List.reverseRecOn with
  | nil => exact ⟨.empty, rfl, .empty⟩
  | append_singleton before call ih =>
      rw [List.forall_mem_append] at fits
      obtain ⟨r, result, describes⟩ := ih fits.1
      obtain ⟨r', last, described⟩ := describes.step (fits.2 call (by simp))
      refine ⟨r', ?_, described⟩
      rw [run_concat, result, ok_bind, last]

theorem fits_of_run {r' : Registry}
    (result : run (RegistryCall.step classmatch turns) r calls = .ok r') :
    ∀ call ∈ calls, call.Fits := by
  induction calls generalizing r with
  | nil => simp
  | cons call rest ih =>
      rw [run_cons] at result
      obtain ⟨middle, first, later⟩ := bind_eq_ok_iff.mp result
      rw [List.forall_mem_cons]
      exact ⟨fits_of_step first, ih later⟩

/-! ## The registry is a map up to letter case -/

variable (classmatch turns calls name ns attrs) in
/-- After the calls, looking up a name in a namespace returns a class that one of them
registered, and NULL if there is none. -/
def LooksUp : Prop :=
  ∃ r r' ptr, run (RegistryCall.step classmatch turns) .empty calls = .ok r ∧
    r.objGetClass classmatch turns name ns attrs false = .ok (r', ptr) ∧
    ((∃ c, ptr = .oclass c ∧ Registered calls name (ns.getD dflNamespaceName) c) ∨
      ptr = .null ∧ ¬∃ c, Registered calls name (ns.getD dflNamespaceName) c)

/-- **The registry is a map up to letter case** for the names and namespaces that are
written as lookups hash them.  A namespace that is first written otherwise is installed
where no lookup goes, and so is a class in it; the buffers hold shorter names than
`lowcaseBuf` only. -/
theorem looksUp_iff_findable : LooksUp classmatch turns calls name ns attrs ↔
    (∀ call ∈ calls, call.Fits) ∧ (RegistryCall.objGetClass name ns attrs false).Fits ∧
      ((∃ c, Registered calls name (ns.getD dflNamespaceName) c) →
        Findable calls name (ns.getD dflNamespaceName)) := by
  constructor
  · rintro ⟨r, r', ptr, result, lookup, answer⟩
    have fits := fits_of_run result
    have fitsHere : (RegistryCall.objGetClass name ns attrs false).Fits := by
      have step : RegistryCall.step classmatch turns r (.objGetClass name ns attrs false) =
          .ok r' := by
        rw [RegistryCall.step, lookup]
        rfl
      exact fits_of_step step
    refine ⟨fits, fitsHere, fun registered => ?_⟩
    obtain ⟨_, reached, describes⟩ := describes_of_run classmatch turns fits
    cases result.symm.trans reached
    obtain ⟨_, _, looked, -, found⟩ := describes.objGetClass classmatch turns fitsHere
    cases lookup.symm.trans looked
    rcases found with ⟨c, rfl, -, findable⟩ | ⟨null, -⟩
    · exact findable
    · rcases answer with ⟨c, isClass, -⟩ | ⟨-, missing⟩
      · rw [null] at isClass
        cases isClass
      · exact absurd registered missing
  · rintro ⟨fits, fitsHere, findable⟩
    obtain ⟨r, result, describes⟩ := describes_of_run classmatch turns fits
    obtain ⟨r', ptr, lookup, -, found⟩ := describes.objGetClass classmatch turns fitsHere
    refine ⟨r, r', ptr, result, lookup, ?_⟩
    rcases found with ⟨c, same, registered, -⟩ | ⟨null, missing⟩
    · exact .inl ⟨c, same, registered⟩
    · exact .inr ⟨null, fun registered => missing (findable registered)⟩

/-- A class whose name ends in a capital letter is not found under that name. -/
theorem not_looksUp_capital :
    ¬LooksUp (fun _ => none) 0 [.classRegisterNs (lit "TLS") 0 none] (lit "TLS") none [] := by
  rintro ⟨r, r', ptr, result, lookup, answer⟩
  have computed : (run (RegistryCall.step (fun _ => none) 0) .empty
      [.classRegisterNs (lit "TLS") 0 none] >>= fun r =>
        (r.objGetClass (fun _ => none) 0 (lit "TLS") none [] false).map Prod.snd) =
      .ok .null := by
    decide +kernel
  rw [result, ok_bind, lookup] at computed
  cases computed
  rcases answer with ⟨c, null, -⟩ | ⟨-, missing⟩
  · cases null
  · exact missing ⟨0, lit "TLS", none, by simp, rfl, rfl⟩

end Lookups

end Xwbot
