import Xwbot.Bus.Core
import Xwbot.Parser.Reading
import Xwbot.Registry

/-!
# The lookup of an element's class

`ht_lowcase_get` copies its key to a buffer of 512 bytes.  The bus looks up the class of a new
element with the name and the namespace that the server has sent, and nothing on the way from the
socket to the registry bounds their lengths.
-/

namespace Xwbot

open Xwbot.Parser

variable {α : Type}

/-- The loop of `ht_lowcase_get`, which writes to `buf` from `i` on, and the NUL behind it. -/
def lowcaseLoop : Text → Nat → List Byte → Except Fault (List Byte)
  | [], i, buf => if i < buf.length then .ok (buf.set i 0) else .error .overflow
  | c :: key, i, buf =>
      if i < buf.length then lowcaseLoop key (i + 1) (buf.set i (toLower c)) else .error .overflow

/-- `ht_lowcase_get` with a buffer of some size. -/
def Table.lowcaseGetIn (size : Nat) (key : Text) (hashtable : Table α) :
    Except Fault (Option α) := do
  let buf ← lowcaseLoop key 0 (List.replicate size 0)
  .ok (hashtable.lowcaseFind (buf.takeWhile (· ≠ 0)))

/-- The copy, and the places that it leaves alone. -/
theorem lowcaseLoop_eq {key : Text} {i : Nat} {buf : List Byte} :
    lowcaseLoop key i buf =
      if i + key.length < buf.length then
        .ok (buf.take i ++ (lowcase key ++ 0 :: buf.drop (i + key.length + 1)))
      else .error .overflow := by
  induction key generalizing i buf with
  | nil =>
      rw [lowcaseLoop, List.length_nil, Nat.add_zero]
      split
      · next inside => rw [List.set_eq_take_append_cons_drop, if_pos inside, lowcase, List.map_nil,
          List.nil_append]
      · rfl
  | cons c key ih =>
      rw [lowcaseLoop, List.length_cons]
      by_cases inside : i < buf.length
      · rw [if_pos inside, ih, List.length_set]
        have places : i + 1 + key.length = i + (key.length + 1) := by omega
        rw [places]
        split
        · have front : (buf.set i (toLower c)).take (i + 1) = buf.take i ++ [toLower c] := by
            rw [List.take_add_one, List.take_set_of_le (Nat.le_refl i),
              List.getElem?_set_self inside,
              Option.toList_some]
          have behind : (buf.set i (toLower c)).drop (i + (key.length + 1) + 1) =
              buf.drop (i + (key.length + 1) + 1) := List.drop_set_of_lt (by omega)
          rw [front, behind, List.append_assoc]
          rfl
        · rfl
      · rw [if_neg inside, if_neg (by omega)]

/-- **Spec of `ht_lowcase_get`** with a buffer of some size. -/
theorem Table.lowcaseGetIn_eq {size : Nat} {key : Text} {hashtable : Table α} :
    hashtable.lowcaseGetIn size key =
      if key.length < size then .ok (hashtable.lowcaseFind ((lowcase key).takeWhile (· ≠ 0)))
      else .error .overflow := by
  rw [lowcaseGetIn, lowcaseLoop_eq, List.length_replicate, Nat.zero_add]
  split
  · rw [ok_bind, List.take_zero, List.nil_append, List.takeWhile_append]
    split
    · rw [List.takeWhile_cons_of_neg (by simp), List.append_nil]
      next whole => rw [(List.takeWhile_prefix _).eq_of_length whole]
    · rfl
  · rfl

/-- With the buffer of the source it is the lookup that the registry does. -/
theorem Table.lowcaseGetIn_lowcaseBuf {key : Text} (noNul : 0 ∉ key) (hashtable : Table α) :
    hashtable.lowcaseGetIn lowcaseBuf key = hashtable.htLowcaseGet key := by
  have nonzero : ∀ c : Byte, toLower c = 0 → c = 0 := by decide +kernel
  have whole : (lowcase key).takeWhile (· ≠ 0) = lowcase key := by
    rw [List.takeWhile_eq_self_iff]
    intro c member
    rcases List.mem_map.mp member with ⟨d, inside, rfl⟩
    have other : toLower d ≠ 0 := fun zero => noNul (nonzero d zero ▸ inside)
    simpa using other
  rw [lowcaseGetIn_eq, htLowcaseGet, whole]
  by_cases fits : key.length < lowcaseBuf
  · rw [if_pos fits, if_neg (Nat.not_le.mpr fits)]
  · rw [if_neg fits, if_pos (Nat.not_lt.mp fits)]

namespace Registry

variable {classmatch : Nat → Option (AttrList → Int)} {turns : Nat} {r : Registry}
  {name ns : Text} {attrs : AttrList} {size : Text → Nat}

/-- `x_class_get_ns` with a buffer for each key. -/
def classGetNsIn (size : Text → Nat) (r : Registry) (nsname : Text) :
    Except Fault (Registry × Nat) := do
  let ns ← r.nsmap.lowcaseGetIn (size nsname) nsname
  match ns with
  | some ns => .ok (r, ns)
  | none => .ok (r.newNs nsname, r.namespaces)

/-- `x_obj_get_class`, as the bus calls it, with a buffer for each key. -/
def objGetClassIn (size : Text → Nat) (classmatch : Nat → Option (AttrList → Int)) (turns : Nat)
    (r : Registry) (name ns : Text) (attrs : AttrList) : Except Fault (Registry × ClassPtr) := do
  let (r, ns) ← r.classGetNsIn size ns
  let ret ← (r.classmap ns).lowcaseGetIn (size name) name
  match ret with
  | some ret => do
      let ret ← matchLoop classmatch r attrs ret (turns + 1) (some ret)
      .ok (r, .oclass ret)
  | none => .ok (r, .proto)

/-- With the buffers of the source it is `x_obj_get_class`. -/
theorem objGetClassIn_lowcaseBuf (noNul : 0 ∉ name) (noNulNs : 0 ∉ ns) :
    r.objGetClassIn (fun _ => lowcaseBuf) classmatch turns name ns attrs =
      r.objGetClass classmatch turns name (some ns) attrs true := by
  have namespaces : r.classGetNsIn (fun _ => lowcaseBuf) ns = r.classGetNs ns :=
    congrArg (· >>= _) (Table.lowcaseGetIn_lowcaseBuf noNulNs r.nsmap)
  unfold objGetClassIn objGetClass
  rewrite [namespaces]
  apply bind_congr
  rintro ⟨r', found⟩
  exact congrArg (· >>= _) (Table.lowcaseGetIn_lowcaseBuf noNul (r'.classmap found))

/-- **Buffers that are large enough** all give the same result. -/
theorem objGetClassIn_of_fits (fits : name.length < size name) (fitsNs : ns.length < size ns) :
    r.objGetClassIn size classmatch turns name ns attrs =
      r.objGetClassIn (fun key => key.length + 1) classmatch turns name ns attrs := by
  simp only [objGetClassIn, classGetNsIn, Table.lowcaseGetIn_eq, fits, fitsNs, Nat.lt_succ_self,
    if_true]

variable (classmatch turns r name ns attrs) in
/-- A lookup with such buffers returns. -/
theorem objGetClassIn_eq_ok : ∃ result,
    r.objGetClassIn (fun key => key.length + 1) classmatch turns name ns attrs = .ok result := by
  simp only [objGetClassIn, classGetNsIn, Table.lowcaseGetIn_eq, Nat.lt_succ_self, if_true, ok_bind]
  cases r.nsmap.lowcaseFind ((lowcase ns).takeWhile (· ≠ 0)) with
  | none =>
      dsimp only [ok_bind]
      split
      · rw [matchLoop_start]
        exact ⟨_, rfl⟩
      · exact ⟨_, rfl⟩
  | some n =>
      dsimp only [ok_bind]
      split
      · rw [matchLoop_start]
        exact ⟨_, rfl⟩
      · exact ⟨_, rfl⟩

/-- A lookup that returns has kept to its buffers. -/
theorem fits_of_objGetClassIn {result : Registry × ClassPtr}
    (found : r.objGetClassIn size classmatch turns name ns attrs = .ok result) :
    name.length < size name ∧ ns.length < size ns := by
  rcases bind_eq_ok_iff.mp found with ⟨looked, first, second⟩
  rcases bind_eq_ok_iff.mp first with ⟨_, get, -⟩
  rcases bind_eq_ok_iff.mp second with ⟨_, get', -⟩
  rw [Table.lowcaseGetIn_eq] at get get'
  constructor
  · by_contra large
    rw [if_neg large] at get'
    cases get'
  · by_contra large
    rw [if_neg large] at get
    cases get

end Registry

/-! ## The elements of the server -/

namespace Env

variable (env : Env)

/-- The name and the namespace with which `__x_bus_objopen` looks up the class of an element, if it
does not find an object to go on with. -/
def classKeys (b : Bus) (name : Text) (attrs : AttrList) : Except Fault (Option (Text × Text)) := do
  let q := QName.split name
  let declared := b.declare q attrs
  let ns ← declared.1.namespaceOf q declared.2
  let ns ← cutNamespace ns
  let start ← declared.1.heap.getChild declared.1.rObj q.name
  let found ← env.objectFind declared.1.heap start declared.2
  match found, q.name with
  | none, some name => .ok (some (objectName name, ns))
  | _, _ => .ok none

/-- The lookup for an element stays within its buffers, and buffers without a bound would not
change its result. -/
def LooksUpWithin (classmatch : Nat → Option (AttrList → Int)) (turns : Nat) (r : Registry)
    (b : Bus) (name : Text) (attrs : AttrList) : Prop :=
  ∀ cname ns, env.classKeys b name attrs = .ok (some (cname, ns)) →
    ∃ result,
      r.objGetClassIn (fun _ => lowcaseBuf) classmatch turns cname ns
          (b.declare (QName.split name) attrs).2 = .ok result ∧
        r.objGetClassIn (fun key => key.length + 1) classmatch turns cname ns
          (b.declare (QName.split name) attrs).2 = .ok result

variable {env} {classmatch : Nat → Option (AttrList → Int)} {turns : Nat} {r : Registry} {b : Bus}
  {name cname ns : Text} {attrs : AttrList}

/-- **The lookup of an element's class** is within its buffers exactly when the name and the
namespace are shorter than they are. -/
theorem looksUpWithin_iff : env.LooksUpWithin classmatch turns r b name attrs ↔
    ∀ cname ns, env.classKeys b name attrs = .ok (some (cname, ns)) →
      cname.length < lowcaseBuf ∧ ns.length < lowcaseBuf := by
  apply forall₂_congr
  intro cname ns
  apply imp_congr_right
  intro _
  constructor
  · rintro ⟨result, bounded, -⟩
    exact Registry.fits_of_objGetClassIn bounded
  · rintro ⟨fits, fitsNs⟩
    rcases Registry.objGetClassIn_eq_ok classmatch turns r cname ns
      (b.declare (QName.split name) attrs).2 with ⟨result, unbounded⟩
    refine ⟨result, ?_, unbounded⟩
    rw [Registry.objGetClassIn_of_fits fits fitsNs, unbounded]

/-- An element whose class is looked up is opened by this lookup. -/
theorem objopen_of_classKeys {p : PushParser}
    (keys : env.classKeys b name p.attrs = .ok (some (cname, ns)))
    (large : ¬(cname.length < lowcaseBuf ∧ ns.length < lowcaseBuf)) :
    env.objopen (some name) (p, b) = .error .overflow := by
  rcases bind_eq_ok_iff.mp keys with ⟨ns₁, namespaceOf_eq, keys⟩
  rcases bind_eq_ok_iff.mp keys with ⟨ns₂, cut_eq, keys⟩
  rcases bind_eq_ok_iff.mp keys with ⟨start, start_eq, keys⟩
  rcases bind_eq_ok_iff.mp keys with ⟨found, found_eq, keys⟩
  cases found with
  | some o => cases keys
  | none =>
      cases name_eq : (QName.split name).name with
      | none =>
          rw [name_eq] at keys
          cases keys
      | some given =>
          rw [name_eq] at keys start_eq
          cases keys
          have outside : lowcaseBuf ≤ ns.length ∨ lowcaseBuf ≤ (objectName given).length := by
            omega
          have fails : env.newNsMatch (b.declare (QName.split name) p.attrs).1 given ns
              (b.declare (QName.split name) p.attrs).2 = .error .overflow := if_pos outside
          simp only [objopen, openElement, namespaceOf_eq, cut_eq, start_eq, found_eq, ok_bind,
            name_eq, instantiate, fails]
          rfl

/-- The bytes of a start tag with a name of any length get there. -/
theorem run_startTag_overflow {m : Memory} {p : PushParser} (ready : Ready p) (t : Tag)
    (keys : ∀ q, TagHead m p t q → ∃ cname ns,
      env.classKeys b t.name.text q.attrs = .ok (some (cname, ns)) ∧
        ¬(cname.length < lowcaseBuf ∧ ns.length < lowcaseBuf)) :
    Runs.run (env.step m) (p, b) (Markup.startTag t).render = .error .overflow := by
  rcases feed_startTag m ready.waiting t with ⟨q, head, reads⟩
  have read := reads Bus (env.callbacks m) b []
  rw [List.append_nil, feed_callbacks] at read
  rcases keys q head with ⟨cname, ns, found, large⟩
  rw [read]
  change (env.objopen (some t.name.text) (q, b) >>= _) = _
  rw [objopen_of_classKeys found large]
  rfl

/-- An element with a name of 512 bytes. -/
theorem not_looksUpWithin_long :
    ¬(coreEnv fun _ => ⟨false, 0⟩).LooksUpWithin (fun _ => none) 0 .empty newBus
      (List.replicate 512 (ch 'a')) [(xmlns, lit "u")] := by
  rw [looksUpWithin_iff]
  intro within
  have keys : (coreEnv fun _ => ⟨false, 0⟩).classKeys newBus (List.replicate 512 (ch 'a'))
      [(xmlns, lit "u")] = .ok (some (List.replicate 512 (ch 'a'), lit "u")) := by
    decide +kernel
  have fits := within _ _ keys
  rw [List.length_replicate] at fits
  exact absurd fits.1 (Nat.lt_irrefl _)

end Env

end Xwbot
