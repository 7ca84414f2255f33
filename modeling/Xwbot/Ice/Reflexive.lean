import Xwbot.Ice.Addresses
import Xwbot.Ice.Checks

/-!
# Candidates that a STUN server saw

A response that carries a mapped address adds a local candidate, unless one with this address is
found among those that are there.  The scan holds a reference of the candidate that it looks at
and gives it back when it goes on, but not when it stops: every repeated response leaves one
behind.
-/

namespace Xwbot.Ice

open Runs IoStream

variable {p : Platform} {ice ice' : IoStream} {out : List Output} {a b : SockAddr} {c : Child}
  {children : List Child} {refs refs' : Nat → Nat} {r : Received}

/-! ## The branch with the counts -/

/-- A stream, and the reference counts of its children. -/
structure Counted where
  ice : IoStream
  refs : Nat → Nat

/-- `_REFGET` of the child at a place. -/
def refGetAt (i : Nat) (refs : Nat → Nat) : Nat → Nat :=
  Function.update refs i (refs i + 1)

/-- `_REFPUT` of the child at a place; the last reference destroys it. -/
def refPutAt (i : Nat) (refs : Nat → Nat) : Except Fault (Nat → Nat) :=
  if refs i ≤ 1 then .error .freed else .ok (Function.update refs i (refs i - 1))

/-- The texts of a child are those of an address. -/
def hasAddress (a : SockAddr) (o1 : Child) : Bool :=
  match (getattr (lit "ip") o1.attrs).or (getattr (lit "address") o1.attrs),
    getattr (lit "port") o1.attrs with
  | some a1, some a2 => eqText a1 (inetNtop a.addr) && eqText a2 (decimal a.port.toNat)
  | _, _ => false

/-- The children that the scan comes to, with their places. -/
def scanned (children : List Child) : List (Child × Nat) :=
  match getChild children (lit "local-candidate") with
  | none => []
  | some start => match children[start]? with
    | none => []
    | some child => (children.zipIdx.drop start).filter fun later => later.1.chain = child.chain

/-- The scan for a candidate with the same attributes. -/
def scanLocals (a : SockAddr) : List (Child × Nat) → (Nat → Nat) → Except Fault (Bool × (Nat → Nat))
  | [], refs => .ok (false, refs)
  | (o1, i) :: rest, refs =>
      if hasAddress a o1 then .ok (true, refGetAt i refs)
      else do
        let refs ← refPutAt i (refGetAt i refs)
        scanLocals a rest refs

/-- The end of the branch for responses.  A new child is referenced by its creator and by its
parent. -/
def addMappedCounted (p : Platform) (s : Counted) (mapped : Option SockAddr) :
    Except Fault Counted :=
  match mapped with
  | none => .ok s
  | some mapped => do
      let (known, refs) ← scanLocals mapped (scanned s.ice.children) s.refs
      if known then .ok { s with refs := refs }
      else do
        let (ice, _) ← appendChild p s.ice (lit "local-candidate") (srflxAttrs mapped)
        .ok ⟨ice, Function.update refs s.ice.children.length 2⟩

/-- The branch of `__on_packet_in` for responses. -/
def onResponseCounted (p : Platform) (s : Counted) (r : Received) : Except Fault Counted := do
  let ice := if hasCookie r.buf then succeedPair s.ice r.peer else s.ice
  let pkt ← stunPacketFromHdr p.hmac p.crcTab r.buf none
  let mapped ← mappedAddress pkt.attrs
  addMappedCounted p ⟨ice, s.refs⟩ mapped

/-! ## What the scan does -/

theorem knowsLocal_eq_any : knowsLocal children (inetNtop a.addr) (decimal a.port.toNat) =
    (scanned children).any fun later => hasAddress a later.1 := by
  unfold knowsLocal scanned
  cases getChild children (lit "local-candidate") with
  | none => rfl
  | some start =>
      simp only
      unfold chainFrom
      cases children[start]? with
      | none => rfl
      | some child =>
          simp only
          have places : children.drop start = (children.zipIdx.drop start).map Prod.fst := by
            rw [List.map_drop, List.zipIdx_map_fst]
          rw [places, List.filter_map, List.any_map]
          rfl

theorem lt_of_mem_scanned {later : Child × Nat} (member : later ∈ scanned children) :
    later.1 ∈ children ∧ later.2 < children.length := by
  unfold scanned at member
  split at member
  · cases member
  · split at member
    · cases member
    · have inside := List.mem_of_mem_drop (List.mem_of_mem_filter member)
      rw [List.mem_zipIdx_iff_getElem?] at inside
      exact ⟨List.mem_of_getElem? inside, (List.getElem?_eq_some_iff.mp inside).1⟩

/-- **The scan** gives back all references but that of the child it stops at. -/
theorem scanLocals_eq (alive : ∀ i, 0 < refs i) (places : List (Child × Nat)) :
    scanLocals a places refs = match places.find? fun later => hasAddress a later.1 with
      | none => .ok (false, refs)
      | some later => .ok (true, refGetAt later.2 refs) := by
  induction places with
  | nil => rfl
  | cons later rest ih =>
      rcases later with ⟨o1, i⟩
      rw [scanLocals]
      cases same : hasAddress a o1 with
      | true => rw [if_pos rfl, List.find?_cons_of_pos (by exact same)]
      | false =>
          have back : refPutAt i (refGetAt i refs) = .ok refs := by
            have count := alive i
            rw [refPutAt, refGetAt, Function.update_self, if_neg (by omega), Function.update_idem,
              Nat.add_sub_cancel, Function.update_eq_self]
          rw [if_neg Bool.false_ne_true, back, ok_bind, List.find?_cons_of_neg (by simp [same]), ih]

/-- Without the counts it is the branch of before. -/
theorem onResponseCounted_map (alive : ∀ i, 0 < refs i) :
    (onResponseCounted p ⟨ice, refs⟩ r).map Counted.ice =
      (onResponse p ice r).map Prod.fst := by
  unfold onResponseCounted onResponse
  cases stunPacketFromHdr p.hmac p.crcTab r.buf none with
  | error fault => rfl
  | ok pkt =>
      simp only [ok_bind]
      cases mappedAddress pkt.attrs with
      | error fault => rfl
      | ok mapped =>
          simp only [ok_bind]
          generalize (if hasCookie r.buf then succeedPair ice r.peer else ice) = start
          cases mapped with
          | none => rfl
          | some mapped =>
              simp only [addMappedCounted, addMapped, scanLocals_eq alive, knowsLocal_eq_any]
              cases found : (scanned start.children).find? fun later =>
                hasAddress mapped later.1 with
              | none =>
                  have unknown : ((scanned start.children).any fun later =>
                      hasAddress mapped later.1) = false := by
                    rw [List.any_eq_false]
                    exact List.find?_eq_none.mp found
                  rw [unknown]
                  simp only [ok_bind, Bool.false_eq_true, if_false]
                  cases appendChild p start (lit "local-candidate") (srflxAttrs mapped) with
                  | error fault => rfl
                  | ok result => rfl
              | some later =>
                  have known : ((scanned start.children).any fun later =>
                      hasAddress mapped later.1) = true := by
                    rw [List.any_eq_true]
                    exact ⟨later, List.mem_of_find?_eq_some found, List.find?_some
                      (p := fun later : Child × Nat => hasAddress mapped later.1) found⟩
                  rw [known]
                  rfl

/-- What the handler of datagrams makes of a response. -/
theorem onResponseCounted_map_eq_onPacketIn (alive : ∀ i, 0 < refs i)
    (response : be16 r.buf.bytes 0 = stunResp) {flags : UInt32} :
    (onResponseCounted p ⟨ice, refs⟩ r).map Counted.ice =
      (onPacketIn p ice flags r).map Prod.fst := by
  have notReq : be16 r.buf.bytes 0 ≠ stunReq := by
    rw [response]
    decide
  rw [onResponseCounted_map alive, onPacketIn_eq, if_neg notReq, if_pos response]

/-! ## Addresses in texts -/

theorem map_toLower_decimal (n : Nat) : (decimal n).map toLower = decimal n := by
  have fixed : ∀ c : Byte, isDigit c = true → toLower c = c := by decide +kernel
  calc (decimal n).map toLower = (decimal n).map id := List.map_congr_left fun c member =>
        fixed c ((isNumber_decimal n).2.1 c member)
    _ = decimal n := List.map_id _

theorem map_toLower_inetNtop (addr : UInt32) : (inetNtop addr).map toLower = inetNtop addr := by
  simp only [inetNtop, List.map_append, map_toLower_decimal]
  rfl

/-- The texts of a child are those of one address. -/
theorem hasAddress_unique (first : hasAddress a c = true) (second : hasAddress b c = true) :
    a = b := by
  unfold hasAddress at first second
  split at first
  · next a1 a2 ip port =>
      rw [ip, port] at second
      simp only [eqText, Bool.and_eq_true, decide_eq_true_eq] at first second
      have addr : inetNtop a.addr = inetNtop b.addr := by
        rw [← map_toLower_inetNtop, ← first.1, second.1, map_toLower_inetNtop]
      have number : decimal a.port.toNat = decimal b.port.toNat := by
        rw [← map_toLower_decimal, ← first.2, second.2, map_toLower_decimal]
      have sameAddr := congrArg xInetAton addr
      rw [xInetAton_inetNtop, xInetAton_inetNtop] at sameAddr
      have samePort := congrArg atoi number
      rw [atoi_decimal, atoi_decimal] at samePort
      rcases a with ⟨aport, aaddr⟩
      rcases b with ⟨bport, baddr⟩
      rw [SockAddr.mk.injEq]
      exact ⟨UInt16.toNat_inj.mp (by exact_mod_cast samePort), Option.some.inj sameAddr⟩
  · cases first

theorem getattr_srflxAttrs (a : SockAddr) :
    getattr (lit "ip") (srflxAttrs a) = some (inetNtop a.addr) ∧
      getattr (lit "port") (srflxAttrs a) = some (decimal a.port.toNat) := by
  constructor
  · exact (getattr_assigned _ _ _).trans rfl
  · exact (getattr_assigned _ _ _).trans rfl

/-- The attributes of a new candidate are those of its address. -/
theorem hasAddress_srflx (a : SockAddr) (name : Text) (chain : Nat) :
    hasAddress a ⟨name, srflxAttrs a, chain⟩ = true := by
  rcases getattr_srflxAttrs a with ⟨ip, port⟩
  unfold hasAddress
  rw [ip, port, Option.some_or]
  simp only [eqText_refl, Bool.and_self]

theorem hasAddress_setId {id : Text} :
    hasAddress a { c with attrs := setattr (lit "id") (some id) c.attrs } = hasAddress a c := by
  have ip : lit "ip" ≠ lit "id" := by decide
  have address : lit "address" ≠ lit "id" := by decide
  have port : lit "port" ≠ lit "id" := by decide
  simp only [hasAddress, getattr_setattr, if_neg ip, if_neg address, if_neg port]

/-! ## The new child -/

theorem modify_last {f : Child → Child} :
    (children ++ [c]).modify ((children ++ [c]).length - 1) f = children ++ [f c] := by
  rw [List.length_append, List.length_singleton, Nat.add_sub_cancel, List.modify_eq_take_drop,
    List.take_left, List.drop_left]
  rfl

/-- A child that is appended as a local candidate comes behind the others, and no more than its
identifier is set. -/
theorem children_appendChild {attrs : AttrList}
    (result : appendChild p ice (lit "local-candidate") attrs = .ok (ice', out)) :
    ∃ child, ice'.children = ice.children ++ [child] ∧ child.name = lit "local-candidate" ∧
      ∀ a, hasAddress a child = hasAddress a { child with attrs := attrs } := by
  have linked : ∃ chain, (ice.linkChild (lit "local-candidate") attrs).children =
      ice.children ++ [⟨lit "local-candidate", attrs, chain⟩] := ⟨_, rfl⟩
  rcases linked with ⟨chain, linked⟩
  unfold appendChild onChildAppend at result
  rw [if_pos (eqText_refl _)] at result
  rcases onLocalCandidate_eq_ok_iff.mp result with
    ⟨-, rfl, -⟩ | ⟨addr, -, middle, inserted, rfl, -⟩
  · exact ⟨_, linked, rfl, fun a => rfl⟩
  · have kept : middle.children = (ice.linkChild (lit "local-candidate") attrs).children := by
      rcases insertLocalCandidate_eq_ok_iff.mp inserted with
        ⟨-, rfl⟩ | ⟨-, locals, cPairs, -, -, rfl⟩
      · rfl
      · rfl
    refine ⟨?child, ?placed, ?named, ?texts⟩
    case placed =>
      rw [kept, linked]
      exact modify_last
    case named => rfl
    case texts => exact fun a => hasAddress_setId

/-- What is left of the stream when a response comes to its mapped address. -/
theorem addMappedCounted_cases (alive : ∀ i, 0 < refs i) {s' : Counted}
    (result : addMappedCounted p ⟨ice, refs⟩ (some a) = .ok s') :
    (∃ later ∈ scanned ice.children, hasAddress a later.1 = true ∧
      s' = ⟨ice, refGetAt later.2 refs⟩) ∨
    (∀ later ∈ scanned ice.children, hasAddress a later.1 = false) ∧
      ∃ ice' out, appendChild p ice (lit "local-candidate") (srflxAttrs a) = .ok (ice', out) ∧
        s' = ⟨ice', Function.update refs ice.children.length 2⟩ := by
  simp only [addMappedCounted, scanLocals_eq alive] at result
  cases found : (scanned ice.children).find? fun later => hasAddress a later.1 with
  | some later =>
      rw [found] at result
      simp only [ok_bind, if_true] at result
      cases result
      exact .inl ⟨later, List.mem_of_find?_eq_some found,
        List.find?_some (p := fun later : Child × Nat => hasAddress a later.1) found, rfl⟩
  | none =>
      rw [found] at result
      simp only [ok_bind, Bool.false_eq_true, if_false] at result
      rcases bind_eq_ok_iff.mp result with ⟨⟨ice', out⟩, appended, same⟩
      cases same
      refine .inr ⟨fun later member => ?_, ice', out, appended, rfl⟩
      have other := List.find?_eq_none.mp found later member
      exact Bool.eq_false_iff.mpr other

/-! ## Responses -/

/-- The address that a value of eight bytes or more says. -/
def addressIn (attr : StunAttr) : SockAddr :=
  ⟨(be16 attr.data 2).toUInt16, (be16 attr.data 4 * 65536 + be16 attr.data 6).toUInt32⟩

/-- What the first mapped address of eight bytes or more says. -/
def carriedAddress (attrs : List StunAttr) : Option SockAddr :=
  (attrs.find? fun attr => attr.type = stunMappedAddress && 8 ≤ attr.data.length).map addressIn

/-- The address that a response carries. -/
def carriedBy (p : Platform) (r : Received) : Option SockAddr :=
  match stunPacketFromHdr p.hmac p.crcTab r.buf none with
  | .ok pkt => carriedAddress pkt.attrs
  | .error _ => none

/-- The child is a local candidate with an address. -/
def isLocalFor (a : SockAddr) (child : Child) : Bool :=
  eqText (lit "local-candidate") child.name && hasAddress a child

/-- A stream and the addresses that its responses carried. -/
structure Gathered where
  counted : Counted
  carried : List SockAddr

/-- One response. -/
def receive (p : Platform) (g : Gathered) (r : Received) : Except Fault Gathered := do
  let counted ← onResponseCounted p g.counted r
  .ok ⟨counted, g.carried ++ (carriedBy p r).toList⟩

/-- What a response is to leave: one local candidate for every address so far, nothing new without
an address, and the references of the children that were there. -/
structure Adds (p : Platform) (g : Gathered) (r : Received) (s' : Counted) : Prop where
  once : ∀ a ∈ g.carried ++ (carriedBy p r).toList, s'.ice.children.countP (isLocalFor a) = 1
  nothing : carriedBy p r = none → s'.ice.children = g.counted.ice.children
  kept : ∀ i < g.counted.ice.children.length, s'.refs i = g.counted.refs i

/-- The response is taken, and leaves what it is to leave. -/
def AddedOnce (p : Platform) (g : Gathered) (r : Received) : Prop :=
  ∃ s', onResponseCounted p g.counted r = .ok s' ∧ Adds p g r s'

/-- No local candidate has the address, and the scan finds none. -/
def Unknown (ice : IoStream) (a : SockAddr) : Prop :=
  (∀ child ∈ ice.children, isLocalFor a child = false) ∧
    ∀ later ∈ scanned ice.children, hasAddress a later.1 = false

/-- The response can be parsed, and its mapped address, if it has one, is long enough, new, and
finds room for its pairs. -/
def FreshResponse (p : Platform) (ice : IoStream) (r : Received) : Prop :=
  ∃ l, Parsable r.buf none l ∧
    ∀ attr, stunAttrId (l.map Prod.snd) stunMappedAddress = some attr →
      8 ≤ attr.data.length ∧ Unknown ice (addressIn attr) ∧
        Insertable p ice (lit "local-candidate") (srflxAttrs (addressIn attr))

theorem mappedAddress_eq_ok_iff {attrs : List StunAttr} {mapped : Option SockAddr} :
    mappedAddress attrs = .ok mapped ↔
      stunAttrId attrs stunMappedAddress = none ∧ mapped = none ∨
        ∃ attr, stunAttrId attrs stunMappedAddress = some attr ∧ 8 ≤ attr.data.length ∧
          mapped = some (addressIn attr) := by
  unfold mappedAddress
  cases stunAttrId attrs stunMappedAddress with
  | none => simp [eq_comm]
  | some attr =>
      simp only [Option.some.injEq, exists_eq_left', reduceCtorEq, false_and, false_or]
      constructor
      · intro result
        rcases bind_eq_ok_iff.mp result with ⟨portnum, portRead, result⟩
        rcases bind_eq_ok_iff.mp result with ⟨high, highRead, result⟩
        rcases bind_eq_ok_iff.mp result with ⟨low, lowRead, same⟩
        rcases readU16_eq_ok_iff.mp portRead with ⟨-, rfl⟩
        rcases readU16_eq_ok_iff.mp highRead with ⟨-, rfl⟩
        rcases readU16_eq_ok_iff.mp lowRead with ⟨long, rfl⟩
        cases same
        exact ⟨long, rfl⟩
      · rintro ⟨long, rfl⟩
        have read : ∀ i, i + 2 ≤ 8 → readU16 attr.data i = .ok (be16 attr.data i) := by
          intro i within
          exact readU16_eq_ok_iff.mpr ⟨by omega, rfl⟩
        rw [read 2 (by omega), read 4 (by omega), read 6 (by omega)]
        rfl

/-- What is read of a response is the address that it carries. -/
theorem carriedAddress_eq {attrs : List StunAttr} {mapped : Option SockAddr}
    (found : mappedAddress attrs = .ok mapped) : carriedAddress attrs = mapped := by
  unfold carriedAddress
  rcases mappedAddress_eq_ok_iff.mp found with ⟨none, rfl⟩ | ⟨attr, first, long, rfl⟩
  · rw [Option.map_eq_none_iff, List.find?_eq_none]
    intro attr member both
    rw [Bool.and_eq_true] at both
    exact List.find?_eq_none.mp none attr member both.1
  · have both : attrs.find? (fun attr => attr.type = stunMappedAddress && 8 ≤ attr.data.length) =
        some attr := by
      rcases List.find?_eq_some_iff_append.mp first with ⟨type, before, behind, rfl, others⟩
      refine List.find?_eq_some_iff_append.mpr ⟨?_, before, behind, rfl, ?_⟩
      · rw [Bool.and_eq_true]
        exact ⟨type, decide_eq_true long⟩
      · intro other member
        rw [Bool.not_and, Bool.or_eq_true]
        exact .inl (others other member)
    rw [both]
    rfl

/-! ## One response -/

section Step

variable {g g' : Gathered} {mapped : Option SockAddr} {s' : Counted}

/-- The loop over the pairs changes no child, and no room. -/
theorem insertable_start (name : Text) (attrs : AttrList) :
    Insertable p (if hasCookie r.buf then succeedPair ice r.peer else ice) name attrs ↔
      Insertable p ice name attrs := by
  split
  · rcases @succeedPair_eq ice r.peer with ⟨cPairs, cPairLastSuccess, cr, length, same⟩
    rw [same]
    unfold Insertable
    rw [length]
  · exact Iff.rfl

theorem children_start :
    (if hasCookie r.buf then succeedPair ice r.peer else ice).children = ice.children := by
  split
  · rcases @succeedPair_eq ice r.peer with ⟨cPairs, cPairLastSuccess, cr, -, same⟩
    rw [same]
  · rfl

theorem onResponseCounted_eq_ok_iff : onResponseCounted p ⟨ice, refs⟩ r = .ok s' ↔
    ∃ l mapped, Parsable r.buf none l ∧ mappedAddress (l.map Prod.snd) = .ok mapped ∧
      addMappedCounted p ⟨if hasCookie r.buf then succeedPair ice r.peer else ice, refs⟩ mapped =
        .ok s' := by
  unfold onResponseCounted
  constructor
  · intro result
    rcases bind_eq_ok_iff.mp result with ⟨pkt, parsed, result⟩
    rcases stunPacketFromHdr_eq_ok_iff.mp parsed with ⟨l, parsable, rfl⟩
    rcases bind_eq_ok_iff.mp result with ⟨mapped, found, added⟩
    exact ⟨l, mapped, parsable, found, added⟩
  · rintro ⟨l, mapped, parsable, found, added⟩
    have parsed : stunPacketFromHdr p.hmac p.crcTab r.buf none = .ok ⟨_, l.map Prod.snd⟩ :=
      stunPacketFromHdr_eq_ok_iff.mpr ⟨l, parsable, rfl⟩
    exact bind_eq_ok_iff.mpr ⟨_, parsed, bind_eq_ok_iff.mpr ⟨mapped, found, added⟩⟩

theorem carriedBy_eq {l : List (Nat × StunAttr)} (parsable : Parsable r.buf none l)
    (found : mappedAddress (l.map Prod.snd) = .ok mapped) : carriedBy p r = mapped := by
  have parsed : stunPacketFromHdr p.hmac p.crcTab r.buf none = .ok ⟨_, l.map Prod.snd⟩ :=
    stunPacketFromHdr_eq_ok_iff.mpr ⟨l, parsable, rfl⟩
  unfold carriedBy
  rw [parsed]
  exact carriedAddress_eq found

theorem positive_update (alive : ∀ i, 0 < refs i) {n : Nat} (positive : 0 < n) (i k : Nat) :
    0 < Function.update refs i n k := by
  rw [Function.update_apply]
  split
  · exact positive
  · exact alive k

/-- No reference is lost. -/
theorem alive_onResponseCounted (alive : ∀ i, 0 < refs i)
    (result : onResponseCounted p ⟨ice, refs⟩ r = .ok s') (i : Nat) : 0 < s'.refs i := by
  rcases onResponseCounted_eq_ok_iff.mp result with ⟨l, mapped, -, -, added⟩
  cases mapped with
  | none =>
      cases added
      exact alive i
  | some a =>
      rcases addMappedCounted_cases alive added with
        ⟨later, -, -, rfl⟩ | ⟨-, ice', out, -, rfl⟩
      · exact positive_update alive (Nat.succ_pos _) later.2 i
      · exact positive_update alive Nat.two_pos _ i

/-- The counts are positive, and every address that was carried has one local candidate. -/
structure Consistent (g : Gathered) : Prop where
  alive : ∀ i, 0 < g.counted.refs i
  once : ∀ a ∈ g.carried, g.counted.ice.children.countP (isLocalFor a) = 1

theorem Consistent.receive (consistent : Consistent g) (added : AddedOnce p g r)
    (next : receive p g r = .ok g') : Consistent g' := by
  rcases added with ⟨s', result, adds⟩
  rcases bind_eq_ok_iff.mp next with ⟨counted, same, rest⟩
  cases result.symm.trans same
  cases rest
  exact ⟨alive_onResponseCounted consistent.alive result, adds.once⟩

/-- A new child is the local candidate of its address and of no other. -/
theorem countP_append_srflx {chain : Nat} {child : Child}
    (named : child.name = lit "local-candidate")
    (texts : ∀ b, hasAddress b child = hasAddress b ⟨child.name, srflxAttrs a, chain⟩)
    (b : SockAddr) : (children ++ [child]).countP (isLocalFor b) =
      children.countP (isLocalFor b) + if b = a then 1 else 0 := by
  have own : isLocalFor b child = decide (b = a) := by
    unfold isLocalFor
    rw [named, eqText_refl, Bool.true_and, texts b, Bool.eq_iff_iff, decide_eq_true_iff]
    constructor
    · intro has
      exact hasAddress_unique has (hasAddress_srflx a _ chain)
    · rintro rfl
      exact hasAddress_srflx b _ chain
  rw [List.countP_append, List.countP_singleton, own]
  simp only [decide_eq_true_iff]

/-- **One response** is taken as it should be exactly if it is fresh. -/
theorem addedOnce_iff (consistent : Consistent g) :
    AddedOnce p g r ↔ FreshResponse p g.counted.ice r := by
  rcases g with ⟨⟨ice, refs⟩, carried⟩
  rcases consistent with ⟨alive, once⟩
  dsimp only at alive once ⊢
  constructor
  · rintro ⟨s', result, adds⟩
    rcases onResponseCounted_eq_ok_iff.mp result with ⟨l, mapped, parsable, found, added⟩
    refine ⟨l, parsable, fun attr first => ?_⟩
    rcases mappedAddress_eq_ok_iff.mp found with ⟨none, -⟩ | ⟨attr', first', long, rfl⟩
    · rw [first] at none
      cases none
    · cases first.symm.trans first'
      have member : addressIn attr ∈ carried ++ (carriedBy p r).toList := by
        rw [carriedBy_eq parsable found]
        exact List.mem_append_right _ List.mem_cons_self
      have one := adds.once _ member
      rcases addMappedCounted_cases alive added with
        ⟨later, inside, -, rfl⟩ | ⟨unknown, ice', out, appended, rfl⟩
      · rw [children_start] at inside
        have kept := adds.kept later.2 (lt_of_mem_scanned inside).2
        simp only [refGetAt, Function.update_self] at kept
        omega
      · rw [children_start] at unknown
        have room := (insertable_start _ _).mp (appendChild_succeeds_iff.mp ⟨_, appended⟩)
        rcases children_appendChild appended with ⟨child, placed, named, texts⟩
        rw [children_start] at placed
        simp only [placed, countP_append_srflx named texts, if_pos] at one
        refine ⟨long, ⟨fun child member => ?_, unknown⟩, room⟩
        have none : ice.children.countP (isLocalFor (addressIn attr)) = 0 := by omega
        exact Bool.eq_false_iff.mpr (List.countP_eq_zero.mp none child member)
  · rintro ⟨l, parsable, fresh⟩
    cases first : stunAttrId (l.map Prod.snd) stunMappedAddress with
    | none =>
        have found := mappedAddress_eq_ok_iff.mpr (.inl ⟨first, rfl⟩)
        refine ⟨_, onResponseCounted_eq_ok_iff.mpr ⟨l, none, parsable, found, rfl⟩, ?_⟩
        constructor
        case once =>
          intro a member
          rw [carriedBy_eq parsable found, Option.toList_none, List.append_nil] at member
          change List.countP _ (if hasCookie r.buf then succeedPair ice r.peer else ice).children =
            1
          rw [children_start]
          exact once a member
        case nothing => exact fun _ => children_start
        case kept => exact fun i _ => rfl
    | some attr =>
        rcases fresh attr first with ⟨long, ⟨noLocal, unknown⟩, room⟩
        have found := mappedAddress_eq_ok_iff.mpr (.inr ⟨attr, first, long, rfl⟩)
        rcases appendChild_succeeds_iff.mpr ((insertable_start (r := r) _ _).mpr room) with
          ⟨⟨ice', out⟩, appended⟩
        rcases children_appendChild appended with ⟨child, placed, named, texts⟩
        rw [children_start] at placed
        have stops : (scanned ice.children).find? (fun later =>
            hasAddress (addressIn attr) later.1) = none := by
          rw [List.find?_eq_none]
          intro later member
          exact Bool.eq_false_iff.mp (unknown later member)
        have added : addMappedCounted p
            ⟨if hasCookie r.buf then succeedPair ice r.peer else ice, refs⟩
            (some (addressIn attr)) = .ok ⟨ice', Function.update refs ice.children.length 2⟩ := by
          simp only [addMappedCounted, scanLocals_eq alive, children_start, stops, ok_bind,
            Bool.false_eq_true, if_false, appended]
        refine ⟨_, onResponseCounted_eq_ok_iff.mpr ⟨l, _, parsable, found, added⟩, ?_⟩
        have before : ice.children.countP (isLocalFor (addressIn attr)) = 0 := by
          rw [List.countP_eq_zero]
          intro child member
          exact Bool.eq_false_iff.mp (noLocal child member)
        constructor
        case once =>
          intro a member
          rw [carriedBy_eq parsable found, Option.toList_some, List.mem_append,
            List.mem_singleton] at member
          simp only [placed, countP_append_srflx named texts]
          rcases member with earlier | rfl
          · have one := once a earlier
            have other : a ≠ addressIn attr := by
              rintro rfl
              omega
            rw [if_neg other, one]
          · rw [if_pos rfl, before]
        case nothing =>
          intro nothing
          rw [carriedBy_eq parsable found] at nothing
          cases nothing
        case kept =>
          intro i inside
          exact Function.update_of_ne (Nat.ne_of_lt inside) _ _

end Step

/-- **Server-reflexive candidates** are added once, and all references are given back, in exactly
the runs in which every response is fresh. -/
theorem along_addedOnce_iff (p : Platform) (ice : IoStream) (refs : Nat → Nat)
    (alive : ∀ i, 0 < refs i) (l : List Received) :
    Along (receive p) (AddedOnce p) ⟨⟨ice, refs⟩, []⟩ l ↔
      Along (receive p) (fun g r => FreshResponse p g.counted.ice r) ⟨⟨ice, refs⟩, []⟩ l := by
  refine along_congr Consistent ?_ ?_ ⟨alive, by simp⟩
  · intro g r g' consistent added next
    exact consistent.receive added next
  · intro g r consistent
    exact addedOnce_iff consistent

/-- The mapped address 10.0.0.2 with the port 5002. -/
def mappedAttr : StunAttr :=
  ⟨stunMappedAddress, [0, 1, 0x13, 0x8A, 10, 0, 0, 2]⟩

/-- A response with one attribute. -/
def answer : Received :=
  arrived ⟨3478, 0x0A000001⟩
    ([1, 1, 0, 12, 0x21, 0x12, 0xA4, 0x42] ++ List.replicate 12 7 ++ [0, 1, 0, 8] ++
      mappedAttr.data) (by decide)

/-- The first response of a server adds its candidate. -/
theorem along_addedOnce_first :
    Along (receive host) (AddedOnce host) ⟨⟨created [] 5 6, fun _ => 1⟩, []⟩ [answer] := by
  have parsed : ∃ pkt, stunPacketFromHdr host.hmac host.crcTab answer.buf none = .ok pkt ∧
      pkt.attrs = [mappedAttr] := by
    rw [← lands_false_iff]
    decide +kernel
  rcases parsed with ⟨pkt, result, attrs⟩
  rcases stunPacketFromHdr_eq_ok_iff.mp result with ⟨l, parsable, rfl⟩
  refine (along_addedOnce_iff host _ _ (fun _ => Nat.one_pos) [answer]).mpr ⟨?_, fun _ _ => trivial⟩
  refine ⟨l, parsable, fun attr first => ?_⟩
  dsimp only at attrs
  rw [attrs] at first
  cases (show some mappedAttr = some attr from first)
  exact ⟨by decide, ⟨by simp [created], by simp [created, scanned, getChild]⟩, by decide +kernel⟩

/-- The second one is known, and leaves a reference behind. -/
theorem not_along_addedOnce_twice :
    ¬Along (receive host) (AddedOnce host) ⟨⟨created [] 5 6, fun _ => 1⟩, []⟩ [answer, answer] := by
  have taken : ∃ g, receive host ⟨⟨created [] 5 6, fun _ => 1⟩, []⟩ answer = .ok g ∧
      ∃ s', onResponseCounted host g.counted answer = .ok s' ∧
        0 < g.counted.ice.children.length ∧ s'.refs 0 ≠ g.counted.refs 0 := by
    simp only [← lands_false_iff]
    decide +kernel
  rcases taken with ⟨g, first, s', second, there, leaked⟩
  intro along
  rcases (along.2 g first).1 with ⟨s'', result, adds⟩
  cases second.symm.trans result
  exact leaked (adds.kept 0 there)

end Xwbot.Ice
