import Xwbot.Jingle.Handlers
import Xwbot.Jingle.Negotiation

/-!
# Payloads that survive the negotiation

The element of a payload has two of its attributes or three, the others that are not private are
children.  Both parts meet again in the hints of the peer, which come to the payload behind the
attributes that it has set itself.
-/

namespace Xwbot.Jingle.Negotiation

open Runs

variable {c : Config} {o sess chan transp cho tmp pload : Node} {l : AttrList} {k : Text}
  {attr : Text × Text} {ioMod : IoMode}

/-! ## What is sent of a payload -/

/-- The attributes that go to the element. -/
def elementAttrs (l : AttrList) : AttrList :=
  l.filter fun attr => isElementKey attr.1

/-- The attributes that go to `parameter` elements. -/
def parameterAttrs (l : AttrList) : AttrList :=
  l.filter fun attr => !isElementKey attr.1 && !isPrivate attr.1

theorem nodup_attrKeys_filter (keeps : Text × Text → Bool) (nodup : (attrKeys l).Nodup) :
    (attrKeys (l.filter keeps)).Nodup :=
  (List.filter_sublist.map Prod.fst).nodup nodup

/-- The three keys are not private. -/
theorem isPrivate_of_isElementKey (element : isElementKey k = true) : isPrivate k = false := by
  have upper : toLower (ch '$') = ch '$' := by decide
  cases k with
  | nil => rfl
  | cons d rest =>
      simp only [isPrivate, List.head?_cons, Option.some.injEq, decide_eq_false_iff_not]
      rintro rfl
      simp only [isElementKey, eqText, Bool.or_eq_true, decide_eq_true_eq, List.map_cons, upper,
        lit] at element
      rcases element with (element | element) | element <;>
        exact absurd (List.cons.inj element).1 (by decide)

theorem describeAttrs_eq (nodup : (attrKeys l).Nodup)
    (other : ∀ key ∈ attrKeys l, key ∉ attrKeys pload.attrs.cells) :
    (l.foldl describeAttr pload).name = pload.name ∧
      (l.foldl describeAttr pload).attrs.cells = (elementAttrs l).reverse ++ pload.attrs.cells ∧
      (l.foldl describeAttr pload).sons = pload.sons ++ (parameterAttrs l).map parameter := by
  induction l generalizing pload with
  | nil => exact ⟨rfl, rfl, (List.append_nil _).symm⟩
  | cons attr rest ih =>
      rcases attr with ⟨key, val⟩
      rw [attrKeys, List.map_cons, List.nodup_cons] at nodup
      rw [attrKeys, List.map_cons, List.forall_mem_cons] at other
      rw [List.foldl_cons, describeAttr, elementAttrs, parameterAttrs, List.filter_cons,
        List.filter_cons]
      by_cases element : isElementKey key = true
      · have set : (pload.aset key (some val)).attrs.cells = (key, val) :: pload.attrs.cells :=
          setattr_of_notMem other.1
        have other' : ∀ key' ∈ attrKeys rest,
            key' ∉ attrKeys (pload.aset key (some val)).attrs.cells := by
          intro key' member inside
          rw [set, attrKeys, List.map_cons] at inside
          rcases List.mem_cons.mp inside with rfl | inside
          · exact nodup.1 member
          · exact other.2 key' member inside
        rcases ih nodup.2 other' with ⟨name, cells, sons⟩
        simp only [element, if_true, Bool.not_true, Bool.false_and, Bool.false_eq_true, if_false]
        refine ⟨name, ?_, sons⟩
        rw [cells, set, List.reverse_cons, List.append_assoc]
        rfl
      · by_cases secret : isPrivate key = true
        · rcases ih nodup.2 other.2 with ⟨name, cells, sons⟩
          simp only [element, secret, Bool.not_true, Bool.and_false, Bool.false_eq_true, if_false]
          exact ⟨name, cells, sons⟩
        · have other' : ∀ key' ∈ attrKeys rest,
              key' ∉ attrKeys (pload.append (parameter (key, val))).attrs.cells := other.2
          rcases ih nodup.2 other' with ⟨name, cells, sons⟩
          simp only [element, secret, Bool.not_false, Bool.and_true, Bool.false_eq_true, if_false,
            if_true]
          refine ⟨name, cells, ?_⟩
          rw [sons, List.map_cons]
          exact List.append_assoc _ [parameter (key, val)] _

theorem payloadType_name (tmp : Node) : (payloadType tmp).name = lit "payload-type" :=
  (describeAttrs_eq tmp.attrs.nodup fun _ _ => List.not_mem_nil).1

theorem payloadType_attrs (tmp : Node) :
    (payloadType tmp).attrs.cells = (elementAttrs tmp.attrs.cells).reverse := by
  have other : ∀ key ∈ attrKeys tmp.attrs.cells,
      key ∉ attrKeys (Node.new (lit "payload-type")).attrs.cells := fun _ _ => List.not_mem_nil
  exact (describeAttrs_eq tmp.attrs.nodup other).2.1.trans (List.append_nil _)

theorem payloadType_sons (tmp : Node) :
    (payloadType tmp).sons = (parameterAttrs tmp.attrs.cells).map parameter :=
  (describeAttrs_eq tmp.attrs.nodup fun _ _ => List.not_mem_nil).2.2

/-! ## The hints of the peer -/

theorem disjoint_parameterAttrs (member : k ∈ attrKeys (parameterAttrs l)) :
    k ∉ attrKeys (elementAttrs l) := by
  intro member'
  rcases List.mem_map.mp member with ⟨attr, inside, rfl⟩
  rcases List.mem_map.mp member' with ⟨attr', inside', same⟩
  have first := (List.mem_filter.mp inside).2
  have second := (List.mem_filter.mp inside').2
  rw [← same, second] at first
  cases first

theorem nodup_publicAttrs (nodup : (attrKeys l).Nodup) :
    (attrKeys ((parameterAttrs l).reverse ++ (elementAttrs l).reverse)).Nodup := by
  rw [attrKeys, List.map_append, List.map_reverse, List.map_reverse]
  refine List.Nodup.append (List.nodup_reverse.mpr (nodup_attrKeys_filter _ nodup))
    (List.nodup_reverse.mpr (nodup_attrKeys_filter _ nodup)) ?_
  intro key member member'
  exact disjoint_parameterAttrs (List.mem_reverse.mp member) (List.mem_reverse.mp member')

/-- The attributes of a payload that are not private, in the order in which the peer sees them. -/
def publicAttrs (tmp : Node) : AttrMap :=
  ⟨(parameterAttrs tmp.attrs.cells).reverse ++ (elementAttrs tmp.attrs.cells).reverse,
    nodup_publicAttrs tmp.attrs.nodup⟩

theorem get_publicAttrs (tmp : Node) (k : Text) :
    (publicAttrs tmp).get k = if isPrivate k then none else tmp.aget k := by
  have parameters := getattr_reverse (k := k)
    (nodup_attrKeys_filter (fun attr => !isElementKey attr.1 && !isPrivate attr.1) tmp.attrs.nodup)
  have elements := getattr_reverse (k := k)
    (nodup_attrKeys_filter (fun attr => isElementKey attr.1) tmp.attrs.nodup)
  rw [AttrMap.get, publicAttrs, getattr_append, parameterAttrs, elementAttrs, parameters, elements,
    getattr_filter (fun key => !isElementKey key && !isPrivate key), getattr_filter isElementKey,
    Node.aget, AttrMap.get]
  by_cases element : isElementKey k = true
  · simp [element, isPrivate_of_isElementKey element]
  · by_cases secret : isPrivate k = true
    · simp [element, secret]
    · simp [element, secret]

theorem assignParameters_eq {attrs : AttrMap} (nodup : (attrKeys l).Nodup)
    (other : ∀ key ∈ attrKeys l, key ∉ attrKeys attrs.cells) :
    ∃ hints, run assignParameter attrs (l.map parameter) = .ok hints ∧
      hints.cells = l.reverse ++ attrs.cells := by
  induction l generalizing attrs with
  | nil => exact ⟨attrs, rfl, rfl⟩
  | cons attr rest ih =>
      rcases attr with ⟨key, val⟩
      rw [attrKeys, List.map_cons, List.nodup_cons] at nodup
      rw [attrKeys, List.map_cons, List.forall_mem_cons] at other
      have set : (attrs.set key (some val)).cells = (key, val) :: attrs.cells :=
        setattr_of_notMem other.1
      have other' : ∀ key' ∈ attrKeys rest, key' ∉ attrKeys (attrs.set key (some val)).cells := by
        intro key' member inside
        rw [set, attrKeys, List.map_cons] at inside
        rcases List.mem_cons.mp inside with rfl | inside
        · exact nodup.1 member
        · exact other.2 key' member inside
      rcases ih nodup.2 other' with ⟨hints, ran, cells⟩
      refine ⟨hints, ran, ?_⟩
      rw [cells, set, List.reverse_cons, List.append_assoc]
      rfl

/-- **The hints**: what was split comes together again. -/
theorem assignParameters_payloadType (tmp : Node) :
    run assignParameter (payloadType tmp).attrs ((payloadType tmp).children (lit "parameter")) =
      .ok (publicAttrs tmp) := by
  have sons := payloadType_sons tmp
  have same : ∀ x ∈ (payloadType tmp).sons, x.name = lit "parameter" := by
    intro x member
    rw [sons] at member
    rcases List.mem_map.mp member with ⟨attr, -, rfl⟩
    rfl
  have other : ∀ key ∈ attrKeys (parameterAttrs tmp.attrs.cells),
      key ∉ attrKeys (payloadType tmp).attrs.cells := by
    intro key member inside
    rw [payloadType_attrs, attrKeys, List.map_reverse, List.mem_reverse] at inside
    exact disjoint_parameterAttrs member inside
  rw [Node.children_eq same, sons]
  rcases assignParameters_eq (nodup_attrKeys_filter _ tmp.attrs.nodup) other with
    ⟨hints, ran, cells⟩
  rw [parameterAttrs, ran]
  rw [payloadType_attrs] at cells
  exact congrArg Except.ok (AttrMap.ext cells)

/-! ## Payloads at the peer -/

/-- The class for a payload is found. -/
def known (c : Config) (tmp : Node) : Bool :=
  (tmp.aget (lit "name")).any fun ptname => c.media ptname (publicAttrs tmp).cells

/-- What the peer makes of a payload. -/
def received (tmp : Node) (ioMod : IoMode) : Node :=
  let payloado := (Node.new ((tmp.aget (lit "id")).getD [])).aset (lit "id") (tmp.aget (lit "id"))
  let payloado := payloado.aset (lit "name") (tmp.aget (lit "name"))
  (payloado.aset (lit "$mode") (some ioMod.text)).assign (publicAttrs tmp).cells

theorem aget_received (tmp : Node) (ioMod : IoMode) (k : Text) : (received tmp ioMod).aget k =
    if k = lit "$mode" then some ioMod.text
    else if isPrivate k then none else tmp.aget k := by
  have secret : isPrivate (lit "$mode") = true := by decide
  have shown : isPrivate (lit "name") = false ∧ isPrivate (lit "id") = false := by decide
  simp only [received, Node.aget, Node.assign, Node.aset, Node.new, AttrMap.get_assign,
    get_publicAttrs]
  rw [AttrMap.get_set, AttrMap.get_set, AttrMap.get_set, AttrMap.get_empty]
  by_cases mode : k = lit "$mode"
  · rw [if_pos mode, if_pos mode, mode, secret]
    rfl
  · rw [if_neg mode, if_neg mode]
    by_cases name : k = lit "name"
    · rw [name, if_pos rfl, shown.1]
      simp
    · rw [if_neg name]
      by_cases id : k = lit "id"
      · rw [id, if_pos rfl, shown.2]
        simp
      · rw [if_neg id, Option.or_none]

theorem aget_payloadType (element : isElementKey k = true) :
    (payloadType tmp).aget k = tmp.aget k := by
  have elements := getattr_reverse (k := k)
    (nodup_attrKeys_filter (fun attr => isElementKey attr.1) tmp.attrs.nodup)
  rw [Node.aget, AttrMap.get, payloadType_attrs, elementAttrs, elements,
    getattr_filter isElementKey, if_pos element]
  rfl

/-- A channel with the two objects for the payloads behind what it has. -/
def withMedia (cho : Node) (payloads : IoMode → List Node) : Node :=
  { cho with
    sons := cho.sons ++ [⟨lit "in$media", .empty, payloads .decoder⟩,
      ⟨lit "out$media", .empty, payloads .encoder⟩] }

/-- No object below is taken for one of the two. -/
def NoMedia (cho : Node) : Prop :=
  ∀ x ∈ cho.sons, ∀ ioMod : IoMode, eqnText x.name ioMod.media = false

theorem eqnText_in_out : eqnText (lit "in$media") IoMode.encoder.media = false := by
  decide

theorem setMediaProfile_eq (cho : Node) : setMediaProfile cho = withMedia cho fun _ => [] := by
  simp [setMediaProfile, withMedia, Node.append, Node.new]

variable {media : IoMode → List Node} {tmps : List Node} {hints : AttrMap} {ptype ptname : Text}

theorem withMedia_split (clear : NoMedia cho) (media : IoMode → List Node) (ioMod : IoMode) :
    ∃ before behind, (withMedia cho media).sons =
        before ++ ⟨ioMod.media, .empty, media ioMod⟩ :: behind ∧
      (∀ y ∈ before, eqnText y.name ioMod.media = false) ∧
      ∀ x, { withMedia cho media with
        sons := before ++ (⟨ioMod.media, .empty, media ioMod ++ [x]⟩ : Node) :: behind } =
          withMedia cho (Function.update media ioMod (media ioMod ++ [x])) := by
  cases ioMod with
  | decoder =>
      refine ⟨cho.sons, _, rfl, fun y member => clear y member .decoder, fun x => ?_⟩
      simp [withMedia, IoMode.media]
  | encoder =>
      refine ⟨cho.sons ++ [⟨lit "in$media", .empty, media .decoder⟩], [], ?_, ?_, fun x => ?_⟩
      · simp [withMedia, IoMode.media]
      · intro y member
        rcases List.mem_append.mp member with member | member
        · exact clear y member .encoder
        · rw [List.mem_singleton.mp member]
          exact eqnText_in_out
      · simp [withMedia, IoMode.media]

theorem addPayload_withMedia (clear : NoMedia cho) (ioMod : IoMode)
    (ready : Agent.addPayload c (some ptype) (some ptname) hints.cells = .ok ())
    (found : c.media ptname hints.cells = true) (mode : hints.get (lit "$mode") = none) :
    addPayload c (withMedia cho media) (some ptype) (some ptname) ioMod hints =
      .ok (withMedia cho (Function.update media ioMod (media ioMod ++
        [((((Node.new ptype).aset (lit "id") (some ptype)).aset (lit "name") (some ptname)).aset
          (lit "$mode") (some ioMod.text)).assign hints.cells])), hints) := by
  rcases withMedia_split clear media ioMod with ⟨before, behind, sons, passed, placed⟩
  have here := eqnText_refl ioMod.media
  simp only [addPayload, ready, ok_bind, found, if_true,
    Node.child_of_split before sons passed here, Node.modifyChild_of_split sons passed here,
    AttrMap.set_none mode]
  exact congrArg (fun cho => Except.ok (cho, hints)) (placed _)

/-- A payload without a class is passed over. -/
theorem addPayload_of_unknown {ptype ptname : Option Text}
    (ready : Agent.addPayload c ptype ptname hints.cells = .ok ())
    (unknown : ∀ name ∈ ptname, c.media name hints.cells = false) :
    addPayload c cho ptype ptname ioMod hints = .ok (cho, hints) := by
  unfold addPayload
  rw [ready, ok_bind]
  split
  · next name ptype =>
      rw [unknown name rfl]
      rfl
  · rfl

/-- The lookup of a class has room for the name of a payload, and the object that is made if a class
is found can be named. -/
def Addable (c : Config) (tmp : Node) : Prop :=
  ∀ ptname ∈ tmp.aget (lit "name"), (objectName ptname).length < lowcaseBuf ∧
    (c.media ptname (publicAttrs tmp).cells = true →
      Payload.Nameable ptname (tmp.aget (lit "id")))

instance decidableAddable (c : Config) (tmp : Node) : Decidable (Addable c tmp) :=
  inferInstanceAs (Decidable (∀ ptname ∈ tmp.aget (lit "name"), _ ∧ (_ → _)))

theorem addable_iff : Addable c tmp ↔ Succeeds (Agent.addPayload c (tmp.aget (lit "id"))
    (tmp.aget (lit "name")) (publicAttrs tmp).cells) := by
  unfold Addable
  cases tmp.aget (lit "name") with
  | none => simp [Agent.addPayload]
  | some ptname => simpa using (Agent.succeeds_addPayload).symm

/-- No parameter that is sent has the key `name`. -/
theorem parameters_payloadType (tmp : Node) :
    (((payloadType tmp).children (lit "parameter")).any fun tmpparam =>
      tmpparam.aget (lit "name") = some (lit "name")) = false := by
  rw [List.any_eq_false]
  intro tmpparam member
  rw [Node.children, payloadType_sons] at member
  rcases List.mem_map.mp (List.mem_filter.mp member).1 with ⟨attr, sent, rfl⟩
  have other := (List.mem_filter.mp sent).2
  have key : (parameter attr).aget (lit "name") = some attr.1 := rfl
  rw [key, decide_eq_true_eq, Option.some.injEq]
  intro same
  rw [same] at other
  revert other
  decide

theorem takePayload_payloadType_eq (cho tmp : Node) :
    takePayload c cho (payloadType tmp) =
      (addPayload c cho (tmp.aget (lit "id")) (tmp.aget (lit "name")) .decoder
        (publicAttrs tmp) >>= fun s =>
          addPayload c s.1 (s.2.get (lit "id")) (tmp.aget (lit "name")) .encoder s.2 >>= fun s =>
            .ok s.1) := by
  have id_eq : (publicAttrs tmp).get (lit "id") = tmp.aget (lit "id") := by
    rw [get_publicAttrs]
    rfl
  have name_eq : (payloadType tmp).aget (lit "name") = tmp.aget (lit "name") :=
    aget_payloadType (by decide)
  rw [takePayload, assignParameters_payloadType, ok_bind, name_eq, id_eq, parameters_payloadType]
  exact if_neg fun both => Bool.false_ne_true both.2

theorem takePayload_of_ready (clear : NoMedia cho) (tmp : Node)
    (ready : Agent.addPayload c (tmp.aget (lit "id")) (tmp.aget (lit "name"))
      (publicAttrs tmp).cells = .ok ()) :
    takePayload c (withMedia cho media) (payloadType tmp) =
      .ok (withMedia cho fun ioMod =>
        media ioMod ++ ([tmp].filter (known c)).map (received · ioMod)) := by
  have mode : (publicAttrs tmp).get (lit "$mode") = none := by
    rw [get_publicAttrs]
    rfl
  have id_eq : (publicAttrs tmp).get (lit "id") = tmp.aget (lit "id") := by
    rw [get_publicAttrs]
    rfl
  rw [takePayload_payloadType_eq, List.filter_singleton]
  cases isKnown : known c tmp with
  | false =>
      have unknown : ∀ name ∈ tmp.aget (lit "name"),
          c.media name (publicAttrs tmp).cells = false := by
        intro name given
        rw [known, Option.mem_def.mp given] at isKnown
        exact isKnown
      rw [addPayload_of_unknown ready unknown, ok_bind]
      dsimp only
      rw [id_eq, addPayload_of_unknown ready unknown, ok_bind]
      simp
  | true =>
      rcases (Option.any_eq_true _ _).mp isKnown with ⟨ptname, name, found⟩
      cases id : tmp.aget (lit "id") with
      | none =>
          rw [name, id] at ready
          have succeeds := (Agent.succeeds_addPayload.mp ⟨_, ready⟩).2 found
          rcases succeeds.2 with ⟨ptype, none, -⟩
          cases none
      | some ptype =>
          rw [name, id] at ready
          rw [name, addPayload_withMedia clear .decoder ready found mode, ok_bind]
          dsimp only
          rw [id_eq, id, addPayload_withMedia clear .encoder ready found mode, ok_bind]
          refine congrArg (fun media => Except.ok (withMedia cho media)) (funext fun ioMod => ?_)
          cases ioMod with
          | decoder => simp [received, name, id]
          | encoder => simp [received, name, id]

/-- **A payload at the peer**: one that is known is appended to both. -/
theorem takePayload_payloadType (clear : NoMedia cho) (tmp : Node) {cho' : Node} :
    takePayload c (withMedia cho media) (payloadType tmp) = .ok cho' ↔
      Addable c tmp ∧
        cho' = withMedia cho fun ioMod =>
          media ioMod ++ ([tmp].filter (known c)).map (received · ioMod) := by
  rw [addable_iff]
  constructor
  · intro result
    have ready : Succeeds (Agent.addPayload c (tmp.aget (lit "id")) (tmp.aget (lit "name"))
        (publicAttrs tmp).cells) := by
      rw [takePayload_payloadType_eq] at result
      rcases bind_eq_ok_iff.mp result with ⟨first, ran, -⟩
      rcases bind_eq_ok_iff.mp ran with ⟨⟨⟩, ready, -⟩
      exact ⟨_, ready⟩
    refine ⟨ready, ?_⟩
    rcases ready with ⟨⟨⟩, ready⟩
    exact (Except.ok.inj ((takePayload_of_ready clear tmp ready).symm.trans result)).symm
  · rintro ⟨⟨⟨⟩, ready⟩, rfl⟩
    exact takePayload_of_ready clear tmp ready

/-- All payloads of a description. -/
theorem takePayloads_iff (clear : NoMedia cho) {cho' : Node} :
    run (takePayload c) (withMedia cho media) (tmps.map payloadType) = .ok cho' ↔
      (∀ tmp ∈ tmps, Addable c tmp) ∧
        cho' = withMedia cho fun ioMod =>
          media ioMod ++ (tmps.filter (known c)).map (received · ioMod) := by
  induction tmps generalizing media with
  | nil => simp [eq_comm]
  | cons tmp rest ih =>
      rw [List.map_cons, run_cons, bind_eq_ok_iff, List.forall_mem_cons]
      constructor
      · rintro ⟨cho₁, first, later⟩
        rcases (takePayload_payloadType clear tmp).mp first with ⟨addable, rfl⟩
        rcases ih.mp later with ⟨all, rfl⟩
        refine ⟨⟨addable, all⟩, congrArg (withMedia cho) (funext fun ioMod => ?_)⟩
        rw [List.append_assoc, ← List.map_append, ← List.filter_append]
        rfl
      · rintro ⟨⟨addable, all⟩, rfl⟩
        refine ⟨_, (takePayload_payloadType clear tmp).mpr ⟨addable, rfl⟩, ih.mpr ⟨all, ?_⟩⟩
        refine congrArg (withMedia cho) (funext fun ioMod => ?_)
        rw [List.append_assoc, ← List.map_append, ← List.filter_append]
        rfl

/-! ## The agent

A turn of the loop over the payloads fails exactly where that of the agent does, which does not look
at what is made. -/

/-- A `payload-type` as the agent is handed it. -/
def handed (payload : Node) : Payload where
  attrs := payload.attrs.cells
  parameters := (payload.children (lit "parameter")).map fun tmpparam => tmpparam.attrs.cells

theorem assignParameter_agent (attrs : AttrMap) (tmpparam : Node) :
    Agent.assignParameter attrs.cells tmpparam.attrs.cells =
      (assignParameter attrs tmpparam).map AttrMap.cells := by
  unfold Agent.assignParameter assignParameter Node.aget AttrMap.get
  cases getattr (lit "name") tmpparam.attrs.cells with
  | some key => rfl
  | none =>
      simp only [setattrPtr]
      split
      · rfl
      · rfl

theorem addPayload_agent (c : Config) (cho : Node) (ptype ptname : Option Text) (ioMod : IoMode)
    (hints : AttrMap) : (addPayload c cho ptype ptname ioMod hints).map (fun _ => ()) =
      Agent.addPayload c ptype ptname hints.cells := by
  unfold addPayload
  cases Agent.addPayload c ptype ptname hints.cells with
  | error fault => rfl
  | ok =>
      rw [ok_bind]
      split
      · split
        · dsimp only
          split
          · rfl
          · rfl
        · rfl
      · rfl

/-- What was added once can be added again: what is left of the hints has the same identifier. -/
theorem addPayload_again {ptname : Option Text} {cho' : Node} {hints' : AttrMap}
    (first : addPayload c cho (hints.get (lit "id")) ptname ioMod hints = .ok (cho', hints')) :
    Agent.addPayload c (hints'.get (lit "id")) ptname hints'.cells = .ok () := by
  have ready : Agent.addPayload c (hints.get (lit "id")) ptname hints.cells = .ok () := by
    rw [← addPayload_agent c cho _ ptname ioMod, first]
    rfl
  unfold addPayload at first
  rw [ready, ok_bind] at first
  split at first
  · next ptname ptype id =>
      split at first
      · next found =>
          dsimp only at first
          split at first
          · cases first
            exact id ▸ ready
          · cases first
            rcases Agent.succeeds_addPayload.mp ⟨_, ready⟩ with ⟨short, nameable⟩
            have other : lit "id" ≠ lit "$mode" := by decide
            have kept : (hints.set (lit "$mode") none).get (lit "id") = hints.get (lit "id") := by
              rw [AttrMap.get_set, if_neg other]
            have again : Succeeds (Agent.addPayload c (hints.get (lit "id")) (some ptname)
                (hints.set (lit "$mode") none).cells) :=
              Agent.succeeds_addPayload.mpr ⟨short, fun _ => nameable found⟩
            rcases again with ⟨⟨⟩, again⟩
            rw [kept]
            exact again
      · cases first
        exact id ▸ ready
  · cases first
    exact ready

/-- **The agent's turn** of the loop. -/
theorem takePayload_agent (c : Config) (cho payload : Node) :
    (takePayload c cho payload).map (fun _ => ()) = Agent.handlePayload c (handed payload) := by
  have ran := run_map AttrMap.cells (fun tmpparam : Node => tmpparam.attrs.cells)
    assignParameter_agent payload.attrs (payload.children (lit "parameter"))
  have assigns : (handed payload).assigns (lit "name") =
      (payload.children (lit "parameter")).any fun tmpparam =>
        tmpparam.aget (lit "name") = some (lit "name") :=
    List.any_map
  rw [takePayload, Agent.handlePayload, assigns, handed]
  dsimp only
  rw [ran]
  cases run assignParameter payload.attrs (payload.children (lit "parameter")) with
  | error fault => rfl
  | ok hints =>
      by_cases freed : (payload.aget (lit "name")).isSome = true ∧
          ((payload.children (lit "parameter")).any fun tmpparam =>
            tmpparam.aget (lit "name") = some (lit "name")) = true
      · exact (congrArg (Except.map _) (if_pos freed)).trans (if_pos freed).symm
      · refine (congrArg (Except.map _) (if_neg freed)).trans (Eq.trans ?_ (if_neg freed).symm)
        refine Eq.trans ?_ (addPayload_agent c cho (hints.get (lit "id"))
          (payload.aget (lit "name")) .decoder hints)
        cases first : addPayload c cho (hints.get (lit "id")) (payload.aget (lit "name"))
            .decoder hints with
        | error fault => rfl
        | ok added =>
            rcases added with ⟨cho₁, hints₁⟩
            have two := addPayload_agent c cho₁ (hints₁.get (lit "id")) (payload.aget (lit "name"))
              .encoder hints₁
            rw [addPayload_again first] at two
            rw [ok_bind]
            dsimp only
            cases second : addPayload c cho₁ (hints₁.get (lit "id")) (payload.aget (lit "name"))
                .encoder hints₁ with
            | error fault =>
                rw [second] at two
                cases two
            | ok again => rfl

/-! ## A channel at the peer -/

/-- The payloads that are described for a channel. -/
def foundPayloads (chan : Node) : List Node :=
  ((chan.child (lit "out$media")).map Node.sons).getD []

/-- Those of them that the peer comes to.  A `description` that has the same beginning as the name
of the transport is not found behind it. -/
def heard (chan : Node) : List Node :=
  match chan.child (lit "transport") with
  | none => []
  | some transp => if eqnText transp.name (lit "description") then [] else foundPayloads chan

/-- Those of them that the peer makes objects for. -/
def passing (c : Config) (chan : Node) : List Node :=
  (heard chan).filter (known c)

theorem describePayloads_eq (descr : Node) (tmps : List Node) :
    tmps.foldl (fun descr tmp => descr.append (payloadType tmp)) descr =
      { descr with sons := descr.sons ++ tmps.map payloadType } := by
  induction tmps generalizing descr with
  | nil =>
      cases descr
      simp
  | cons tmp rest ih =>
      rw [List.foldl_cons, ih, Node.append, List.append_assoc]
      rfl

theorem description_eq (chan : Node) :
    (description chan).name = lit "description" ∧
      (description chan).aget (lit "xmlns") = some (lit "urn:xmpp:jingle:apps:rtp:1") ∧
      (description chan).sons = (foundPayloads chan).map payloadType := by
  have other : lit "xmlns" ≠ lit "media" := by decide
  have head : (((Node.new (lit "description")).aset (lit "xmlns")
      (some (lit "urn:xmpp:jingle:apps:rtp:1"))).aset (lit "media") (chan.aget (lit "mtype"))).aget
        (lit "xmlns") = some (lit "urn:xmpp:jingle:apps:rtp:1") := by
    rw [Node.aget, Node.aset, AttrMap.get_set, if_neg other]
    rfl
  unfold description foundPayloads
  cases chan.child (lit "out$media") with
  | none => exact ⟨rfl, head, rfl⟩
  | some media =>
      simp only [describePayloads_eq]
      exact ⟨rfl, head, rfl⟩

theorem children_description (chan : Node) :
    (description chan).children (lit "payload-type") = (foundPayloads chan).map payloadType := by
  rcases description_eq chan with ⟨-, -, sons⟩
  rw [Node.children_eq, sons]
  intro x member
  rw [sons] at member
  rcases List.mem_map.mp member with ⟨tmp, -, rfl⟩
  exact payloadType_name tmp

theorem NoMedia.append (clear : NoMedia cho) {x : Node}
    (other : ∀ ioMod : IoMode, eqnText x.name ioMod.media = false) : NoMedia (cho.append x) := by
  intro y member
  rcases List.mem_append.mp member with member | member
  · exact clear y member
  · rw [List.mem_singleton.mp member]
    exact other

theorem noMedia_assignMtype (clear : NoMedia cho) (mtype : Option Text) :
    NoMedia (assignMtype cho mtype) := by
  have player : ∀ ioMod : IoMode, eqnText (lit "dataplayer") ioMod.media = false := by
    rintro (_ | _) <;> decide
  have src : ∀ ioMod : IoMode, eqnText (lit "datasrc") ioMod.media = false := by
    rintro (_ | _) <;> decide
  have demux : ∀ ioMod : IoMode, eqnText (lit "hiddemux") ioMod.media = false := by
    rintro (_ | _) <;> decide
  have mux : ∀ ioMod : IoMode, eqnText (lit "hidmux") ioMod.media = false := by
    rintro (_ | _) <;> decide
  unfold assignMtype
  cases mtype with
  | none => exact clear
  | some mtype =>
      have clear' : NoMedia (cho.aset (lit "mtype") (some mtype)) := clear
      dsimp only
      split
      · exact (((clear'.append player).append src).append demux).append mux
      · split
        · exact (clear'.append player).append src
        · exact clear'

theorem noMedia_addProfile (clear : NoMedia cho) (transport : Node) :
    NoMedia (addProfile c cho transport) := by
  have other : ∀ ioMod : IoMode, eqnText (lit "transport") ioMod.media = false := by
    rintro (_ | _) <;> decide
  unfold addProfile
  split
  · unfold setTransportProfile
    split
    · exact clear.append other
    · exact clear
  · exact clear

variable {around : List AttrList}

/-! The name of a channel stays. -/

theorem name_assignMtype (cho : Node) (mtype : Option Text) :
    (assignMtype cho mtype).name = cho.name := by
  unfold assignMtype
  cases mtype with
  | none => rfl
  | some mtype =>
      dsimp only
      split
      · rfl
      · split <;> rfl

theorem name_addProfile (c : Config) (cho transport : Node) :
    (addProfile c cho transport).name = cho.name := by
  unfold addProfile
  split
  · unfold setTransportProfile
    split
    · rfl
    · rfl
  · rfl

theorem name_of_takeTransport {transport cho' : Node}
    (result : takeTransport c around cho transport = .ok cho') : cho'.name = cho.name := by
  unfold takeTransport at result
  dsimp only at result
  split at result
  · cases result
    exact name_addProfile c cho transport
  · refine run_invariant (fun x => x.name = cho.name) ?_ (name_addProfile c cho transport) result
    intro x candidate x' same took
    rcases bind_eq_ok_iff.mp took with ⟨copy, -, placed⟩
    cases placed
    exact (Node.name_modifyChild ..).trans same

/-- A transport that was sent has no candidates. -/
theorem takeTransport_of_alone {transport : Node} (alone : transport.sons = []) :
    takeTransport c around cho transport = .ok (addProfile c cho transport) := by
  unfold takeTransport
  dsimp only
  rw [Node.children_of_sons_nil alone, run_nil]
  split
  · rfl
  · rfl

theorem name_of_addPayload {ptype ptname : Option Text} {cho' : Node} {hints' : AttrMap}
    (result : addPayload c cho ptype ptname ioMod hints = .ok (cho', hints')) :
    cho'.name = cho.name := by
  rcases bind_eq_ok_iff.mp result with ⟨⟨⟩, -, rest⟩
  split at rest
  · split at rest
    · dsimp only at rest
      split at rest
      · cases rest
        rfl
      · cases rest
        exact Node.name_modifyChild ..
    · cases rest
      rfl
  · cases rest
    rfl

theorem name_of_takePayload {cho' payload : Node} (result : takePayload c cho payload = .ok cho') :
    cho'.name = cho.name := by
  rcases bind_eq_ok_iff.mp result with ⟨hints, -, rest⟩
  split at rest
  · cases rest
  · rcases bind_eq_ok_iff.mp rest with ⟨⟨cho₁, hints₁⟩, first, rest⟩
    rcases bind_eq_ok_iff.mp rest with ⟨⟨cho₂, hints₂⟩, second, same⟩
    cases same
    exact (name_of_addPayload second).trans (name_of_addPayload first)

theorem name_of_fillChannel {cho' chan : Node}
    (result : fillChannel c around cho chan = .ok cho') : cho'.name = cho.name := by
  unfold fillChannel at result
  split at result
  · next transport descr _ _ =>
      rcases bind_eq_ok_iff.mp result with ⟨taken, first, rest⟩
      have start : (setMediaProfile (assignMtype taken (descr.aget (lit "media")))).name =
          cho.name :=
        (name_assignMtype _ _).trans (name_of_takeTransport first)
      dsimp only at rest
      split at rest
      · rcases bind_eq_ok_iff.mp rest with ⟨filled, ran, same⟩
        cases same
        exact run_invariant (fun x => x.name = cho.name)
          (fun _ _ _ same took => (name_of_takePayload took).trans same) start ran
      · cases rest
        exact start
  · cases result

theorem transportCopy_eq_ok_iff {tr : Node} : transportCopy transp = .ok tr ↔
    NameFits transp.name ∧
      tr = (((((Node.new transp.name).assign transp.attrs.cells).aset (lit "ufrag")
        (transp.aget (lit "ufrag"))).aset (lit "pwd") (transp.aget (lit "pwd"))).aset (lit "xmlns")
          (transp.aget (lit "xmlns"))) := by
  unfold transportCopy
  constructor
  · intro result
    rcases bind_eq_ok_iff.mp result with ⟨copy, copied, same⟩
    rcases Node.copy_eq_ok_iff.mp copied with ⟨fits, rfl⟩
    exact ⟨fits, (Except.ok.inj same).symm⟩
  · rintro ⟨fits, rfl⟩
    rw [Node.copy_eq_ok_iff.mpr ⟨fits, rfl⟩]
    rfl

/-- The copy is found where its original was, and nothing is below it. -/
theorem name_of_transportCopy {tr : Node} (copied : transportCopy transp = .ok tr) :
    tr.name = transp.name ∧ tr.sons = [] := by
  rcases transportCopy_eq_ok_iff.mp copied with ⟨-, rfl⟩
  exact ⟨rfl, rfl⟩

/-- **A channel at the peer**, if it is new there. -/
theorem fillChannel_content (c : Config) (around : List AttrList) (cho : Node) {tr : Node}
    (given : chan.child (lit "transport") = some transp) (copied : transportCopy transp = .ok tr)
    (new : cho.sons = []) :
    ∃ base, NoMedia base ∧ base.name = cho.name ∧ ∀ cho',
      fillChannel c around cho (content chan tr) = .ok cho' ↔
        (∀ tmp ∈ heard chan, Addable c tmp) ∧
          cho' = commit (withMedia base fun ioMod => (passing c chan).map (received · ioMod)) := by
  have clear : NoMedia cho := by
    intro x member
    rw [new] at member
    cases member
  rcases name_of_transportCopy copied with ⟨same, alone⟩
  have named : eqnText tr.name (lit "transport") = true := by
    rw [same]
    exact List.find?_some (p := fun x : Node => eqnText x.name (lit "transport")) given
  have sons : (content chan tr).sons = [tr, description chan] := rfl
  have transport : (content chan tr).child (lit "transport") = some tr :=
    Node.child_of_split [] sons (fun _ none => (List.not_mem_nil none).elim) named
  have clear₁ : NoMedia (addProfile c cho tr) := noMedia_addProfile clear tr
  unfold fillChannel
  rw [transport]
  by_cases hidden : eqnText transp.name (lit "description") = true
  · have descr : (content chan tr).child (lit "description") = some tr :=
      Node.child_of_split [] sons (fun _ none => (List.not_mem_nil none).elim) (same ▸ hidden)
    have clear₂ := noMedia_assignMtype clear₁ (tr.aget (lit "media"))
    have none : heard chan = [] := by
      rw [heard, given]
      exact if_pos hidden
    refine ⟨_, clear₂, (name_assignMtype ..).trans (name_addProfile ..), fun cho' => ?_⟩
    rw [descr, passing, none]
    simp only [takeTransport_of_alone alone, ok_bind, setMediaProfile_eq, List.filter_nil,
      List.map_nil, List.not_mem_nil, false_implies, implies_true, true_and,
      Node.children_of_sons_nil alone, run_nil, ite_self, Except.ok.injEq]
    exact eq_comm
  · have shown : eqnText transp.name (lit "description") = false := by simpa using hidden
    rcases description_eq chan with ⟨name, xmlns, -⟩
    have descr : (content chan tr).child (lit "description") = some (description chan) := by
      refine Node.child_of_split [tr] sons ?_ ?_
      · intro y member
        rw [List.mem_singleton.mp member, same]
        exact shown
      · rw [name]
        exact eqnText_refl _
    have clear₂ := noMedia_assignMtype clear₁ ((description chan).aget (lit "media"))
    have all : heard chan = foundPayloads chan := by
      rw [heard, given]
      exact if_neg hidden
    have rtp : strstr (lit "urn:xmpp:jingle:apps:rtp:1") (lit "rtp") = true := by decide
    refine ⟨_, clear₂, (name_assignMtype ..).trans (name_addProfile ..), fun cho' => ?_⟩
    rw [descr, passing, all]
    simp only [takeTransport_of_alone alone, ok_bind, setMediaProfile_eq, xmlns, Option.any_some,
      rtp, if_true, children_description]
    rw [bind_eq_ok_iff]
    constructor
    · rintro ⟨filled, ran, same⟩
      cases same
      rcases (takePayloads_iff clear₂).mp ran with ⟨addable, rfl⟩
      exact ⟨addable, rfl⟩
    · rintro ⟨addable, rfl⟩
      exact ⟨_, (takePayloads_iff clear₂).mpr ⟨addable, rfl⟩, rfl⟩

/-! ## What is asked of a channel -/

/-- The payloads of a channel. -/
def payloads (chan : Node) : List Node :=
  ((chan.named (lit "out$media")).map Node.sons).getD []

/-- A payload of the peer has the public attributes of one that was sent, and its mode. -/
structure Carries (ioMod : IoMode) (sent payload : Node) : Prop where
  name : sent.aget (lit "id") = some payload.name
  attrs : ∀ k, payload.aget k =
    if k = lit "$mode" then some ioMod.text
    else if isPrivate k then none else sent.aget k

/-- A channel of the peer has the name of one that was sent, and twice its payloads. -/
structure Mirrors (sent cho : Node) : Prop where
  name : cho.name = sent.name
  payloads : ∀ ioMod : IoMode, ∃ media, cho.named ioMod.media = some media ∧
    List.Forall₂ (Carries ioMod) (payloads sent) media.sons

/-- Two payloads differ in private attributes only. -/
def SamePublic (tmp tmp' : Node) : Prop :=
  ∀ k, isPrivate k = false → tmp'.aget k = tmp.aget k

theorem carries_received_iff (id : (o.aget (lit "id")).isSome = true) (ioMod : IoMode) :
    Carries ioMod o (received tmp ioMod) ↔ SamePublic o tmp := by
  have shown : isPrivate (lit "id") = false := by decide
  have secret : isPrivate (lit "$mode") = true := by decide
  constructor
  · intro carries k isPublic
    have other : k ≠ lit "$mode" := by
      rintro rfl
      rw [secret] at isPublic
      cases isPublic
    have same := carries.attrs k
    rw [aget_received, if_neg other, if_neg other, isPublic] at same
    exact same
  · intro same
    constructor
    case name =>
      rcases Option.isSome_iff_exists.mp id with ⟨ptype, given⟩
      have name : (received tmp ioMod).name = (tmp.aget (lit "id")).getD [] := rfl
      rw [name, same (lit "id") shown, given]
      rfl
    case attrs =>
      intro k
      rw [aget_received]
      by_cases isPublic : isPrivate k = true
      · simp only [isPublic, if_true]
      · rw [same k (by simpa using isPublic)]

theorem named_withMedia (clear : NoMedia cho) (media : IoMode → List Node) (ioMod : IoMode) :
    (withMedia cho media).named ioMod.media = some ⟨ioMod.media, .empty, media ioMod⟩ := by
  rcases withMedia_split clear media ioMod with ⟨before, behind, sons, passed, -⟩
  have none : before.find? (fun x => x.name = ioMod.media) = Option.none := by
    rw [List.find?_eq_none]
    intro y member same
    have found := passed y member
    rw [decide_eq_true_eq] at same
    rw [same, eqnText_refl] at found
    cases found
  rw [Node.named, sons, List.find?_append, none, Option.none_or]
  exact List.find?_cons_of_pos (p := fun x : Node => x.name = ioMod.media) (decide_eq_true rfl)

theorem mirrors_commit_iff {base : Node} {tmps : List Node} (clear : NoMedia base)
    (name : base.name = chan.name)
    (ids : ∀ tmp ∈ payloads chan, (tmp.aget (lit "id")).isSome = true) :
    Mirrors chan (commit (withMedia base fun ioMod => tmps.map (received · ioMod))) ↔
      List.Forall₂ SamePublic (payloads chan) tmps := by
  have each (ioMod : IoMode) : List.Forall₂ (Carries ioMod) (payloads chan)
      (tmps.map (received · ioMod)) ↔ List.Forall₂ SamePublic (payloads chan) tmps := by
    rw [List.forall₂_map_right_iff]
    constructor
    · intro all
      refine List.forall₂_iff_zip.mpr ⟨all.length_eq, fun {sent tmp} member => ?_⟩
      exact (carries_received_iff (ids sent (List.of_mem_zip member).1) ioMod).mp
        (List.forall₂_zip all member)
    · intro all
      refine List.forall₂_iff_zip.mpr ⟨all.length_eq, fun {sent tmp} member => ?_⟩
      exact (carries_received_iff (ids sent (List.of_mem_zip member).1) ioMod).mpr
        (List.forall₂_zip all member)
  have placed (ioMod : IoMode) :
      (commit (withMedia base fun ioMod => tmps.map (received · ioMod))).named ioMod.media =
        some ⟨ioMod.media, .empty, tmps.map (received · ioMod)⟩ :=
    named_withMedia clear (fun ioMod => tmps.map (received · ioMod)) ioMod
  constructor
  · intro mirrors
    rcases mirrors.payloads .decoder with ⟨media, found, all⟩
    cases found.symm.trans (placed .decoder)
    exact (each .decoder).mp all
  · exact fun all => ⟨name, fun ioMod => ⟨_, placed ioMod, (each ioMod).mpr all⟩⟩

/-- **One channel**: the peer makes the right payloads exactly if those that it comes to can be
added and those that get through are, one by one, as public as those that were sent. -/
theorem fillChannel_mirrors_iff {tr : Node} (given : chan.child (lit "transport") = some transp)
    (copied : transportCopy transp = .ok tr)
    (ids : ∀ tmp ∈ payloads chan, (tmp.aget (lit "id")).isSome = true) :
    (∃ cho, fillChannel c around (Node.new chan.name) (content chan tr) = .ok cho ∧
        Mirrors chan cho) ↔
      (∀ tmp ∈ heard chan, Addable c tmp) ∧
        List.Forall₂ SamePublic (payloads chan) (passing c chan) := by
  rcases fillChannel_content c around (Node.new chan.name) given copied rfl with
    ⟨base, clear, name, filled⟩
  have name : base.name = chan.name := name
  constructor
  · rintro ⟨cho, result, mirrors⟩
    rcases (filled cho).mp result with ⟨addable, rfl⟩
    exact ⟨addable, (mirrors_commit_iff clear name ids).mp mirrors⟩
  · rintro ⟨addable, all⟩
    exact ⟨_, (filled _).mpr ⟨addable, rfl⟩, (mirrors_commit_iff clear name ids).mpr all⟩

end Xwbot.Jingle.Negotiation
