import Xwbot.Object.Lookup
import Xwbot.Object.PathText
import Xwbot.Object.PathTree

/-!
# Service discovery

A query for items is answered with the sons of the object that `x_object_from_path` finds for the
node.  It finds the context where the path leads nowhere, and follows names that only begin the
components; and a query without a node does not get so far.
-/

namespace Xwbot.Disco

open Heap

/-! ## The answers -/

/-- A son of `query` in an answer.  An `item` was made from an object of the tree. -/
structure Child where
  name : Text
  attrs : AttrList
  object : Option Addr
  deriving DecidableEq, Repr

structure Query where
  attrs : AttrList
  children : List Child
  deriving DecidableEq, Repr

/-- The message `iq` of type `result` that is sent down. -/
structure Iq where
  attrs : AttrList
  query : Query
  deriving DecidableEq, Repr

/-- The loop from the first son on: `tmp = _SBL(tmp)`. -/
def siblings (h : Heap) : Nat → Option Addr → Except Fault (List Addr)
  | _, none => .ok []
  | 0, some _ => .error .hang
  | fuel + 1, some tmp => do
      let tmp ← h.deref (some tmp)
      let rest ← siblings h fuel (h.sibling tmp)
      .ok (tmp :: rest)

/-- The `item` that is made from an object. -/
def itemOf (h : Heap) (jid : Option Text) (tmp : Addr) : Child where
  name := lit "item"
  attrs :=
    let itemnode := setattr (lit "node") (some (h.name tmp)) []
    let itemnode := setattr (lit "name") (getattr (lit "name") (h.attrs tmp)) itemnode
    setattr (lit "jid") jid itemnode
  object := some tmp

/-- The path that the node stands for. -/
def pathOf (node : Text) : Text :=
  if eqText node (lit "http://jabber.org/protocol/commands") then lit "commands/" else node

/-- `___get_query_response`.  `x_strcasecmp` is called with the node even if that is NULL. -/
def getQueryResponse (mem : Memory) (h : Heap) (procdir : Option Addr) (item : Text)
    (node : Option Text) : Except Fault Query := do
  let jid ← h.getenv procdir (lit "jid")
  let msg := setattr (lit "xmlns") (some (lit "http://jabber.org/protocol/disco#" ++ item)) []
  let msg := setattr (lit "node") node msg
  match node with
  | none => .error .segv
  | some node => do
      let ctx ← match procdir with
        | none => .ok none
        | some procdir => do
            let (ctx, _) ← h.fromPath mem procdir (pathOf node)
            .ok (some ctx)
      let first ← h.getChild ctx none
      let tmps ← siblings h h.top first
      .ok ⟨msg, tmps.map (itemOf h jid)⟩

/-- The attributes of the answer. -/
def iqAttrs (h : Heap) (o : Addr) : Except Fault AttrList := do
  let jid ← h.getenv (some o) (lit "jid")
  let sender ← h.getenv (some o) (lit "from")
  let id ← h.getenv (some o) (lit "id")
  let msg := setattr (lit "type") (some (lit "result")) []
  let msg := setattr (lit "from") jid msg
  let msg := setattr (lit "to") sender msg
  .ok (setattr (lit "id") id msg)

/-- The feature of a node for calls. -/
def feature (var : String) : Child :=
  ⟨lit "feature", setattr (lit "var") (some (lit var)) [], none⟩

/-- The features of a node.  The tests are those of `x_strstr`. -/
def features (node : Text) : List Child :=
  if lit "video-v1" <:+: node then [feature "http://www.google.com/xmpp/protocol/video/v1"]
  else if lit "voice-v1" <:+: node then [feature "http://www.google.com/xmpp/protocol/voice/v1"]
  else []

/-- `___disco_query_on_assign`: what is sent down, if anything is. -/
def queryOnAssign (mem : Memory) (h : Heap) (o : Addr) (attrs : AttrList) :
    Except Fault (Option Iq) :=
  match (getattr (lit "xmlns") attrs).bind fun ns => (strchr ns (ch '#')).map (ns, ·.tail) with
  | none => .ok none
  | some (ns, item) =>
      if eqText item (lit "info") then
        match getattr (lit "node") attrs with
        | none => .ok none
        | some node => do
            let msg ← iqAttrs h o
            .ok (some ⟨msg, ⟨setattr (lit "xmlns") (some ns) [], features node⟩⟩)
      else if eqText item (lit "items") then do
        let msg ← iqAttrs h o
        let procdir ← h.getChild (h.bus o) (some (lit "__proc"))
        let query ← getQueryResponse mem h procdir item (getattr (lit "node") attrs)
        .ok (some ⟨msg, query⟩)
      else .ok none

/-! ## What is asked for -/

/-- From `o` the components lead to `n`: each time the first son that is named exactly by the
component is taken. -/
inductive Names (h : Heap) : Addr → List Text → Addr → Prop where
  | here {o : Addr} : Names h o [] o
  | down {o x n : Addr} {l : List Addr} {c : Text} {rest : List Text} (sons : h.Children o l)
      (first : h.exactlyNamed l c = some x) (further : Names h x rest n) : Names h o (c :: rest) n

/-- The object at the path under `__proc` that the node stands for. -/
def Stands (h : Heap) (bus : Addr) (node : Text) (n : Addr) : Prop :=
  Names h bus (lit "__proc" :: steps isPathEnd (pathOf node)) n

/-- The query is one for items. -/
def AsksItems (attrs : AttrList) : Prop :=
  ∃ ns found, getattr (lit "xmlns") attrs = some ns ∧ strchr ns (ch '#') = some found ∧
    eqText found.tail (lit "items") = true

/-- The query is handled without a fault, and one for items is answered with exactly the sons of
the object that the node stands for, in their order. -/
def Answers (mem : Memory) (h : Heap) (bus o : Addr) (attrs : AttrList) : Prop :=
  ∃ sent, queryOnAssign mem h o attrs = .ok sent ∧
    (AsksItems attrs → ∃ iq jid, sent = some iq ∧
      ∀ node, getattr (lit "node") attrs = some node →
        (∀ n l, Stands h bus node n → h.Children n l →
          iq.query.children = l.map (itemOf h jid)) ∧
        ((∀ n, ¬Stands h bus node n) → iq.query.children = []))

/-- The lookups by the beginnings of names, and the one behind the copy of the path, lead to the
object, or they lead nowhere from the object that is taken for `__proc` and it is this one. -/
def Comes (mem : Memory) (h : Heap) (bus : Addr) (node : Text) (x : Addr) : Prop :=
  ∃ proc, Leads h bus [lit "__proc"] proc ∧
    (Leads h proc (lookups mem (pathOf node)) x ∨
      x = proc ∧ ∀ m, ¬Leads h proc (lookups mem (pathOf node)) m)

/-- A query for items has a node, and the lookups come to the object that the node stands for, or
neither it nor the one they come to has sons. -/
def Findable (mem : Memory) (h : Heap) (bus : Addr) (attrs : AttrList) : Prop :=
  AsksItems attrs → ∃ node, getattr (lit "node") attrs = some node ∧
    ∀ x, Comes mem h bus node x → Stands h bus node x ∨
      h.sons x = none ∧ ∀ n, Stands h bus node n → h.sons n = none

variable {mem : Memory} {h : Heap} {kids : Kids} {bus o x n n' : Addr} {attrs : AttrList}
  {node item : Text} {l above busAbove : List Addr} {comps : List Text}

/-! ## The loops -/

theorem siblings_of_path {fuel : Nat} {start : Option Addr}
    (path : Links.Path h.sibling start l none) (alive : ∀ y ∈ l, h.live y = true)
    (enough : l.length ≤ fuel) : siblings h fuel start = .ok l := by
  induction l generalizing fuel start with
  | nil =>
      obtain rfl : start = none := path
      cases fuel <;> rfl
  | cons y rest ih =>
      obtain ⟨rfl, tail⟩ := path
      rw [List.forall_mem_cons] at alive
      cases fuel with
      | zero => simp at enough
      | succ fuel =>
          rw [siblings, deref_of_live alive.1, ok_bind, ih tail alive.2 (by simpa using enough)]
          rfl

/-- The loop over the sons of an object. -/
theorem siblings_sons (orderly : h.Orderly kids) (alive : h.live x = true) :
    (h.getChild (some x) none >>= fun first => siblings h h.top first) = .ok (kids x) := by
  have path := orderly.rep.path x alive
  have live : ∀ y ∈ kids x, h.live y = true := fun y member => orderly.rep.live_of_mem alive member
  simp only [getChild, deref_of_live alive, ok_bind]
  exact siblings_of_path path live (h.length_le_top path.nodup live)

theorem getenv_of_ancestry (ancestry : h.Ancestry x above) (anam : Text) :
    ∃ val, h.getenv (some x) anam = .ok val := by
  rw [getenv, h.follow_of_passes (Links.passes_of_path ancestry.path ancestry.alive), ok_bind]
  exact ⟨_, rfl⟩

theorem getenv_none (h : Heap) (anam : Text) : h.getenv none anam = .ok none := by
  rw [getenv, follow]
  cases h.top <;> rfl

/-- A son has its parent and the objects around that above it. -/
theorem ancestry_of_mem (orderly : h.Orderly kids) (ancestry : h.Ancestry bus busAbove)
    (member : x ∈ kids bus) : h.Ancestry x (bus :: busAbove) := by
  have alive : h.live bus = true := ancestry.alive bus List.mem_cons_self
  refine ⟨⟨rfl, ?_⟩, List.forall_mem_cons.mpr
    ⟨orderly.rep.live_of_mem alive member, ancestry.alive⟩⟩
  rw [orderly.rep.parent_of_mem alive member]
  exact ancestry.path

/-! ## What components lead to -/

theorem live_of_leads (orderly : h.Orderly kids) (alive : h.live x = true)
    (leads : Leads h x comps n) : h.live n = true := by
  induction comps generalizing x with
  | nil =>
      cases leads
      exact alive
  | cons c rest ih =>
      rcases (orderly.leads_cons_iff alive).mp leads with ⟨y, found, further⟩
      exact ih (orderly.live_of_getChild alive found).1 further

theorem leads_one_iff (orderly : h.Orderly kids) (alive : h.live x = true) (c : Text) :
    Leads h x [c] n ↔ h.getChild (some x) (some c) = .ok (some n) := by
  rw [orderly.leads_cons_iff alive]
  constructor
  · rintro ⟨y, found, here⟩
    cases here
    exact found
  · intro found
    exact ⟨n, found, .here⟩

theorem Names.unique (first : Names h x comps n) (second : Names h x comps n') : n = n' := by
  induction first with
  | here =>
      cases second
      rfl
  | down sons named _ ih =>
      rcases second with _ | ⟨sons', named', further⟩
      rw [sons.path.unique sons'.path, named'] at named
      cases named
      exact ih further

theorem Names.live (names : Names h x comps n) (alive : h.live x = true) : h.live n = true := by
  induction names with
  | here => exact alive
  | down sons named _ ih => exact ih (sons.alive _ (List.mem_of_find?_eq_some named))

/-- An object that is found by its name is found by the beginning of a name as well. -/
theorem exists_leads_of_names (orderly : h.Orderly kids) (alive : h.live x = true) {c : Text}
    (names : Names h x (c :: comps) n) : ∃ y, Leads h x [c] y := by
  rcases names with _ | ⟨sons, named, -⟩
  have member := List.mem_of_find?_eq_some named
  have exactly := List.find?_some named
  have begins := eqnText_of_namedExactly exactly
  cases found : h.firstNamed (kids x) c with
  | none =>
      rw [sons.path.unique (orderly.rep.path x alive)] at member
      have differs := List.find?_eq_none.mp found _ member
      exact absurd begins differs
  | some y =>
      refine ⟨y, (leads_one_iff orderly alive c).mpr ?_⟩
      rw [orderly.rep.getChild alive, found]

/-- An object has no sons exactly if its list is empty. -/
theorem kids_eq_nil_iff (orderly : h.Orderly kids) (alive : h.live x = true) :
    kids x = [] ↔ h.sons x = none := by
  have path := orderly.rep.path x alive
  constructor
  · intro empty
    rw [empty] at path
    exact path
  · intro empty
    rw [empty] at path
    exact path.unique (show Links.Path h.sibling none [] none from rfl)

/-- Objects that have sons in common are the same. -/
theorem eq_of_kids_eq (orderly : h.Orderly kids) (alive : h.live n = true)
    (alive' : h.live n' = true) (same : kids n = kids n') : n = n' ∨ kids n = [] := by
  cases list : kids n with
  | nil => exact .inr rfl
  | cons y rest =>
      have member : y ∈ kids n := by
        rw [list]
        exact List.mem_cons_self
      have parent := orderly.rep.parent_of_mem alive member
      rw [orderly.rep.parent_of_mem alive' (same ▸ member)] at parent
      exact .inl (Option.some.inj parent).symm

theorem map_itemOf_inj {jid jid' : Option Text} {l' : List Addr}
    (same : l.map (itemOf h jid) = l'.map (itemOf h jid')) : l = l' := by
  have objects := congrArg (List.map Child.object) same
  rw [List.map_map, List.map_map] at objects
  exact List.map_injective_iff.mpr (Option.some_injective Addr) objects

/-! ## The answer to a query for items -/

theorem noNul_pathOf (noNul : 0 ∉ node) : 0 ∉ pathOf node := by
  unfold pathOf
  split
  · decide
  · exact noNul

/-- Without `__proc` nothing is listed. -/
theorem getQueryResponse_none : ∃ query,
    getQueryResponse mem h none item (some node) = .ok query ∧ query.children = [] := by
  have listed : siblings h h.top none = .ok [] :=
    siblings_of_path (show Links.Path h.sibling none [] none from rfl) (by simp) (Nat.zero_le _)
  unfold getQueryResponse
  rw [getenv_none, ok_bind]
  dsimp only
  rw [ok_bind, getChild, ok_bind, listed, ok_bind]
  exact ⟨_, rfl, rfl⟩

/-- **Spec of `___get_query_response`.**  The sons of what the lookups come to are listed. -/
theorem getQueryResponse_spec (orderly : h.Orderly kids) (root : h.Ancestry bus busAbove)
    (noNul : 0 ∉ node) :
    ∃ procdir jid query, h.getChild (some bus) (some (lit "__proc")) = .ok procdir ∧
      getQueryResponse mem h procdir item (some node) = .ok query ∧
      ((∃ x, (∀ n, Comes mem h bus node n ↔ n = x) ∧ h.live x = true ∧
          query.children = (kids x).map (itemOf h jid)) ∨
        procdir = none ∧ query.children = []) := by
  have alive : h.live bus = true := root.alive bus List.mem_cons_self
  have looked := orderly.rep.getChild alive (lit "__proc")
  cases found : h.firstNamed (kids bus) (lit "__proc") with
  | none =>
      rw [found] at looked
      rcases @getQueryResponse_none mem h node item with ⟨query, result, empty⟩
      exact ⟨none, none, query, looked, result, .inr ⟨rfl, empty⟩⟩
  | some proc =>
      rw [found] at looked
      have aliveProc := (orderly.live_of_getChild alive looked).1
      have member : proc ∈ kids bus := List.mem_of_find?_eq_some found
      rcases getenv_of_ancestry (ancestry_of_mem orderly root member) (lit "jid") with ⟨jid, env⟩
      rcases orderly.fromPath_leads aliveProc mem (noNul_pathOf noNul) with
        ⟨x, touched, walked, comes⟩
      have comes' : ∀ n, Comes mem h bus node n ↔ n = x := by
        intro n
        rw [comes n]
        constructor
        · rintro ⟨proc', leads, further⟩
          rw [leads_one_iff orderly alive, looked] at leads
          cases leads
          exact further
        · intro further
          exact ⟨proc, (leads_one_iff orderly alive _).mpr looked, further⟩
      have aliveX : h.live x = true := by
        rcases (comes x).mp rfl with led | ⟨rfl, -⟩
        · exact live_of_leads orderly aliveProc led
        · exact aliveProc
      have listed := siblings_sons orderly aliveX
      have result : ∃ query, getQueryResponse mem h (some proc) item (some node) = .ok query ∧
          query.children = (kids x).map (itemOf h jid) := by
        unfold getQueryResponse
        rw [env, ok_bind]
        dsimp only
        rw [walked, ok_bind, ok_bind, ← bind_assoc, listed, ok_bind]
        exact ⟨_, rfl, rfl⟩
      rcases result with ⟨query, result, children⟩
      exact ⟨some proc, jid, query, looked, result, .inl ⟨x, comes', aliveX, children⟩⟩

theorem exists_iqAttrs (object : h.Ancestry o above) : ∃ msg, iqAttrs h o = .ok msg := by
  rcases getenv_of_ancestry object (lit "jid") with ⟨jid, jid_eq⟩
  rcases getenv_of_ancestry object (lit "from") with ⟨sender, sender_eq⟩
  rcases getenv_of_ancestry object (lit "id") with ⟨id, id_eq⟩
  unfold iqAttrs
  rw [jid_eq, ok_bind, sender_eq, ok_bind, id_eq, ok_bind]
  exact ⟨_, rfl⟩

theorem not_info_of_items {text : Text} (items : eqText text (lit "items") = true) :
    eqText text (lit "info") = false := by
  rw [eqText, decide_eq_true_eq] at items
  rw [eqText, items]
  decide

/-- The part of the handler that only a query for items gets to. -/
theorem queryOnAssign_of_items (asks : AsksItems attrs) (bus_eq : h.bus o = some bus)
    (object : h.Ancestry o above) : ∃ msg item, queryOnAssign mem h o attrs =
      (h.getChild (some bus) (some (lit "__proc")) >>= fun procdir =>
        getQueryResponse mem h procdir item (getattr (lit "node") attrs) >>= fun query =>
          .ok (some ⟨msg, query⟩)) := by
  rcases asks with ⟨ns, found, ns_eq, found_eq, items⟩
  rcases exists_iqAttrs object with ⟨msg, msg_eq⟩
  refine ⟨msg, found.tail, ?_⟩
  unfold queryOnAssign
  rw [ns_eq, Option.bind_some, found_eq, Option.map_some]
  dsimp only
  rw [if_neg (by simp [not_info_of_items items]), if_pos items, msg_eq, ok_bind, bus_eq]

/-- A query that is not for items is handled. -/
theorem exists_sent_of_not_items (asks : ¬AsksItems attrs) (object : h.Ancestry o above) :
    ∃ sent, queryOnAssign mem h o attrs = .ok sent := by
  rcases exists_iqAttrs object with ⟨msg, msg_eq⟩
  unfold queryOnAssign
  cases ns_eq : getattr (lit "xmlns") attrs with
  | none => exact ⟨none, rfl⟩
  | some ns =>
      cases found_eq : strchr ns (ch '#') with
      | none =>
          rw [Option.bind_some, found_eq]
          exact ⟨none, rfl⟩
      | some found =>
          rw [Option.bind_some, found_eq, Option.map_some]
          dsimp only
          split
          · cases getattr (lit "node") attrs with
            | none => exact ⟨none, rfl⟩
            | some node =>
                dsimp only
                rw [msg_eq, ok_bind]
                exact ⟨_, rfl⟩
          · split
            · next items => exact absurd ⟨ns, found, ns_eq, found_eq, items⟩ asks
            · exact ⟨none, rfl⟩

theorem not_getQueryResponse_absent {procdir : Option Addr} {query : Query} :
    getQueryResponse mem h procdir item none ≠ .ok query := by
  intro result
  rcases bind_eq_ok_iff.mp result with ⟨jid, -, fault⟩
  cases fault

/-- The sons of the object that the lookups come to are those of the right one exactly if it is
the right one or there are none. -/
theorem listed_iff (orderly : h.Orderly kids) (alive : h.live bus = true) (aliveX : h.live x = true)
    (jid : Option Text) :
    (∃ jid', (∀ n l, Stands h bus node n → h.Children n l →
        (kids x).map (itemOf h jid) = l.map (itemOf h jid')) ∧
      ((∀ n, ¬Stands h bus node n) → (kids x).map (itemOf h jid) = [])) ↔
    Stands h bus node x ∨ h.sons x = none ∧ ∀ n, Stands h bus node n → h.sons n = none := by
  constructor
  · rintro ⟨jid', all, nothing⟩
    by_cases somewhere : ∃ n, Stands h bus node n
    · rcases somewhere with ⟨n, stands⟩
      have aliveN := stands.live alive
      have same := map_itemOf_inj (all n (kids n) stands (orderly.rep.children aliveN))
      rcases eq_of_kids_eq orderly aliveX aliveN same with rfl | empty
      · exact .inl stands
      · refine .inr ⟨(kids_eq_nil_iff orderly aliveX).mp empty, fun n' stands' => ?_⟩
        rw [stands'.unique stands, ← kids_eq_nil_iff orderly aliveN, ← same]
        exact empty
    · have empty := nothing fun n stands => somewhere ⟨n, stands⟩
      refine .inr ⟨(kids_eq_nil_iff orderly aliveX).mp (List.map_eq_nil_iff.mp empty), ?_⟩
      exact fun n stands => absurd ⟨n, stands⟩ somewhere
  · rintro (stands | ⟨childless, others⟩)
    · refine ⟨jid, fun n l stands' children => ?_, fun nobody => absurd stands (nobody x)⟩
      rw [stands'.unique stands] at children
      rw [children.path.unique (orderly.rep.path x aliveX)]
    · have empty := (kids_eq_nil_iff orderly aliveX).mpr childless
      refine ⟨jid, fun n l stands' children => ?_, fun _ => by rw [empty, List.map_nil]⟩
      have path := children.path
      rw [others n stands'] at path
      rw [empty, path.unique (show Links.Path h.sibling none [] none from rfl)]

/-- **Service discovery.**  A query is answered with exactly the sons of the object that its node
stands for, if it is for items, exactly if it has a node that is found. -/
theorem answers_iff (orderly : h.Orderly kids) (bus_eq : h.bus o = some bus)
    (object : h.Ancestry o above) (root : h.Ancestry bus busAbove)
    (noNul : ∀ node, getattr (lit "node") attrs = some node → 0 ∉ node) :
    Answers mem h bus o attrs ↔ Findable mem h bus attrs := by
  unfold Answers Findable
  by_cases asks : AsksItems attrs
  · simp only [asks, true_implies]
    rcases @queryOnAssign_of_items mem h bus o attrs above asks bus_eq object with
      ⟨msg, item, handled⟩
    have alive : h.live bus = true := root.alive bus List.mem_cons_self
    rw [handled]
    cases given : getattr (lit "node") attrs with
    | none =>
        simp only [reduceCtorEq, false_and, exists_false, iff_false]
        rintro ⟨sent, result, -⟩
        rcases bind_eq_ok_iff.mp result with ⟨procdir, -, later⟩
        rcases bind_eq_ok_iff.mp later with ⟨query, absent, -⟩
        exact not_getQueryResponse_absent absent
    | some node =>
        rcases @getQueryResponse_spec mem h kids bus node item busAbove orderly root
          (noNul node given) with ⟨procdir, jid, query, looked, result, listed⟩
        rw [looked, ok_bind, result, ok_bind]
        simp only [Option.some.injEq, forall_eq', exists_eq_left', Except.ok.injEq,
          exists_and_left]
        rcases listed with ⟨x, comes, aliveX, children⟩ | ⟨rfl, empty⟩
        · rw [children]
          simp only [comes, forall_eq]
          exact listed_iff orderly alive aliveX jid
        · have nowhere : ∀ proc, ¬Leads h bus [lit "__proc"] proc := by
            intro proc leads
            rw [leads_one_iff orderly alive, looked] at leads
            cases leads
          have nobody : ∀ n, ¬Stands h bus node n := by
            intro n stands
            rcases exists_leads_of_names orderly alive stands with ⟨proc, leads⟩
            exact nowhere proc leads
          refine iff_of_true ⟨none, fun n l stands => absurd stands (nobody n), fun _ => empty⟩ ?_
          rintro x ⟨proc, leads, -⟩
          exact absurd leads (nowhere proc)
  · rcases @exists_sent_of_not_items mem h o attrs above asks object with ⟨sent, handled⟩
    exact iff_of_true ⟨sent, handled, fun items => absurd items asks⟩ fun items => absurd items asks

/-! ## A bus with one codec -/

/-- A bus with `__proc`, the object `audio` below that, and the query. -/
def discoverable : Except Fault Heap :=
  ((newObjects [lit "query", lit "audio", lit "__proc", lit "bus"]).setBus 0 (some 0)).execAll
    [.appendChild 0 1, .appendChild 1 2, .appendChild 0 3]

theorem orderly_discoverable : ∃ h kids, discoverable = .ok h ∧ h.Orderly kids := by
  rcases orderly_newObjects [lit "query", lit "audio", lit "__proc", lit "bus"] with
    ⟨kids, orderly⟩
  have withBus : ((newObjects [lit "query", lit "audio", lit "__proc", lit "bus"]).setBus 0
      (some 0)).Orderly kids :=
    ⟨⟨orderly.rep.path, orderly.rep.mem, orderly.rep.count, orderly.rep.loose⟩,
      orderly.allocated, ⟨orderly.chained.path, orderly.chained.loose⟩⟩
  rcases @Orderly.appendChild _ kids 0 1 withBus rfl rfl rfl with
    ⟨h₁, first, orderly₁, -, live₁, -, parent₁⟩
  rcases @Orderly.appendChild h₁ _ 1 2 orderly₁ (by rw [live₁]; rfl) (by rw [live₁]; rfl)
    (by rw [parent₁ 2 rfl]; rfl) with ⟨h₂, second, orderly₂, -, live₂, -, parent₂⟩
  rcases @Orderly.appendChild h₂ _ 0 3 orderly₂ (by rw [live₂, live₁]; rfl)
    (by rw [live₂, live₁]; rfl)
    (by rw [parent₂ 3 (by rw [live₁]; rfl), Function.update_of_ne (by decide), parent₁ 3 rfl]; rfl)
    with ⟨h₃, third, orderly₃, -⟩
  refine ⟨h₃, _, ?_, orderly₃⟩
  simp only [discoverable, execAll, exec, first, ok_bind, second, third]

/-- A query for the items of a node. -/
def itemsOf (node : String) : AttrList :=
  [(lit "xmlns", lit "http://jabber.org/protocol/disco#items"), (lit "node", lit node)]

/-- A NUL stands behind every copy. -/
theorem answers_iff_proc : ∃ h, discoverable = .ok h ∧
    (Answers (.filled 0) h 0 3 (itemsOf "audio") ↔ Findable (.filled 0) h 0 (itemsOf "audio")) := by
  rcases orderly_discoverable with ⟨h, kids, built, orderly⟩
  rcases (⟨_, rfl, rfl, ⟨rfl, rfl, rfl⟩, ⟨rfl, rfl⟩, rfl, rfl⟩ : ∃ h, discoverable = .ok h ∧
      h.bus 3 = some 0 ∧ Links.Path h.parent (some 3) [3, 0] none ∧
        Links.Path h.parent (some 0) [0] none ∧ h.live 0 = true ∧ h.live 3 = true) with
    ⟨h', built', bus_eq, path, root, bus, query⟩
  rw [built] at built'
  cases built'
  refine ⟨h, built, answers_iff orderly bus_eq ⟨path, by simp [bus, query]⟩
    ⟨root, by simp [bus]⟩ ?_⟩
  intro node given
  cases given
  decide

/-- Without a node the NULL is compared; a path that leads nowhere is answered with the sons of
`__proc`. -/
theorem not_answers_absent : ∃ h, discoverable = .ok h ∧
    queryOnAssign (.filled 0) h 3 [(lit "xmlns", lit "http://jabber.org/protocol/disco#items")] =
      .error .segv ∧
    ¬Answers (.filled 0) h 0 3 [(lit "xmlns", lit "http://jabber.org/protocol/disco#items")] ∧
    (queryOnAssign (.filled 0) h 3 (itemsOf "video")).map
      (fun sent => sent.map fun iq => iq.query.children.map Child.object) =
        .ok (some [some 2]) := by
  have computed : (discoverable >>= fun h => queryOnAssign (.filled 0) h 3
      [(lit "xmlns", lit "http://jabber.org/protocol/disco#items")]) = .error .segv := by
    decide +kernel
  have listed : (discoverable >>= fun h => (queryOnAssign (.filled 0) h 3 (itemsOf "video")).map
      (fun sent => sent.map fun iq => iq.query.children.map Child.object)) =
        .ok (some [some 2]) := by
    decide +kernel
  rcases orderly_discoverable with ⟨h, kids, built, -⟩
  rw [built, ok_bind] at computed listed
  refine ⟨h, built, computed, ?_, listed⟩
  rintro ⟨sent, result, -⟩
  rw [computed] at result
  cases result

end Xwbot.Disco
