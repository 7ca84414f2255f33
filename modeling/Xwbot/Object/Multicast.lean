import Xwbot.Object.References

/-!
# Messages to all listeners

`x_object_sendmsg_multicast` walks a list while the callbacks of the listeners it reaches
change that list.  What it does is compared with the walk that it should be: a list of
listeners who are still to be reached, from which a callback can only take some away.
-/

namespace Xwbot

open Links Runs

/-- A listener is unsubscribed before it has got the message. -/
def RemovedBefore (x : Addr) (log : List (Addr × List ListenerCall)) (y : Addr) : Prop :=
  ∃ before turn behind, log = before ++ turn :: behind ∧ .unsubscribe x y ∈ turn.2 ∧
    y ∉ (before ++ [turn]).map Prod.fst

/-- The message was delivered exactly once to each listener who had not been unsubscribed
before its turn, and to nobody else; each listener did what its callback does. -/
structure Delivered (rx : Rx) (x : Addr) (listeners : List Addr)
    (log : List (Addr × List ListenerCall)) : Prop where
  once : (log.map Prod.fst).Nodup
  receivers : ∀ y, y ∈ log.map Prod.fst ↔ y ∈ listeners ∧ ¬RemovedBefore x log y
  behaviour : ∀ n turn, log[n]? = some turn → turn.2 = rx n turn.1

/-! ## The walk as it should be -/

/-- The listeners that a callback does not unsubscribe. -/
def staying (x : Addr) (calls : List ListenerCall) (pending : List Addr) : List Addr :=
  pending.filter fun y => .unsubscribe x y ∉ calls

theorem length_staying_le (x : Addr) (calls : List ListenerCall) (pending : List Addr) :
    (staying x calls pending).length ≤ pending.length :=
  List.length_filter_le ..

/-- Who gets the message, and what each callback does, from the n-th turn on. -/
def turns (rx : Rx) (x : Addr) (n : Nat) : List Addr → List (Addr × List ListenerCall)
  | [] => []
  | l :: rest => (l, rx n l) :: turns rx x (n + 1) (staying x (rx n l) rest)
  termination_by pending => pending.length
  decreasing_by
    exact Nat.lt_succ_of_le (length_staying_le ..)

section Turns

variable {rx : Rx} {x y l : Addr} {n : Nat} {pending : List Addr}
  {log : List (Addr × List ListenerCall)} {turn : Addr × List ListenerCall}

theorem removedBefore_cons : RemovedBefore x (turn :: log) y ↔
    y ≠ turn.1 ∧ (.unsubscribe x y ∈ turn.2 ∨ RemovedBefore x log y) := by
  constructor
  · rintro ⟨before, turn', behind, split, removed, notYet⟩
    cases before with
    | nil =>
        cases split
        exact ⟨by simpa using notYet, .inl removed⟩
    | cons first before =>
        cases split
        simp only [List.cons_append, List.map_cons, List.mem_cons, not_or] at notYet
        exact ⟨notYet.1, .inr ⟨before, turn', behind, rfl, removed, notYet.2⟩⟩
  · rintro ⟨other, removed | ⟨before, turn', behind, rfl, removed, notYet⟩⟩
    · exact ⟨[], turn, log, rfl, removed, by simpa using other⟩
    · refine ⟨turn :: before, turn', behind, rfl, removed, ?_⟩
      simp only [List.cons_append, List.map_cons, List.mem_cons, not_or]
      exact ⟨other, notYet⟩

theorem mem_of_mem_turns (member : y ∈ (turns rx x n pending).map Prod.fst) : y ∈ pending := by
  induction n, pending using turns.induct rx x with
  | case1 n => simp [turns] at member
  | case2 n l rest ih =>
      rw [turns, List.map_cons, List.mem_cons] at member
      rcases member with rfl | member
      · exact List.mem_cons_self
      · exact List.mem_cons_of_mem _ (List.mem_filter.mp (ih member)).1

theorem delivered_turns (nodup : pending.Nodup) :
    ((turns rx x n pending).map Prod.fst).Nodup ∧
      (∀ y, y ∈ (turns rx x n pending).map Prod.fst ↔
        y ∈ pending ∧ ¬RemovedBefore x (turns rx x n pending) y) ∧
      ∀ k turn, (turns rx x n pending)[k]? = some turn → turn.2 = rx (n + k) turn.1 := by
  induction n, pending using turns.induct rx x with
  | case1 n => simp [turns]
  | case2 n l rest ih =>
      rw [List.nodup_cons] at nodup
      obtain ⟨once, receivers, behaviour⟩ := ih (nodup.2.filter _)
      rw [turns]
      refine ⟨?_, fun y => ?_, fun k turn found => ?_⟩
      · rw [List.map_cons, List.nodup_cons]
        refine ⟨fun member => nodup.1 ?_, once⟩
        exact (List.mem_filter.mp (mem_of_mem_turns member)).1
      · rw [List.map_cons, List.mem_cons, List.mem_cons, removedBefore_cons, receivers, staying,
          List.mem_filter, decide_eq_true_eq]
        by_cases here : y = l
        · simp [here]
        · simp only [here, false_or, ne_eq, not_false_eq_true, true_and, not_or]
          tauto
      · cases k with
        | zero =>
            cases found
            rfl
        | succ k =>
            rw [List.getElem?_cons_succ] at found
            rw [behaviour k turn found, Nat.add_right_comm, Nat.add_assoc]

end Turns

/-! ## What callbacks do to the cells ahead -/

namespace Objects

/-- The list of an object ends with these cells. -/
def Tail (w : Objects) (x : Addr) (ahead : List Cell) : Prop :=
  ∃ lists front, w.Ordered lists ∧ lists x = front ++ ahead

variable {w w' : Objects} {extra : Addr → Nat} {x y l : Addr} {p : Cell} {ahead : List Cell}

theorem Tail.allocated (tail : w.Tail x ahead) : ∀ c ∈ ahead, w.allocated c = true := by
  obtain ⟨lists, front, ordered, split⟩ := tail
  intro c member
  exact ordered.allocated x c (by simp [split, member])

theorem Tail.lt (tail : w.Tail x ahead) : ∀ c ∈ ahead, c < w.cells :=
  fun c member => w.allocated_lt c (tail.allocated c member)

theorem Tail.listening (tail : w.Tail x (p :: ahead)) : w.key p ∈ w.listening x := by
  obtain ⟨lists, front, ordered, split⟩ := tail
  rw [ordered.listening_eq, split]
  simp

theorem Tail.next (tail : w.Tail x (p :: ahead)) : w.next p = ahead.head? := by
  obtain ⟨lists, front, ordered, split⟩ := tail
  have path := ordered.path x
  rw [split] at path
  obtain ⟨c, -, -, behind⟩ := path_append.mp path
  cases ahead with
  | nil => exact behind
  | cons q rest => exact behind.1

theorem Tail.rest (tail : w.Tail x (p :: ahead)) : w.Tail x ahead := by
  obtain ⟨lists, front, ordered, split⟩ := tail
  exact ⟨lists, front ++ [p], ordered, by simp [split]⟩

/-- What changes in the cells ahead when calls are made: those of the listeners that are
unsubscribed are taken out and freed. -/
structure Passed (x : Addr) (calls : List ListenerCall) (w w' : Objects) : Prop where
  tail : ∀ ahead, w.Tail x ahead →
    w'.Tail x (ahead.filter fun c => .unsubscribe x (w.key c) ∉ calls)
  key : ∀ c, c < w.cells → w'.key c = w.key c
  cells : w.cells ≤ w'.cells
  /-- A cell that has been freed stays free. -/
  freed : ∀ c, c < w.cells → w.allocated c = false → w'.allocated c = false
  taken : ∀ p ahead, w.Tail x (p :: ahead) → .unsubscribe x (w.key p) ∈ calls →
    w'.allocated p = false

theorem Passed.nil (x : Addr) (w : Objects) : Passed x [] w w where
  tail ahead tail := by simpa using tail
  key _ _ := rfl
  cells := le_refl _
  freed _ _ dead := dead
  taken _ _ _ member := by cases member

/-- The heap is of no account. -/
theorem Passed.withHeap {calls : List ListenerCall} (passed : Passed x calls w w') (h : Heap) :
    Passed x calls w (w'.withHeap h) where
  tail ahead tail := by
    obtain ⟨lists, front, ordered, split⟩ := passed.tail ahead tail
    exact ⟨lists, front, ordered.withHeap h, split⟩
  key := passed.key
  cells := passed.cells
  freed := passed.freed
  taken := passed.taken

theorem Passed.trans {first second : List ListenerCall} {w₁ w₂ : Objects}
    (passed : Passed x first w w₁) (passed' : Passed x second w₁ w₂) :
    Passed x (first ++ second) w w₂ := by
  refine ⟨fun ahead tail => ?_, fun c alive => ?_, passed.cells.trans passed'.cells,
    fun c old dead => ?_, fun p ahead tail member => ?_⟩
  · have kept := passed'.tail _ (passed.tail ahead tail)
    rw [List.filter_filter] at kept
    convert kept using 1
    refine List.filter_congr fun c member => ?_
    rw [passed.key c (tail.lt c member)]
    simp only [List.mem_append, not_or, Bool.decide_and]
    exact Bool.and_comm _ _
  · rw [passed'.key c (alive.trans_le passed.cells), passed.key c alive]
  · exact passed'.freed c (old.trans_le passed.cells) (passed.freed c old dead)
  · have below := tail.lt p List.mem_cons_self
    by_cases earlier : .unsubscribe x (w.key p) ∈ first
    · exact passed'.freed p (below.trans_le passed.cells) (passed.taken p ahead tail earlier)
    · have later := (List.mem_append.mp member).resolve_left earlier
      have kept := passed.tail _ tail
      rw [List.filter_cons_of_pos (by simpa using earlier)] at kept
      rw [← passed.key p below] at later
      exact passed'.taken p _ kept later

/-- A new first cell is none of the cells ahead. -/
theorem Passed.pushCell (absent : l ∉ w.listening y) :
    Passed x [.subscribe y l] w (w.pushCell y l) := by
  refine ⟨fun ahead tail => ?_, fun c old => ?_, Nat.le_succ _, fun c old dead => ?_,
    fun p ahead tail member => ?_⟩
  · obtain ⟨lists, front, ordered, split⟩ := tail
    have stays : (ahead.filter fun c => .unsubscribe x (w.key c) ∉ [ListenerCall.subscribe y l]) =
        ahead := by simp
    rw [stays]
    by_cases here : x = y
    · subst here
      exact ⟨_, w.cells :: front, ordered.pushCell absent, by simp [split]⟩
    · exact ⟨_, front, ordered.pushCell absent, by rw [Function.update_of_ne here, split]⟩
  · rw [pushCell_key, Function.update_of_ne old.ne]
  · rw [pushCell_allocated, Function.update_of_ne old.ne]
    exact dead
  · simp at member

/-- The cell that is found is the one of the listener. -/
theorem Ordered.eq_of_findCell {lists : Addr → List Cell} (ordered : w.Ordered lists)
    (member : l ∈ w.listening y) {prev : Option Cell}
    (found : w.findCell y l = .ok (prev, some p)) :
    ∃ before behind, lists y = before ++ p :: behind ∧ prev = before.getLast? ∧ w.key p = l := by
  rw [ordered.listening_eq] at member
  obtain ⟨c, inside, same⟩ := List.mem_map.mp member
  obtain ⟨before, behind, split⟩ := List.append_of_mem inside
  rw [ordered.findCell_eq_some split same] at found
  cases found
  exact ⟨before, behind, split, rfl, same⟩

/-- The list without a cell is what is left when its listener is filtered out. -/
theorem Ordered.filter_eq {lists : Addr → List Cell} (ordered : w.Ordered lists)
    {before behind : List Cell} (split : lists y = before ++ p :: behind) :
    (lists y).filter (fun c => w.key c ≠ w.key p) = before ++ behind := by
  have keys := ordered.keys y
  rw [split, List.map_append, List.map_cons, List.nodup_append, List.nodup_cons] at keys
  obtain ⟨-, ⟨notBehind, -⟩, apart⟩ := keys
  rw [split, List.filter_append, List.filter_cons_of_neg (by simp)]
  congr 1
  · refine List.filter_eq_self.mpr fun c member => ?_
    exact decide_eq_true (apart _ (List.mem_map_of_mem member) _ List.mem_cons_self)
  · refine List.filter_eq_self.mpr fun c member => ?_
    exact decide_eq_true fun same => notBehind (same ▸ List.mem_map_of_mem member)

/-- The cell of a listener is taken out. -/
theorem Passed.without (without : Balance.Without w w' y l) :
    Passed x [.unsubscribe y l] w w' := by
  have calls : ∀ c, .unsubscribe x (w.key c) ∈ [ListenerCall.unsubscribe y l] ↔
      x = y ∧ w.key c = l := by simp
  rcases without with ⟨absent, rfl⟩ | ⟨present, prev, p, found, rfl⟩
  · refine ⟨fun ahead tail => ?_, fun _ _ => rfl, le_refl _, fun _ _ dead => dead,
      fun p ahead tail member => ?_⟩
    · obtain ⟨lists, front, ordered, split⟩ := tail
      refine ⟨lists, front, ordered, ?_⟩
      rw [List.filter_eq_self.mpr fun c member => ?_]
      · exact split
      · refine decide_eq_true fun call => absent ?_
        obtain ⟨rfl, rfl⟩ := (calls c).mp call
        rw [ordered.listening_eq, split]
        exact List.mem_map_of_mem (by simp [member])
    · obtain ⟨rfl, rfl⟩ := (calls p).mp member
      exact absurd tail.listening absent
  · refine ⟨fun ahead tail => ?_, fun _ _ => rfl, le_refl _, fun c old dead => ?_,
      fun q ahead tail member => ?_⟩
    · obtain ⟨lists, front, ordered, split⟩ := tail
      obtain ⟨before, behind, split', rfl, same⟩ := ordered.eq_of_findCell present found
      by_cases here : x = y
      · subst here
        have left := ordered.filter_eq split'
        rw [split, List.filter_append] at left
        refine ⟨_, front.filter fun c => w.key c ≠ w.key p, ordered.dropCell split', ?_⟩
        rw [Function.update_self, ← left]
        congr 1
        refine List.filter_congr fun c member => ?_
        rw [decide_eq_decide, calls, same]
        simp
      · refine ⟨_, front, ordered.dropCell split', ?_⟩
        rw [Function.update_of_ne here, List.filter_eq_self.mpr fun c member => ?_]
        · exact split
        · exact decide_eq_true fun call => here ((calls c).mp call).1
    · rw [freeCell_allocated, Function.update_apply]
      split
      · rfl
      · exact dead
    · obtain ⟨rfl, mine⟩ := (calls q).mp member
      obtain ⟨lists, front, ordered, split⟩ := tail
      obtain ⟨before, behind, split', rfl, same⟩ := ordered.eq_of_findCell present found
      have equal : q = p := by
        refine List.inj_on_of_nodup_map (ordered.keys x) ?_ ?_ (mine.trans same.symm)
        · simp [split]
        · simp [split']
      rw [equal, freeCell_allocated, Function.update_self]

end Objects

/-- The objects that a call uses are alive. -/
def ListenerCall.Live (w : Objects) : ListenerCall → Prop
  | subscribe xobj listener => w.heap.live xobj = true ∧ w.heap.live listener = true
  | unsubscribe xobj _ => w.heap.live xobj = true

instance (w : Objects) (call : ListenerCall) : Decidable (call.Live w) :=
  match call with
  | .subscribe xobj listener =>
      inferInstanceAs (Decidable (w.heap.live xobj = true ∧ w.heap.live listener = true))
  | .unsubscribe xobj _ => inferInstanceAs (Decidable (w.heap.live xobj = true))

namespace Objects

variable {w w' : Objects} {extra : Addr → Nat} {x : Addr}

/-- **A callback's calls** on live objects return, and no reference is lost by them. -/
theorem Balance.listenerCalls {calls : List ListenerCall} (balance : w.Balance extra)
    (live : Along ListenerCall.exec ListenerCall.Live w calls) :
    ∃ w' extra', run ListenerCall.exec w calls = .ok w' ∧ w'.Balance extra' ∧
      (∀ y, extra y ≤ extra' y) ∧ Passed x calls w w' := by
  induction calls generalizing w extra with
  | nil => exact ⟨w, extra, rfl, balance, fun _ => le_refl _, .nil x w⟩
  | cons call rest ih =>
      obtain ⟨w₁, extra₁, first, balance₁, more, passed⟩ : ∃ w₁ extra₁,
          ListenerCall.exec w call = .ok w₁ ∧ w₁.Balance extra₁ ∧ (∀ y, extra y ≤ extra₁ y) ∧
            Passed x [call] w w₁ := by
        cases call with
        | subscribe y l =>
            obtain ⟨aliveY, aliveL⟩ := live.1
            obtain ⟨h, subscribed, balance₁, -⟩ := balance.subscribe aliveY aliveL
            refine ⟨_, extra, subscribed, balance₁, fun _ => le_refl _, Passed.withHeap ?_ h⟩
            by_cases present : l ∈ w.listening y
            · rw [if_pos present]
              refine ⟨fun ahead tail => ?_, fun _ _ => rfl, le_refl _, fun _ _ dead => dead,
                fun _ _ _ member => by simp at member⟩
              simpa using tail
            · rw [if_neg present]
              exact Passed.pushCell present
        | unsubscribe y l =>
            obtain ⟨w₀, h, extra₁, without, unsubscribed, balance₁, more, -⟩ :=
              balance.unsubscribe (l := l) live.1
            exact ⟨_, extra₁, unsubscribed, balance₁, more, (Passed.without without).withHeap h⟩
      obtain ⟨w', extra', later, balance', more', passed'⟩ := ih balance₁ (live.2 w₁ first)
      refine ⟨w', extra', ?_, balance', fun y => (more y).trans (more' y), passed.trans passed'⟩
      rw [run_cons, first]
      exact later

/-- No callback of the walk passes an object that has been freed. -/
def CallbacksLive (rx : Rx) : Nat → Objects → Nat → Option Cell → Prop
  | fuel + 1, w, n, some p =>
      Along ListenerCall.exec ListenerCall.Live w (rx n (w.key p)) ∧
        ∀ w', run ListenerCall.exec w (rx n (w.key p)) = .ok w' →
          CallbacksLive rx fuel w' (n + 1) (w'.next p)
  | _, _, _, _ => True

instance decidableCallbacksLive (rx : Rx) :
    ∀ fuel w n start, Decidable (CallbacksLive rx fuel w n start)
  | 0, _, _, _ => .isTrue trivial
  | _ + 1, _, _, none => .isTrue trivial
  | fuel + 1, w, n, some p =>
      let later : Decidable (∀ w', run ListenerCall.exec w (rx n (w.key p)) = .ok w' →
          CallbacksLive rx fuel w' (n + 1) (w'.next p)) :=
        match run ListenerCall.exec w (rx n (w.key p)) with
        | .ok w' =>
            match decidableCallbacksLive rx fuel w' (n + 1) (w'.next p) with
            | .isTrue lives => .isTrue fun _ same => Except.ok.inj same ▸ lives
            | .isFalse stops => .isFalse fun all => stops (all w' rfl)
        | .error _ => .isTrue fun _ impossible => nomatch impossible
      @instDecidableAnd _ _ _ later

/-- The keys of the cells that are left. -/
theorem Passed.keys {calls : List ListenerCall} {ahead : List Cell}
    (passed : Passed x calls w w') (tail : w.Tail x ahead) :
    (ahead.filter fun c => .unsubscribe x (w.key c) ∉ calls).map w'.key =
      staying x calls (ahead.map w.key) := by
  rw [staying, List.filter_map]
  refine List.map_congr_left fun c member => ?_
  exact passed.key c (tail.lt c (List.mem_filter.mp member).1)

/-- **The walk.**  It goes through the listeners as it should until a callback takes the
cell of its own listener away; then it reads a cell that has been freed. -/
theorem Balance.multicastLoop {rx : Rx} {fuel : Nat} {log : List (Addr × List ListenerCall)}
    {ahead : List Cell} (balance : w.Balance extra) (held : 0 < extra x) (tail : w.Tail x ahead)
    (enough : ahead.length ≤ fuel) (live : CallbacksLive rx fuel w log.length ahead.head?) :
    ((∀ turn ∈ turns rx x log.length (ahead.map w.key), .unsubscribe x turn.1 ∉ turn.2) →
      ∃ w', Objects.multicastLoop rx fuel w log ahead.head? =
        .ok (w', log ++ turns rx x log.length (ahead.map w.key))) ∧
    ((∃ turn ∈ turns rx x log.length (ahead.map w.key), .unsubscribe x turn.1 ∈ turn.2) →
      Objects.multicastLoop rx fuel w log ahead.head? = .error .freed) := by
  induction fuel generalizing w extra ahead log with
  | zero =>
      obtain rfl : ahead = [] := List.eq_nil_of_length_eq_zero (Nat.le_zero.mp enough)
      constructor
      · intro _
        exact ⟨w, by simp [Objects.multicastLoop, turns]⟩
      · rintro ⟨turn, member, -⟩
        simp [turns] at member
  | succ fuel ih =>
      cases ahead with
      | nil =>
          constructor
          · intro _
            exact ⟨w, by simp [Objects.multicastLoop, turns]⟩
          · rintro ⟨turn, member, -⟩
            simp [turns] at member
      | cons p rest =>
          obtain ⟨here, later⟩ := live
          have aliveX := balance.extra_live x held
          have aliveL := balance.listener_live x _ aliveX tail.listening
          obtain ⟨w₁, extra₁, called, balance₁, more, passed⟩ := balance.listenerCalls (x := x) here
          have allocated := tail.allocated p List.mem_cons_self
          have once : Objects.multicastLoop rx (fuel + 1) w log (some p) =
              if w₁.allocated p then
                Objects.multicastLoop rx fuel w₁
                  (log ++ [(w.key p, rx log.length (w.key p))]) (w₁.next p)
              else .error .freed := by
            rw [Objects.multicastLoop, if_pos allocated, Heap.deref_of_live aliveL, ok_bind]
            dsimp only
            rw [called, ok_bind]
          rw [List.map_cons, turns, List.head?_cons, once]
          by_cases own : .unsubscribe x (w.key p) ∈ rx log.length (w.key p)
          · have gone := passed.taken p rest tail own
            constructor
            · intro keeps
              exact absurd own (keeps _ List.mem_cons_self)
            · intro _
              rw [gone, if_neg Bool.false_ne_true]
          · have kept := passed.tail _ tail
            rw [List.filter_cons_of_pos (by simpa using own)] at kept
            have keys := passed.keys tail.rest
            set left := rest.filter fun c => .unsubscribe x (w.key c) ∉ rx log.length (w.key p)
              with left_eq
            rw [kept.allocated p List.mem_cons_self, if_pos rfl, kept.next]
            have shorter : left.length ≤ fuel :=
              (List.length_filter_le _ rest).trans (Nat.le_of_succ_le_succ enough)
            have live₁ := later w₁ called
            rw [kept.next] at live₁
            have live₂ : CallbacksLive rx fuel w₁
                (log ++ [(w.key p, rx log.length (w.key p))]).length left.head? := by
              rw [List.length_append]
              exact live₁
            obtain ⟨delivers, fails⟩ := ih balance₁ (held.trans_le (more x)) kept.rest shorter live₂
            rw [List.length_append, List.length_singleton, keys] at delivers fails
            constructor
            · intro keeps
              obtain ⟨w', result⟩ := delivers fun turn member => keeps turn (by simp [member])
              exact ⟨w', by rw [result]; simp⟩
            · rintro ⟨turn, member, removed⟩
              rcases List.mem_cons.mp member with rfl | member
              · exact absurd removed own
              · exact fails ⟨turn, member, removed⟩

/-- The message reaches the listeners it should, and nothing else is touched. -/
def Multicasts (rx : Rx) (w : Objects) (x : Addr) : Prop :=
  ∃ w' log, multicast rx w x = .ok (w', log) ∧ Delivered rx x (w.listening x) log

/-- **Multicast delivery.**  In every state that calls lead to, the message is delivered to
each listener who is subscribed at the start and not removed before its turn, exactly once,
if and only if no listener that it reaches is unsubscribed by its own callback. -/
theorem multicasts_iff_keepsOwn {rx : Rx} {calls : List ObjectCall}
    {s : Objects × (Addr → Nat)}
    (along : Along ObjectCall.step (fun s call => call.Owned s ∧ call.InTurn s) noObjects calls)
    (result : run ObjectCall.step noObjects calls = .ok s) (held : 0 < s.2 x)
    (live : CallbacksLive rx s.1.cells s.1 0 (s.1.listeners x)) :
    Multicasts rx s.1 x ↔
      ∀ turn ∈ turns rx x 0 (s.1.listening x), .unsubscribe x turn.1 ∉ turn.2 := by
  obtain ⟨extra, balance, backed⟩ := backed_of_run along result
  obtain ⟨lists, ordered⟩ := balance.ordered
  have tail : s.1.Tail x (lists x) := ⟨lists, [], ordered, rfl⟩
  have start : s.1.listeners x = (lists x).head? := by
    have path := ordered.path x
    cases split : lists x with
    | nil =>
        rw [split] at path
        exact path
    | cons p rest =>
        rw [split] at path
        exact path.1
  rw [start] at live
  have started : CallbacksLive rx s.1.cells s.1 ([] : List (Addr × List ListenerCall)).length
      (lists x).head? := live
  obtain ⟨delivers, fails⟩ := balance.multicastLoop (held.trans_le (backed x)) tail
    (ordered.length_le x) started
  rw [← ordered.listening_eq, ← start] at delivers fails
  constructor
  · rintro ⟨w', log, sent, -⟩ turn member removed
    rw [multicast, fails ⟨turn, member, removed⟩] at sent
    cases sent
  · intro keeps
    obtain ⟨w', sent⟩ := delivers keeps
    refine ⟨w', _, sent, ?_⟩
    have nodup : (s.1.listening x).Nodup := by
      rw [ordered.listening_eq]
      exact ordered.keys x
    obtain ⟨once, receivers, behaviour⟩ := @delivered_turns rx x 0 _ nodup
    refine ⟨once, receivers, fun k turn found => ?_⟩
    rw [behaviour k turn found, Nat.zero_add]

/-- Two listeners. -/
def audience : List ObjectCall :=
  [.create (lit "a"), .create (lit "b"), .create (lit "c"), .subscribe 0 1, .subscribe 0 2]

/-- The later listener unsubscribes the earlier one. -/
def jealous : Rx :=
  fun _ l => if l = 2 then [.unsubscribe 0 1] else []

theorem multicasts_iff_keepsOwn_jealous :
    ∃ s, run ObjectCall.step noObjects audience = .ok s ∧ Multicasts jealous s.1 0 := by
  have along : Along ObjectCall.step (fun s call => call.Owned s ∧ call.InTurn s) noObjects
      audience := by
    decide +kernel
  have lands : Lands (fun s => 0 < s.2 0 ∧
      CallbacksLive jealous s.1.cells s.1 0 (s.1.listeners 0) ∧ s.1.listening 0 = [2, 1])
      (fun _ => False) (run ObjectCall.step noObjects audience) := by
    decide +kernel
  obtain ⟨s, result, held, live, listening⟩ := lands_false_iff.mp lands
  refine ⟨s, result, (multicasts_iff_keepsOwn along result held live).mpr ?_⟩
  rw [listening]
  simp [turns, staying, jealous]

/-- A listener unsubscribes itself, as the Jingle object does. -/
def leaving : Rx :=
  fun _ l => [.unsubscribe 0 l]

/-- The cell of a listener that leaves is read behind its callback. -/
theorem not_multicasts_leaving :
    ∃ s, Along ObjectCall.step (fun s call => call.Owned s ∧ call.InTurn s) noObjects audience ∧
      run ObjectCall.step noObjects audience = .ok s ∧ 0 < s.2 0 ∧
      CallbacksLive leaving s.1.cells s.1 0 (s.1.listeners 0) ∧ ¬Multicasts leaving s.1 0 := by
  have along : Along ObjectCall.step (fun s call => call.Owned s ∧ call.InTurn s) noObjects
      audience := by
    decide +kernel
  have lands : Lands (fun s => 0 < s.2 0 ∧
      CallbacksLive leaving s.1.cells s.1 0 (s.1.listeners 0) ∧
        (multicast leaving s.1 0).map (fun _ => ()) = .error .freed)
      (fun _ => False) (run ObjectCall.step noObjects audience) := by
    decide +kernel
  obtain ⟨s, result, held, live, touched⟩ := lands_false_iff.mp lands
  refine ⟨s, along, result, held, live, ?_⟩
  rintro ⟨w', log, sent, -⟩
  rw [sent] at touched
  cases touched

end Objects

end Xwbot
