import Xwbot.Bus.Core

/-!
# What goes out on the connection

Whatever the bus does for a byte, it writes through the transport in place and
leaves the transport alone, except when the byte closes a `proceed` element: then
`xmpp_start_tls` comes first.
-/

namespace Xwbot

open Links Xwbot.Parser

/-- Something may have been written through the transport in place. -/
structure Wrote (b b' : Bus) : Prop where
  transport : b'.transport = b.transport
  log : ∃ new, b'.log = new ++ b.log ∧ ∀ e ∈ new, ∃ buf, e = .sent b.transport buf

namespace Wrote

/-- Nothing has been written. -/
theorem of_eq {b b' : Bus} (transport : b'.transport = b.transport) (log : b'.log = b.log) :
    Wrote b b' :=
  ⟨transport, [], log, by simp⟩

theorem refl (b : Bus) : Wrote b b :=
  of_eq rfl rfl

theorem trans {b b' b'' : Bus} (first : Wrote b b') (second : Wrote b' b'') : Wrote b b'' := by
  obtain ⟨transport, new, log_eq, sent⟩ := first
  obtain ⟨transport', new', log_eq', sent'⟩ := second
  refine ⟨transport'.trans transport, new' ++ new, by rw [log_eq', log_eq, List.append_assoc], ?_⟩
  intro e member
  rcases List.mem_append.mp member with member | member
  · rw [← transport]
    exact sent' e member
  · exact sent e member

end Wrote

theorem Frame.wrote {own : Option Addr} {b b' : Bus} (frame : Frame own b b') : Wrote b b' :=
  ⟨frame.transport, frame.log⟩

/-- The object of a callback survives it. -/
theorem Hook.live {ι : Type} (hook : Hook ι) (i : ι) {b : Bus} {o : Addr}
    (alive : b.heap.live o = true) : (hook.run i b o).heap.live o = true := by
  rw [((hook.frame i b o alive).stays o (.inr ⟨o, .inr rfl, .refl⟩) alive).live, alive]

theorem Hook.wrote {ι : Type} (hook : Hook ι) (i : ι) {b : Bus} {o : Addr}
    (alive : b.heap.live o = true) : Wrote b (hook.run i b o) :=
  (hook.frame i b o alive).wrote

namespace Env

variable {env : Env} {m : Memory} {b b' : Bus} {s s' : PushParser × Bus} {o : Addr}

theorem wrote_newNsMatch {pName ns : Text} {hints : AttrList}
    (result : env.newNsMatch b pName ns hints = .ok (b', o)) :
    Wrote b b' ∧ b'.heap.live o = true := by
  rcases (env.newNsMatch_eq_ok_iff).mp result with ⟨-, made⟩
  cases made
  let b₁ : Bus := { b with
    heap := (b.heap.alloc (objectName pName) (env.getClass (objectName pName) ns hints)).1 }
  have alive : b₁.heap.live b.heap.top = true := Function.update_self ..
  have wrote := Hook.wrote (env.classOf b₁.heap b.heap.top).onCreate () alive
  exact ⟨⟨wrote.transport, wrote.log⟩, Hook.live _ () alive⟩

theorem wrote_appendChild {parent child : Addr} (result : env.appendChild b parent child = .ok b') :
    Wrote b b' ∧ b'.heap.live child = true := by
  unfold appendChild at result
  obtain ⟨h, appended, behindAppend⟩ := bind_eq_ok_iff.mp result
  obtain ⟨-, alive, placed⟩ := Heap.appended_of_appendChildNoCb appended
  rw [← placed.live] at alive
  obtain ⟨-, -, behindIndex⟩ := bind_eq_ok_iff.mp behindAppend
  obtain ⟨h', notified, done⟩ := bind_eq_ok_iff.mp behindIndex
  obtain ⟨h'', notified', agree, -⟩ := Heap.notify_eq_ok _
  rw [notified] at notified'
  cases notified'
  cases done
  let b₁ : Bus := { b with heap := h }
  have alive₁ := Hook.live (env.classOf b₁.heap parent).onChildAppend () (b := b₁) alive
  have first := Hook.wrote (env.classOf b₁.heap parent).onChildAppend () (b := b₁) alive
  let b₂ := (env.classOf b₁.heap parent).onChildAppend.run () b₁ child
  have alive₂ := Hook.live (env.classOf b₂.heap child).onAppend () (b := b₂) alive₁
  have second := Hook.wrote (env.classOf b₂.heap child).onAppend () (b := b₂) alive₁
  let b₃ := (env.classOf b₂.heap child).onAppend.run () b₂ child
  have third := Hook.wrote env.pathListeners () (b := b₃) alive₂
  refine ⟨?_, ?_⟩
  · have start : Wrote b b₁ := .of_eq rfl rfl
    have before := start.trans (first.trans (second.trans third))
    exact ⟨before.transport, before.log⟩
  · rw [agree.live]
    exact Hook.live env.pathListeners () alive₂

/-- A reset writes through the transport in place. -/
theorem wrote_resetStream (result : env.resetStream m s = .ok s') : Wrote s.2 s'.2 := by
  unfold resetStream at result
  obtain ⟨old, -, behindLookup⟩ := bind_eq_ok_iff.mp result
  obtain ⟨h, -, behindPut⟩ := bind_eq_ok_iff.mp behindLookup
  obtain ⟨⟨b₁, streamo⟩, created, behindNew⟩ := bind_eq_ok_iff.mp behindPut
  obtain ⟨b₂, appended, done⟩ := bind_eq_ok_iff.mp behindNew
  cases done
  have first := (wrote_newNsMatch created).1
  have second := (wrote_appendChild appended).1
  have before : Wrote s.2 b₁ := ⟨first.transport, first.log⟩
  exact before.trans ⟨second.transport, second.log⟩

/-- What `x_object_find` returns is live. -/
theorem live_of_objectFind {h : Heap} {starto : Option Addr} {hints : AttrList}
    (result : env.objectFind h starto hints = .ok (some o)) : h.live o = true := by
  unfold objectFind at result
  obtain ⟨⟨before, found⟩, walked, behind⟩ := bind_eq_ok_iff.mp result
  obtain ⟨l, passes, -⟩ := Heap.passes_of_follow walked
  cases found with
  | none => cases behind
  | some o' =>
      obtain ⟨answer, -, same⟩ := bind_eq_ok_iff.mp behind
      cases same
      exact passes.live_of_found o rfl

theorem wrote_enter {attrs : AttrList} (alive : b.heap.live o = true) :
    Wrote b (env.enter b o attrs) := by
  have wrote : Wrote { b with rObj := some o } (env.enter b o attrs) :=
    Hook.wrote _ attrs (b := { b with rObj := some o }) alive
  exact ⟨wrote.transport, wrote.log⟩

theorem wrote_instantiate {name : Option Text} {ns : Text} {attrs : AttrList}
    (result : env.instantiate b name ns attrs = .ok b') : Wrote b b' := by
  unfold instantiate at result
  cases name with
  | none =>
      cases result
      exact .refl b
  | some name =>
      obtain ⟨⟨b₁, o⟩, created, behindNew⟩ := bind_eq_ok_iff.mp result
      obtain ⟨first, -⟩ := wrote_newNsMatch created
      cases focus : b₁.rObj with
      | none =>
          simp only [focus] at behindNew
          cases behindNew
          exact first
      | some r =>
          simp only [focus] at behindNew
          obtain ⟨b₂, appended, done⟩ := bind_eq_ok_iff.mp behindNew
          cases done
          obtain ⟨second, alive⟩ := wrote_appendChild appended
          exact first.trans (second.trans (wrote_enter alive))

/-- Opening an element. -/
theorem wrote_objopen {name : Option Text} (result : env.objopen name s = .ok s') :
    Wrote s.2 s'.2 := by
  unfold objopen at result
  cases name with
  | none => cases result
  | some name =>
      obtain ⟨b', opened, done⟩ := bind_eq_ok_iff.mp result
      cases done
      suffices wrote : Wrote (s.2.declare (QName.split name) s.1.attrs).1 b' from
        ⟨wrote.transport, wrote.log⟩
      unfold openElement at opened
      obtain ⟨ns, -, behindNs⟩ := bind_eq_ok_iff.mp opened
      obtain ⟨cut, -, behindCut⟩ := bind_eq_ok_iff.mp behindNs
      obtain ⟨start, -, behindChild⟩ := bind_eq_ok_iff.mp behindCut
      obtain ⟨found, findEq, behindFind⟩ := bind_eq_ok_iff.mp behindChild
      cases found with
      | some o =>
          cases behindFind
          exact wrote_enter (live_of_objectFind findEq)
      | none => exact wrote_instantiate behindFind

/-- The byte closes a `proceed` element. -/
def Proceeds (env : Env) (m : Memory) (s : PushParser × Bus) (c : Byte) : Prop :=
  ∃ o, closesAt m s c = some o ∧ (env.classOf s.2.heap o).commit = .tlsExit ∧
    eqText (s.2.heap.name o) (lit "proceed") = true

/-- The end of an element that is not the bus: only a `proceed` element makes a
handshake. -/
theorem wrote_lostFocus (alive : s.2.heap.live o = true) (notBus : o ≠ s.2.self)
    (result : env.lostFocus m s o = .ok s') :
    Wrote s.2 s'.2 ∨ (env.classOf s.2.heap o).commit = .tlsExit ∧
      eqText (s.2.heap.name o) (lit "proceed") = true ∧ Wrote (env.startTls s.2) s'.2 := by
  unfold lostFocus at result
  rw [if_neg notBus] at result
  cases commit : (env.classOf s.2.heap o).commit with
  | call run frame =>
      simp only [commit] at result
      have called := (frame s.2 o alive).wrote
      split at result
      · exact .inl (called.trans (wrote_resetStream result))
      · cases result
        exact .inl called
  | tlsExit =>
      simp only [commit, tlsExit] at result
      split at result
      · next proceed =>
          split at result
          · cases result
          · exact .inr ⟨rfl, proceed, wrote_resetStream result⟩
      · split at result
        · cases result
          exact .inl (.refl s.2)
        · split at result
          · cases result
            exact .inl (.refl s.2)
          · cases result

/-- The handshake does not look at the focus. -/
theorem wrote_startTls_rObj {r : Option Addr}
    (wrote : Wrote (env.startTls { b with rObj := r }) b') :
    Wrote (env.startTls b) b' := by
  obtain ⟨transport, log⟩ := wrote
  unfold startTls at transport log ⊢
  cases answer : xmppStartTls (env.ssl (handshakes b.log)) with
  | none =>
      simp only [answer] at transport log
      exact ⟨transport, log⟩
  | some t =>
      simp only [answer] at transport log
      exact ⟨transport, log⟩

/-- Closing an element. -/
theorem wrote_objclose {name : Option Text} (notBus : s.2.closing name ≠ some s.2.self)
    (result : env.objclose m name s = .ok s') :
    Wrote s.2 s'.2 ∨ ∃ o, s.2.closing name = some o ∧
      (env.classOf s.2.heap o).commit = .tlsExit ∧ eqText (s.2.heap.name o) (lit "proceed") = true ∧
        Wrote (env.startTls s.2) s'.2 := by
  unfold objclose at result
  cases name with
  | none => cases result
  | some name =>
      unfold closeElement at result
      obtain ⟨ns, -, behindNs⟩ := bind_eq_ok_iff.mp result
      cases name_eq : (QName.split name).name with
      | none =>
          simp only [name_eq] at behindNs
          cases behindNs
      | some ownName =>
          simp only [name_eq] at behindNs
          obtain ⟨o, found, behindFocus⟩ := bind_eq_ok_iff.mp behindNs
          cases focus : s.2.rObj with
          | none =>
              rw [focus] at found
              cases found
          | some r =>
              rw [focus] at found
              obtain ⟨alive, same⟩ := Heap.deref_eq_ok_iff.mp found
              subst same
              split at behindFocus
              · next fits =>
                  have closing : s.2.closing (some name) = some o := by
                    simp [Bus.closing, name_eq, focus, fits]
                  have other : o ≠ s.2.self := fun same => notBus (by rw [closing, same])
                  rcases wrote_lostFocus (s := (s.1, { s.2 with rObj := s.2.heap.parent o })) alive
                    other behindFocus with wrote | ⟨commit, proceed, wrote⟩
                  · exact .inl ⟨wrote.transport, wrote.log⟩
                  · exact .inr ⟨o, closing, commit, proceed, wrote_startTls_rObj wrote⟩
              · cases behindFocus
                exact .inl (.refl s.2)

/-- **One byte.**  Unless it closes the bus, a byte that closes no `proceed` element
leaves the transport in place and writes through it; the others do so after the
handshake. -/
theorem wrote_step {c : Byte} (notBus : closesAt m s c ≠ some s.2.self)
    (result : env.step m s c = .ok s') :
    Wrote s.2 s'.2 ∨ env.Proceeds m s c ∧ Wrote (env.startTls s.2) s'.2 := by
  unfold step putChar at result
  obtain ⟨out, dispatched, behindDispatch⟩ := bind_eq_ok_iff.mp result
  obtain ⟨s₁, performed, done⟩ := bind_eq_ok_iff.mp behindDispatch
  cases done
  cases call : out.call with
  | none =>
      rw [call] at performed
      cases performed
      exact .inl (.refl s.2)
  | xobjopen =>
      rw [call] at performed
      have wrote := @wrote_objopen env (out.parser, s.2) _ _ performed
      exact .inl wrote
  | xputchar c =>
      rw [call] at performed
      obtain ⟨o, -, stored⟩ := bind_eq_ok_iff.mp performed
      cases stored
      exact .inl (.of_eq rfl rfl)
  | xobjclose =>
      rw [call] at performed
      have closesAt_eq : closesAt m s c = s.2.closing (out.parser.r0.cstr m) := by
        simp only [closesAt, dispatched, call, if_true]
      rw [closesAt_eq] at notBus
      rcases wrote_objclose (s := (out.parser, s.2)) notBus performed with
        wrote | ⟨o, closing, commit, proceed, wrote⟩
      · exact .inl wrote
      · exact .inr ⟨⟨o, closesAt_eq.trans closing, commit, proceed⟩, wrote⟩

end Env

end Xwbot
