import Xwbot.Bus.Connection

/-!
# The switch to TLS

Two properties of the moment at which `<proceed/>` arrives.  No byte that came
through the socket is parsed once the TLS transport is in place, provided that
the read which brings the element ends with it: the loop of
`__x_bus_on_signal_data` gives the rest of the read to the parser all the same.
And nothing is written to the socket afterwards, provided that the handshake
succeeds: `tls_exit` resets the stream in any case.
-/

namespace Xwbot

open Xwbot.Parser Xwbot.Runs

variable {env : Env} {m : Memory} {s s' : PushParser × Bus}

theorem transport_startTls (env : Env) (b : Bus) : (env.startTls b).transport =
    (xmppStartTls (env.ssl (handshakes b.log))).getD b.transport := by
  unfold Env.startTls
  dsimp only
  split
  · next found => rw [found]; rfl
  · next found => rw [found]; rfl

theorem log_startTls (env : Env) (b : Bus) : (env.startTls b).log =
    .handshake (xmppStartTls (env.ssl (handshakes b.log))).isSome :: b.log := by
  unfold Env.startTls
  dsimp only
  split <;> rfl

theorem xmppStartTls_eq_some {ssl : Handshake} {t : Transport}
    (established : xmppStartTls ssl = some t) : t = .tls := by
  unfold xmppStartTls at established
  split at established
  · cases established
  · split at established
    · cases established
    · exact (Option.some.inj established).symm

/-! ## Bytes from the socket -/

/-- What one call of the transport's `rd` returns. -/
def SocketRead : Type :=
  { buf : List Byte // buf ≠ [] ∧ buf.length ≤ 255 }

/-- The bytes of a read that went through the socket are parsed before the TLS transport
is in place. -/
def NoInjection (env : Env) (m : Memory) (s : PushParser × Bus) (reads : List SocketRead) : Prop :=
  Along (fun s (read : SocketRead) => env.onRead m s read.1)
    (fun s read => s.2.transport = .plain →
      Along (env.step m) (fun s' _ => s'.2.transport = .plain) s read.1) s reads

/-- The byte neither closes the bus nor closes a `proceed` element with a handshake that
succeeds. -/
def StaysPlain (env : Env) (m : Memory) (s : PushParser × Bus) (c : Byte) : Prop :=
  closesAt m s c ≠ some s.2.self ∧
    (env.Proceeds m s c → xmppStartTls (env.ssl (handshakes s.2.log)) = none)

/-- In every read through the socket, at most the last byte switches the transport. -/
def SwitchesLast (env : Env) (m : Memory) (s : PushParser × Bus) (reads : List SocketRead) : Prop :=
  Along (fun s (read : SocketRead) => env.onRead m s read.1)
    (fun s read => s.2.transport = .plain →
      Along (env.step m) (StaysPlain env m) s read.1.dropLast) s reads

/-- One byte that does not switch the transport. -/
theorem StaysPlain.step {c : Byte} (stays : StaysPlain env m s c)
    (result : env.step m s c = .ok s') : s'.2.transport = s.2.transport := by
  rcases Env.wrote_step stays.1 result with wrote | ⟨proceeds, wrote⟩
  · exact wrote.transport
  · rw [wrote.transport, transport_startTls, stays.2 proceeds]
    rfl

/-- **No clear-text bytes after the switch.** -/
theorem noInjection_of_switchesLast {reads : List SocketRead}
    (last : SwitchesLast env m s reads) : NoInjection env m s reads := by
  refine Along.mono (fun s read stays plain => ?_) last
  have keeps : ∀ (s₁ : PushParser × Bus) c s₂, s₁.2.transport = .plain → StaysPlain env m s₁ c →
      env.step m s₁ c = .ok s₂ → s₂.2.transport = .plain :=
    fun s₁ c s₂ before stays result => (stays.step result).trans before
  have front := stays plain
  rw [← List.dropLast_append_getLast read.2.1]
  refine along_append.mpr ⟨front.of_invariant keeps plain, fun s' result =>
    ⟨?_, fun _ _ => trivial⟩⟩
  have unchanged := front.invariant keeps plain result
  exact unchanged

/-- The element with which a server agrees to TLS. -/
def proceedElement : Text :=
  lit "<proceed xmlns=" ++ [apos] ++ lit "urn:ietf:params:xml:ns:xmpp-tls" ++ [apos] ++ lit "/>"

theorem noInjection_of_switchesLast_proceed :
    ∃ s, (coreEnv fun _ => ⟨true, 1⟩).started = .ok s ∧
      NoInjection (coreEnv fun _ => ⟨true, 1⟩) (.filled 0) s
        [⟨proceedElement, by decide, by decide⟩] := by
  -- before its last byte the element closes nothing
  have nothing : (coreEnv fun _ => ⟨true, 1⟩).started.map (fun s => decide
      (Along ((coreEnv fun _ => ⟨true, 1⟩).step (.filled 0))
        (fun s c => closesAt (.filled 0) s c = none) s proceedElement.dropLast)) = .ok true := by
    decide +kernel
  obtain ⟨s, started, nothing⟩ := map_eq_ok_iff.mp nothing
  refine ⟨s, started, noInjection_of_switchesLast ⟨fun _ => ?_, fun _ _ => trivial⟩⟩
  refine (of_decide_eq_true nothing).mono fun s c closes => ⟨by simp [closes], ?_⟩
  rintro ⟨o, closed, -⟩
  rw [closes] at closed
  cases closed

/-- One byte behind the element in the same read is parsed although TLS is in place. -/
theorem not_noInjection_pipelined :
    ∃ s, (coreEnv fun _ => ⟨true, 1⟩).started = .ok s ∧
      ¬ NoInjection (coreEnv fun _ => ⟨true, 1⟩) (.filled 0) s
        [⟨proceedElement ++ [ch '<'], by decide, by decide⟩] := by
  have switched : ((coreEnv fun _ => ⟨true, 1⟩).started >>= fun s =>
      (run ((coreEnv fun _ => ⟨true, 1⟩).step (.filled 0)) s proceedElement).map
        fun s' => (s.2.transport, s'.2.transport)) = .ok (.plain, .tls) := by
    decide +kernel
  obtain ⟨s, started, fed⟩ := bind_eq_ok_iff.mp switched
  obtain ⟨s', result, transports⟩ := map_eq_ok_iff.mp fed
  obtain ⟨before, after⟩ := Prod.mk.inj transports
  refine ⟨s, started, fun noInjection => ?_⟩
  have still : s'.2.transport = .plain :=
    ((along_append.mp (noInjection.1 before)).2 s' result).1
  rw [after] at still
  cases still

/-! ## Writing after a handshake -/

/-- What the bus does next: it reads a byte, or the program writes something. -/
inductive BusEvent where
  | byte (c : Byte)
  | write (buf : Text)

/-- One event. -/
def Env.onEvent (env : Env) (m : Memory) (s : PushParser × Bus) :
    BusEvent → Except Fault (PushParser × Bus)
  | .byte c => env.step m s c
  | .write buf => .ok (s.1, s.2.write buf)

/-- Nothing has gone out through the socket after a handshake.  The log is read from its
newest entry on. -/
def NoDowngrade : List Io → Prop
  | [] => True
  | .sent .plain _ :: rest => handshakes rest = 0 ∧ NoDowngrade rest
  | _ :: rest => NoDowngrade rest

instance : DecidablePred NoDowngrade := fun log => by
  induction log with
  | nil => exact .isTrue trivial
  | cons e rest ih =>
      cases e with
      | handshake established => exact ih
      | sent t buf =>
          cases t with
          | plain => exact inferInstanceAs (Decidable (_ ∧ _))
          | tls => exact ih

/-- The event does not close the bus, and if it closes a `proceed` element then the
handshake succeeds or TLS is in use already. -/
def HandshakeOk (env : Env) (m : Memory) (s : PushParser × Bus) : BusEvent → Prop
  | .byte c => closesAt m s c ≠ some s.2.self ∧
      (env.Proceeds m s c → s.2.transport = .tls ∨
        (xmppStartTls (env.ssl (handshakes s.2.log))).isSome)
  | .write _ => True

/-- The invariant of the log: once there has been a handshake, TLS is in use. -/
structure Secured (b : Bus) : Prop where
  noDowngrade : NoDowngrade b.log
  inUse : handshakes b.log = 0 ∨ b.transport = .tls

theorem noDowngrade_of_handshakes {log : List Io} (none : handshakes log = 0) :
    NoDowngrade log := by
  induction log with
  | nil => trivial
  | cons e rest ih =>
      cases e with
      | handshake established => cases none
      | sent t buf =>
          cases t with
          | plain => exact ⟨none, ih none⟩
          | tls => exact ih none

/-- What is written through the transport in place keeps the invariant. -/
theorem Secured.wrote {b b' : Bus} (secured : Secured b) (wrote : Wrote b b') : Secured b' := by
  obtain ⟨transport, new, log_eq, sent⟩ := wrote
  have written : NoDowngrade (new ++ b.log) ∧ handshakes (new ++ b.log) = handshakes b.log := by
    clear log_eq
    induction new with
    | nil => exact ⟨secured.noDowngrade, rfl⟩
    | cons e rest ih =>
        obtain ⟨noDowngrade, count⟩ := ih fun e member => sent e (List.mem_cons_of_mem _ member)
        obtain ⟨buf, rfl⟩ := sent e List.mem_cons_self
        refine ⟨?_, count⟩
        cases inUse : b.transport with
        | tls => exact noDowngrade
        | plain =>
            refine ⟨count.trans ?_, noDowngrade⟩
            rcases secured.inUse with none | tls
            · exact none
            · rw [inUse] at tls
              cases tls
  rw [← log_eq] at written
  refine ⟨written.1, ?_⟩
  rw [written.2, transport]
  exact secured.inUse

/-- A handshake that leaves TLS in use keeps it as well. -/
theorem Secured.startTls {b : Bus} (secured : Secured b)
    (ok : b.transport = .tls ∨ (xmppStartTls (env.ssl (handshakes b.log))).isSome) :
    Secured (env.startTls b) := by
  refine ⟨?_, .inr ?_⟩
  · rw [log_startTls]
    exact secured.noDowngrade
  · rw [transport_startTls]
    cases answer : xmppStartTls (env.ssl (handshakes b.log)) with
    | some t => rw [Option.getD_some, xmppStartTls_eq_some answer]
    | none =>
        rw [answer] at ok
        exact ok.resolve_right (by simp)

/-- One event. -/
theorem Secured.onEvent {e : BusEvent} (secured : Secured s.2) (ok : HandshakeOk env m s e)
    (result : env.onEvent m s e = .ok s') : Secured s'.2 := by
  cases e with
  | write buf =>
      cases result
      exact secured.wrote ⟨rfl, [.sent s.2.transport buf], rfl, by simp⟩
  | byte c =>
      rcases Env.wrote_step ok.1 result with wrote | ⟨proceeds, wrote⟩
      · exact secured.wrote wrote
      · exact (secured.startTls (ok.2 proceeds)).wrote wrote

/-- **No downgrade.**  In a run that begins before the first handshake and whose handshakes
succeed, nothing goes out through the socket after a handshake. -/
theorem noDowngrade_of_handshakeOk {events : List BusEvent} (start : handshakes s.2.log = 0)
    (ok : Along (env.onEvent m) (HandshakeOk env m) s events)
    (result : run (env.onEvent m) s events = .ok s') : NoDowngrade s'.2.log := by
  have keeps : ∀ (s : PushParser × Bus) e s', Secured s.2 → HandshakeOk env m s e →
      env.onEvent m s e = .ok s' → Secured s'.2 :=
    fun _ _ _ secured ok => secured.onEvent ok
  have secured := ok.invariant keeps ⟨noDowngrade_of_handshakes start, .inl start⟩ result
  exact secured.noDowngrade

theorem noDowngrade_of_handshakeOk_proceed :
    ∃ s s', (coreEnv fun _ => ⟨true, 1⟩).started = .ok s ∧
      run ((coreEnv fun _ => ⟨true, 1⟩).onEvent (.filled 0)) s
        (proceedElement.map .byte ++ [.write (lit "<presence/>")]) = .ok s' ∧
      NoDowngrade s'.2.log := by
  have concrete : ((coreEnv fun _ => ⟨true, 1⟩).started >>= fun s =>
      (run ((coreEnv fun _ => ⟨true, 1⟩).onEvent (.filled 0)) s
        (proceedElement.map .byte ++ [.write (lit "<presence/>")])).map fun _ =>
          (handshakes s.2.log, decide (Along ((coreEnv fun _ => ⟨true, 1⟩).onEvent (.filled 0))
            (fun s e => (match e with
              | .byte c => closesAt (.filled 0) s c
              | .write _ => none) ≠ some s.2.self) s
            (proceedElement.map .byte ++ [.write (lit "<presence/>")])))) = .ok (0, true) := by
    decide +kernel
  obtain ⟨s, started, ran⟩ := bind_eq_ok_iff.mp concrete
  obtain ⟨s', result, values⟩ := map_eq_ok_iff.mp ran
  obtain ⟨start, notBus⟩ := Prod.mk.inj values
  refine ⟨s, s', started, result, noDowngrade_of_handshakeOk start ?_ result⟩
  refine (of_decide_eq_true notBus).mono fun s e isOpen => ?_
  cases e with
  | byte c => exact ⟨isOpen, fun _ => .inr rfl⟩
  | write buf => trivial

/-- When `SSL_connect` fails, the header of a new stream goes out through the socket. -/
theorem not_noDowngrade_failed :
    ∃ s s', (coreEnv fun _ => ⟨true, 0⟩).started = .ok s ∧
      run ((coreEnv fun _ => ⟨true, 0⟩).onEvent (.filled 0)) s (proceedElement.map .byte) = .ok s' ∧
      ¬ NoDowngrade s'.2.log := by
  have concrete : ((coreEnv fun _ => ⟨true, 0⟩).started >>= fun s =>
      (run ((coreEnv fun _ => ⟨true, 0⟩).onEvent (.filled 0)) s (proceedElement.map .byte)).map
        fun s' => decide (NoDowngrade s'.2.log)) = .ok false := by
    decide +kernel
  obtain ⟨s, started, ran⟩ := bind_eq_ok_iff.mp concrete
  obtain ⟨s', result, downgrade⟩ := map_eq_ok_iff.mp ran
  exact ⟨s, s', started, result, of_decide_eq_false downgrade⟩

end Xwbot
