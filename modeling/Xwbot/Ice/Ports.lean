import Xwbot.Fault
import Xwbot.Runs

/-!
# Port numbers

Every attempt to bind takes the next two values of a counter of 16 bits that all streams share,
and every attempt that fails moves the counter by a pseudo-random step.  No step is made even, so
that a failure can leave the counter odd.  Ports overlap only after the counter has gone round.
-/

namespace Xwbot.Ice.Ports

open Runs

/-- `BASE_RTP_PORT` -/
def baseRtpPort : Nat := 24100

/-- `BASE_RTP_PORT_RETRY` -/
def baseRtpPortRetry : Nat := 4

/-- `__icectl_get_next_rand_portnum`: the new seed and the step.  The sum wraps, the quotient is
that of signed numbers. -/
def getNextRandPortnum (seed : BitVec 32) (maxStep : Nat) : BitVec 32 × Nat :=
  let seed := seed * 1103515245#32 + 12345#32
  (seed, (seed.sdiv 65536#32).toNat % maxStep)

/-- The fields `data_port` and `ctl_port`. -/
structure PortPair where
  dataPort : Nat
  ctlPort : Nat
  deriving DecidableEq, Repr

/-- The loop of `__icectl_iostream_start` over the outcomes of `bind`.  The outcome for the control
socket is not looked at. -/
def bindPorts (draw : BitVec 32 → BitVec 32 × Nat) :
    List Bool → UInt16 → BitVec 32 → Except Fault (UInt16 × PortPair)
  | [], _, _ => .error .bug
  | true :: _, portnum, _ => .ok (portnum + 1 + 1, ⟨portnum.toNat, (portnum + 1).toNat⟩)
  | false :: rest, portnum, seed =>
      let (seed, step) := draw seed
      bindPorts draw rest (portnum + 1 + 1 + step.toUInt16) seed

/-- What a start depends on besides the counter: the low half of the stream's address, and how the
attempts to bind end. -/
structure Start where
  seed : BitVec 32
  binds : List Bool
  retries : binds.length = baseRtpPortRetry

/-- `__icectl_iostream_start` -/
def iostreamStart (portnum : UInt16) (start : Start) : Except Fault (UInt16 × PortPair) :=
  bindPorts (getNextRandPortnum · 512) start.binds portnum start.seed

/-! ## How far a start moves the counter -/

/-- How far so many failures move the counter. -/
def moved (draw : BitVec 32 → BitVec 32 × Nat) : BitVec 32 → Nat → Nat
  | _, 0 => 0
  | seed, n + 1 =>
      let (seed, step) := draw seed
      2 + step + moved draw seed n

/-- The attempts before one that succeeds. -/
def failures (binds : List Bool) : Nat :=
  (binds.takeWhile fun bound => !bound).length

/-- How far the failures of a start move the counter. -/
def Start.moved (start : Start) : Nat :=
  Ports.moved (getNextRandPortnum · 512) start.seed (failures start.binds)

/-- The ports of an attempt, when the counter has come to `n` without a wrap. -/
def portsAt (n : Nat) : PortPair :=
  ⟨n % 65536, (n + 1) % 65536⟩

/-- **Spec of the loop.**  The ports are the values at the attempt that succeeds. -/
theorem bindPorts_eq (draw : BitVec 32 → BitVec 32 × Nat) (binds : List Bool) (seed : BitVec 32)
    (n : Nat) : bindPorts draw binds n.toUInt16 seed =
      if true ∈ binds then
        .ok ((n + moved draw seed (failures binds) + 2).toUInt16,
          portsAt (n + moved draw seed (failures binds)))
      else .error .bug := by
  have behind : ∀ m : Nat, m.toUInt16 + 1 + 1 = (m + 2).toUInt16 := by
    intro m
    rw [UInt16.add_assoc]
    exact (UInt16.ofNat_add m 2).symm
  induction binds generalizing seed n with
  | nil => rfl
  | cons bound rest ih =>
      cases bound with
      | true =>
          have ports : (⟨n.toUInt16.toNat, (n.toUInt16 + 1).toNat⟩ : PortPair) = portsAt n := by
            rw [← show (n + 1).toUInt16 = n.toUInt16 + 1 from UInt16.ofNat_add n 1]
            rw [portsAt, Nat.toUInt16_eq, Nat.toUInt16_eq, UInt16.toNat_ofNat', UInt16.toNat_ofNat']
          rw [if_pos List.mem_cons_self]
          change Except.ok (n.toUInt16 + 1 + 1, _) = _
          rw [ports, behind]
          rfl
      | false =>
          have count : failures (false :: rest) = failures rest + 1 := by
            simp [failures]
          rw [bindPorts, count, moved]
          rcases draw seed with ⟨later, step⟩
          have next : n.toUInt16 + 1 + 1 + step.toUInt16 = (n + (2 + step)).toUInt16 := by
            rw [behind, ← Nat.add_assoc]
            exact (UInt16.ofNat_add _ _).symm
          dsimp only
          rw [next, ih, Nat.add_assoc n]
          simp

/-! ## All streams of the process -/

/-- A stream that was started.  Its place is what the counter would have been at the attempt that
succeeded if it had more bits. -/
structure Stream where
  ports : PortPair
  place : Nat
  deriving DecidableEq, Repr

/-- The counter, what it would be if it had more bits, and the streams so far. -/
structure Process where
  currentRtpPortnum : UInt16
  unwrapped : Nat
  streams : List Stream
  deriving DecidableEq, Repr

namespace Process

variable {s s' : Process} {a : Start}

/-- Before the first stream. -/
def initial : Process :=
  ⟨baseRtpPort.toUInt16, baseRtpPort, []⟩

/-- The place of a stream that is started now. -/
def place (s : Process) (a : Start) : Nat :=
  s.unwrapped + a.moved

def step (s : Process) (a : Start) : Except Fault Process := do
  let (portnum, ports) ← iostreamStart s.currentRtpPortnum a
  .ok ⟨portnum, s.place a + 2, s.streams ++ [⟨ports, s.place a⟩]⟩

/-- The counter is the unwrapped one without its high bits. -/
def Counted (s : Process) : Prop :=
  s.currentRtpPortnum = s.unwrapped.toUInt16

/-- Every stream has the ports of its place, which the counter has passed. -/
def Placed (s : Process) : Prop :=
  ∀ stream ∈ s.streams, stream.ports = portsAt stream.place ∧ stream.place + 2 ≤ s.unwrapped

end Process

/-- The data port is even, the control port is the next one, and both can be bound. -/
def PortPair.Paired (ports : PortPair) : Prop :=
  ports.dataPort % 2 = 0 ∧ ports.ctlPort = ports.dataPort + 1 ∧
    1 ≤ ports.dataPort ∧ ports.ctlPort ≤ 65535

/-- The streams have no port in common. -/
def PortPair.Apart (ports ports' : PortPair) : Prop :=
  ports.dataPort ≠ ports'.dataPort ∧ ports.dataPort ≠ ports'.ctlPort ∧
    ports.ctlPort ≠ ports'.dataPort ∧ ports.ctlPort ≠ ports'.ctlPort

theorem portsAt_paired_iff {n : Nat} : (portsAt n).Paired ↔ n % 2 = 0 ∧ n % 65536 ≠ 0 := by
  unfold PortPair.Paired portsAt
  dsimp only
  omega

theorem portsAt_apart {m n : Nat} (behind : m + 2 ≤ n) (inside : n + 2 ≤ m + 65536) :
    (portsAt n).Apart (portsAt m) := by
  unfold PortPair.Apart portsAt
  dsimp only
  omega

namespace Process

variable {s s' : Process} {a : Start}

/-- A stream that is started gets a pair of ports that no stream has from which the counter has
not gone round since. -/
def Allots (s : Process) (a : Start) : Prop :=
  ∀ s', s.step a = .ok s' → ∃ stream, s'.streams = s.streams ++ [stream] ∧ stream.ports.Paired ∧
    ∀ earlier ∈ s.streams, stream.place + 2 ≤ earlier.place + 65536 →
      stream.ports.Apart earlier.ports

/-- If an attempt succeeds, the steps of the failures before it add to the counter such that it is
even and has not come round to zero. -/
def StepsEven (s : Process) (a : Start) : Prop :=
  true ∈ a.binds →
    (s.currentRtpPortnum.toNat + a.moved) % 2 = 0 ∧
      (s.currentRtpPortnum.toNat + a.moved) % 65536 ≠ 0

/-- **Spec of `__icectl_iostream_start`.** -/
theorem step_eq (counted : s.Counted) : s.step a =
    if true ∈ a.binds then
      .ok ⟨(s.place a + 2).toUInt16, s.place a + 2,
        s.streams ++ [⟨portsAt (s.place a), s.place a⟩]⟩
    else .error .bug := by
  unfold step iostreamStart
  rw [counted, bindPorts_eq]
  split
  · rfl
  · rfl

theorem step_keeps (inside : s.Counted ∧ s.Placed) (next : s.step a = .ok s') :
    s'.Counted ∧ s'.Placed := by
  rw [step_eq inside.1] at next
  split at next
  · cases next
    refine ⟨rfl, ?_⟩
    intro stream member
    rcases List.mem_append.mp member with old | new
    · rcases inside.2 stream old with ⟨ports, passed⟩
      refine ⟨ports, ?_⟩
      change _ ≤ s.place a + 2
      unfold place
      omega
    · cases List.mem_singleton.mp new
      exact ⟨rfl, le_rfl⟩
  · cases next

theorem allots_iff (inside : s.Counted ∧ s.Placed) : s.Allots a ↔ s.StepsEven a := by
  unfold Allots StepsEven
  rw [step_eq inside.1]
  split
  · rename_i succeeds
    simp only [succeeds, true_implies, Except.ok.injEq, forall_eq', List.append_cancel_left_eq,
      List.cons.injEq, and_true, exists_eq_left']
    have paired : (portsAt (s.place a)).Paired ↔
        (s.currentRtpPortnum.toNat + a.moved) % 2 = 0 ∧
          (s.currentRtpPortnum.toNat + a.moved) % 65536 ≠ 0 := by
      rw [portsAt_paired_iff, inside.1, Nat.toUInt16_eq, UInt16.toNat_ofNat', place]
      omega
    rw [paired]
    apply and_iff_left
    intro earlier member near
    rcases inside.2 earlier member with ⟨ports, passed⟩
    rw [ports]
    refine portsAt_apart ?_ near
    unfold place
    omega
  · rename_i fails
    simp [fails]

/-- **Port allocation.**  Every stream of a run gets a proper pair of ports of its own exactly if
the pseudo-random steps leave the counter even and it does not come round to zero. -/
theorem along_allots_iff (starts : List Start) :
    Along step Allots initial starts ↔ Along step StepsEven initial starts := by
  refine along_congr (fun s => s.Counted ∧ s.Placed)
    (fun s a s' inside _ next => step_keeps inside next)
    (fun s a inside => allots_iff inside) ⟨rfl, ?_⟩
  intro stream member
  cases member

/-- The first attempt fails, and the step from the seed 2 is 397. -/
def oddStep : Start where
  seed := 2#32
  binds := [false, true, true, true]
  retries := rfl

/-- The stream gets the data port 24499. -/
theorem not_along_allots_odd : ¬Along step Allots initial [oddStep] := by
  rintro ⟨allots, -⟩
  rcases allots ⟨24501, 24501, [⟨⟨24499, 24500⟩, 24499⟩]⟩ (by decide) with
    ⟨stream, same, paired, -⟩
  cases same
  exact absurd paired.1 (by decide)

end Process

end Xwbot.Ice.Ports
