import Mathlib

/-!
# Parties on a network

The parties take inputs of their own and packets that any of them sent.  The network may lose a
packet, repeat it, delay it and hand it to whoever it may reach, but it makes none up.
-/

namespace Xwbot.Networks

universe u v w

variable {ι : Type u} {σ α π : Type v} {ε : Type w}

/-- What the parties do. -/
structure Protocol (ι : Type u) (σ α π : Type v) (ε : Type w) where
  /-- A party in a state takes an input, and sends packets. -/
  step : ι → σ → α → Except ε (σ × List π)
  /-- The inputs that a party has by itself. -/
  own : ι → α → Prop
  /-- The inputs that a packet may be to a party. -/
  reaches : π → ι → α → Prop

/-- The states of the parties, and all that was sent. -/
structure Net (ι : Type u) (σ π : Type v) where
  states : ι → σ
  sent : List π

namespace Net

variable {protocol : Protocol ι σ α π ε} {n n' : Net ι σ π} {i : ι} {a : α} {s' : σ}
  {out : List π}

/-- Nothing was sent yet. -/
def start (states : ι → σ) : Net ι σ π :=
  ⟨states, []⟩

/-- An input that a party may take now. -/
def Offers (protocol : Protocol ι σ α π ε) (sent : List π) (i : ι) (a : α) : Prop :=
  protocol.own i a ∨ ∃ packet ∈ sent, protocol.reaches packet i a

variable [DecidableEq ι]

/-- A party took an input. -/
def after (n : Net ι σ π) (i : ι) (s' : σ) (out : List π) : Net ι σ π :=
  ⟨Function.update n.states i s', n.sent ++ out⟩

/-- A step of one party. -/
inductive Step (protocol : Protocol ι σ α π ε) (n : Net ι σ π) : Net ι σ π → Prop where
  | step (i : ι) (a : α) {s' : σ} {out : List π} (offered : Offers protocol n.sent i a)
      (result : protocol.step i (n.states i) a = .ok (s', out)) : Step protocol n (n.after i s' out)

/-- What any order of steps leads to. -/
def Reachable (protocol : Protocol ι σ α π ε) (states : ι → σ) (n : Net ι σ π) : Prop :=
  Relation.ReflTransGen (Step protocol) (start states) n

theorem after_states_self : (n.after i s' out).states i = s' :=
  Function.update_self _ _ _

theorem after_states_of_ne {j : ι} (other : j ≠ i) :
    (n.after i s' out).states j = n.states j :=
  Function.update_of_ne other _ _

/-- **Rely and guarantee.**  What holds of every party and of every packet at the beginning, and
is kept by each step of one party that relies on all packets before it, holds always.  What was
sent may be spoken of, as more of it spoils nothing. -/
theorem Reachable.keeps (party : List π → ι → σ → Prop) (packet : List π → π → Prop)
    {states : ι → σ} (party_mono : ∀ sent out i s, party sent i s → party (sent ++ out) i s)
    (packet_mono : ∀ sent out p, packet sent p → packet (sent ++ out) p)
    (starts : ∀ i, party [] i (states i))
    (steps : ∀ sent i s a s' out, (∀ p ∈ sent, packet sent p) → party sent i s →
      Offers protocol sent i a → protocol.step i s a = .ok (s', out) →
        party (sent ++ out) i s' ∧ ∀ p ∈ out, packet (sent ++ out) p)
    (reachable : Reachable protocol states n) :
    (∀ i, party n.sent i (n.states i)) ∧ ∀ p ∈ n.sent, packet n.sent p := by
  induction reachable with
  | refl => exact ⟨starts, fun p member => absurd member List.not_mem_nil⟩
  | tail _ stepped ih =>
      cases stepped with
      | step i a offered result =>
          rename_i s' out
          rcases steps _ i _ a _ _ ih.2 (ih.1 i) offered result with ⟨kept, sent⟩
          refine ⟨fun j => ?_, fun p member => ?_⟩
          · rcases eq_or_ne j i with rfl | other
            · rw [after_states_self]
              exact kept
            · rw [after_states_of_ne other]
              exact party_mono _ _ _ _ (ih.1 j)
          · rcases List.mem_append.mp member with earlier | made
            · exact packet_mono _ _ _ (ih.2 p earlier)
            · exact sent p made

end Net

end Xwbot.Networks
