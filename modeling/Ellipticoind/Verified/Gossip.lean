import Ellipticoind.Verified.Runs
import Mathlib.Logic.Function.Basic

/-!
# Parties that gossip

Parties of one kind take steps of their own, send messages to whoever listens,
and receive what some party has sent.  The network keeps every message: it hands
it to anybody, as late and as often as it likes, or never.  It makes up none.

What a party may rely on is a property of the messages.  It may speak of the
states of all parties, as long as their steps do not make it false; `le` says in
which way states grow.

## Main results

* `invariant_of_run` — what every party keeps, on messages of which the same is
  known that it grants for its own, holds of all parties and messages in every
  run.
-/

namespace Ellipticoind.Verified.Gossip

variable {ι σ α μ : Type}

/-- How a party moves, what it sends as it does, and what it makes of a message. -/
structure Parties (ι σ α μ : Type) where
  step : ι → σ → α → Option σ
  sends : ι → σ → α → List μ
  receive : σ → μ → σ

/-- The parties, and all that was sent, the oldest first. -/
structure Network (ι σ μ : Type) where
  nodes : ι → σ
  sent : List μ

inductive Label (ι α : Type) where
  | act (i : ι) (a : α)
  /-- The message at this place is handed to the party. -/
  | deliver (i : ι) (k : Nat)

/-- One party moves, or receives a message. -/
def step [DecidableEq ι] (p : Parties ι σ α μ) (net : Network ι σ μ) :
    Label ι α → Option (Network ι σ μ)
  | .act i a => (p.step i (net.nodes i) a).map fun s => {
      nodes := Function.update net.nodes i s
      sent := net.sent ++ p.sends i (net.nodes i) a }
  | .deliver i k => net.sent[k]?.map fun message =>
      { net with nodes := Function.update net.nodes i (p.receive (net.nodes i) message) }

/-- What has to be shown of the parties: `inv` of each of them and `good` of each message
may look at the states `w` of all. -/
structure Keeps (p : Parties ι σ α μ) (le : σ → σ → Prop) (allowed : ι → α → Prop)
    (inv : (ι → σ) → ι → σ → Prop) (good : (ι → σ) → μ → Prop) : Prop where
  refl : ∀ s, le s s
  grows : ∀ i s a s', p.step i s a = some s' → le s s'
  receives : ∀ s message, le s (p.receive s message)
  invMono : ∀ w w' i s, (∀ j, le (w j) (w' j)) → inv w i s → inv w' i s
  goodMono : ∀ w w' message, (∀ j, le (w j) (w' j)) → good w message → good w' message
  /-- `w` are the states after the step. -/
  act : ∀ w i s a s', w i = s' → inv w i s → allowed i a → p.step i s a = some s' →
    inv w i s' ∧ ∀ message ∈ p.sends i s a, good w message
  receive : ∀ w i s message, inv w i s → good w message → inv w i (p.receive s message)

/-- The invariant of a network. -/
structure Holds (inv : (ι → σ) → ι → σ → Prop) (good : (ι → σ) → μ → Prop)
    (net : Network ι σ μ) : Prop where
  nodes : ∀ i, inv net.nodes i (net.nodes i)
  sent : ∀ message ∈ net.sent, good net.nodes message

/-- The label is a move that is allowed, or a delivery. -/
def Label.Allowed (allowed : ι → α → Prop) : Label ι α → Prop
  | .act i a => allowed i a
  | .deliver _ _ => True

section

variable [DecidableEq ι] {p : Parties ι σ α μ} {le : σ → σ → Prop} {allowed : ι → α → Prop}
  {inv : (ι → σ) → ι → σ → Prop} {good : (ι → σ) → μ → Prop}

theorem Keeps.le_update (h : Keeps p le allowed inv good) {w : ι → σ} {i : ι} {s : σ}
    (hle : le (w i) s) (j : ι) : le (w j) (Function.update w i s j) := by
  by_cases hj : j = i
  · subst hj
    rwa [Function.update_self]
  · rw [Function.update_of_ne hj]
    exact h.refl _

/-- One party is in a new state, of which the invariant is known. -/
theorem Keeps.update (h : Keeps p le allowed inv good) {net : Network ι σ μ} {i : ι} {s : σ}
    {sent : List μ} (hnet : Holds inv good net) (hle : le (net.nodes i) s)
    (hs : inv (Function.update net.nodes i s) i s)
    (hsent : ∀ message ∈ sent, message ∈ net.sent ∨
      good (Function.update net.nodes i s) message) :
    Holds inv good ⟨Function.update net.nodes i s, sent⟩ where
  nodes j := by
    by_cases hj : j = i
    · subst hj
      show inv _ j (Function.update net.nodes j s j)
      rwa [Function.update_self]
    · show inv _ j (Function.update net.nodes i s j)
      rw [Function.update_of_ne hj]
      exact h.invMono _ _ _ _ (h.le_update hle) (hnet.nodes j)
  sent message hmessage := (hsent message hmessage).elim
    (fun hold => h.goodMono _ _ _ (h.le_update hle) (hnet.sent message hold)) id

theorem holds_of_step (h : Keeps p le allowed inv good) {net net' : Network ι σ μ}
    {label : Label ι α} (hnet : Holds inv good net) (hallowed : label.Allowed allowed)
    (hstep : step p net label = some net') : Holds inv good net' := by
  cases label with
  | act i a =>
      obtain ⟨s, hs, rfl⟩ := Option.map_eq_some_iff.mp hstep
      have hle := h.grows i _ a s hs
      have hbefore := h.invMono _ _ i _ (h.le_update hle) (hnet.nodes i)
      obtain ⟨hinv, hsends⟩ :=
        h.act _ i _ a s (Function.update_self i s net.nodes) hbefore hallowed hs
      exact h.update hnet hle hinv fun message hmessage =>
        (List.mem_append.mp hmessage).imp_right (hsends message)
  | deliver i k =>
      obtain ⟨message, hget, rfl⟩ := Option.map_eq_some_iff.mp hstep
      have hmem := List.mem_of_getElem? hget
      have hle := h.receives (net.nodes i) message
      have hinv := h.receive _ i _ message (hnet.nodes i) (hnet.sent message hmem)
      exact h.update hnet hle (h.invMono _ _ i _ (h.le_update hle) hinv) fun _ => .inl

/-- What the parties keep holds of all of them in every run whose moves are allowed. -/
theorem invariant_of_run (h : Keeps p le allowed inv good) {net net' : Network ι σ μ}
    {labels : List (Label ι α)} (hnet : Holds inv good net)
    (hallowed : ∀ label ∈ labels, label.Allowed allowed)
    (hrun : Runs.run (step p) net labels = some net') : Holds inv good net' :=
  Runs.invariant_of_run (fun _ _ _ hm hcond hstep => holds_of_step h hm hcond hstep) hnet
    (Runs.meets_of_forall (fun label hlabel _ => hallowed label hlabel) net) hrun

end

end Ellipticoind.Verified.Gossip
