import Ellipticoind.Ports.Processor
import Ellipticoind.Ports.VMSimulation

/-!
# The same block in two runs of the processor

A run of the processor has a budget of steps, which the source does not have, and an
environment.  `CallsAlike` relates two budgets and environments by what calls give under
them; what calls give alike, transactions and blocks do.

## Main results

* `CallsAlike.foldlM` — from calls to blocks.
* `foldlM_of_le` — a block that is processed on some budget is processed alike on every
  larger one.
-/

namespace Ellipticoind.Ports

open Ellipticoind.Verified.StateRun

variable {P : Platform}

/-- What a call gives under the first budget and environment it gives under the second,
too, as long as its record is good. -/
structure CallsAlike (P : Platform) (fuel fuel' : Nat) (env env' : Env)
    (good : List Event → Prop) : Prop where
  budget : fuel ≤ fuel'
  blockWinner : env'.blockWinner = env.blockWinner
  append : ∀ {xs ys}, good (xs ++ ys) → good xs ∧ good ys
  call : ∀ {func : String} {arguments : List Value} {vm vm' : VM P} {callEnd : CallEnd},
    vm.env = env → VM.call (invoke P fuel []) func arguments vm = .ok (callEnd, vm') →
      good vm'.trace → ∃ env'', VM.call (invoke P fuel' []) func arguments
        { vm with env := env' } = .ok (callEnd, { vm' with env := env'' })

namespace CallsAlike

variable {fuel fuel' : Nat} {env env' : Env} {good : List Event → Prop}
  (h : CallsAlike P fuel fuel' env env' good)

include h

theorem newModuleInstance {code : Bytes} {inst : Instance P.Globals}
    (hinst : newModuleInstance P fuel code = .ok inst) :
    newModuleInstance P fuel' code = .ok inst :=
  FrameSimulation.newModuleInstance_of_le h.budget code inst hinst

theorem execute {t : Transaction} {memory : Memory} {storage : Storage} {e : Executed}
    (hrun : t.execute P fuel memory storage env = .ok e) (hgood : good e.trace) :
    t.execute P fuel' memory storage env' = .ok e := by
  unfold Transaction.execute at hrun ⊢
  obtain ⟨code, hcode, hrun⟩ := except_bind_eq_ok.mp hrun
  refine except_bind_eq_ok.mpr ⟨code, hcode, ?_⟩
  split at hrun
  · rw [if_pos ‹_›]
    exact hrun
  · rw [if_neg ‹_›]
    obtain ⟨inst, hinst, hrun⟩ := except_bind_eq_ok.mp hrun
    obtain ⟨⟨callEnd, vm⟩, hcall, hrun⟩ := except_bind_eq_ok.mp hrun
    cases hrun
    obtain ⟨env'', hcall'⟩ := h.call rfl hcall hgood
    exact except_bind_eq_ok.mpr ⟨inst, h.newModuleInstance hinst,
      except_bind_eq_ok.mpr ⟨_, hcall', rfl⟩⟩

theorem transfer {t : Transaction} {redis : Redis} {rocksdb : RocksDB}
    {memoryChangeset storageChangeset : Changeset} {amount : Nat} {sender winner : Bytes}
    {o : Outcome}
    (hrun : SystemContracts.transfer P fuel t redis rocksdb memoryChangeset
      storageChangeset env amount sender winner = .ok o) (hgood : good o.trace) :
    SystemContracts.transfer P fuel' t redis rocksdb memoryChangeset
      storageChangeset env' amount sender winner = .ok o := by
  unfold SystemContracts.transfer at hrun ⊢
  obtain ⟨code, hcode, hrun⟩ := except_bind_eq_ok.mp hrun
  obtain ⟨inst, hinst, hrun⟩ := except_bind_eq_ok.mp hrun
  obtain ⟨⟨callEnd, vm⟩, hcall, hrun⟩ := except_bind_eq_ok.mp hrun
  cases hrun
  obtain ⟨env'', hcall'⟩ := h.call rfl hcall hgood
  exact except_bind_eq_ok.mpr ⟨code, hcode, except_bind_eq_ok.mpr
    ⟨inst, h.newModuleInstance hinst, except_bind_eq_ok.mpr ⟨_, hcall', rfl⟩⟩⟩

theorem systemContract {t : Transaction} {memory : Memory} {storage : Storage} {o : Outcome}
    (hrun : SystemContracts.run P fuel t memory storage env = .ok o)
    (hgood : good o.trace) :
    SystemContracts.run P fuel' t memory storage env' = .ok o := by
  unfold SystemContracts.run SystemContracts.createContract at hrun ⊢
  split at hrun
  · rw [if_pos ‹_›]
    split at hrun
    · unfold SystemContracts.runConstructor at hrun ⊢
      obtain ⟨e, he, hrun⟩ := except_bind_eq_ok.mp hrun
      cases hrun
      exact except_bind_eq_ok.mpr ⟨e, h.execute he hgood, rfl⟩
    · exact hrun
  · rw [if_neg ‹_›]
    exact hrun

/-- One transaction, its gas payment included. -/
theorem runOutcome {redis : Redis} {rocksdb : RocksDB} {t : Transaction}
    {memoryChangeset storageChangeset : Changeset} {o : Outcome}
    (hrun : runOutcome P fuel redis rocksdb t env memoryChangeset storageChangeset = .ok o)
    (hgood : good o.trace) :
    Ports.runOutcome P fuel' redis rocksdb t env' memoryChangeset storageChangeset =
      .ok o := by
  unfold Ports.runOutcome at hrun ⊢
  dsimp only at hrun ⊢
  split at hrun
  · rw [if_pos ‹_›]
    exact h.systemContract hrun hgood
  · rw [if_neg ‹_›]
    obtain ⟨e, he, hrun⟩ := except_bind_eq_ok.mp hrun
    obtain ⟨gasLeft, hleft, hrun⟩ := except_bind_eq_ok.mp hrun
    obtain ⟨gasUsed, hused, hrun⟩ := except_bind_eq_ok.mp hrun
    obtain ⟨gas, hgas, hrun⟩ := except_bind_eq_ok.mp hrun
    cases hrun
    obtain ⟨hcall, htransfer⟩ := h.append hgood
    rw [h.blockWinner]
    exact except_bind_eq_ok.mpr ⟨e, h.execute he hcall,
      except_bind_eq_ok.mpr ⟨gasLeft, hleft, except_bind_eq_ok.mpr ⟨gasUsed, hused,
        except_bind_eq_ok.mpr ⟨gas, h.transfer hgas htransfer, rfl⟩⟩⟩⟩

theorem runTransaction {redis : Redis} {rocksdb : RocksDB} {b b' : Processed}
    {t : Transaction} (hrun : runTransaction P fuel redis rocksdb env b t = .ok b')
    (hgood : good b'.trace) :
    Ports.runTransaction P fuel' redis rocksdb env' b t = .ok b' := by
  unfold Ports.runTransaction at hrun ⊢
  obtain ⟨o, ho, hrun⟩ := except_bind_eq_ok.mp hrun
  cases hrun
  exact except_bind_eq_ok.mpr ⟨o, h.runOutcome ho (h.append hgood).2, rfl⟩

/-- The record of a batch begins with what it was before. -/
theorem good_before {redis : Redis} {rocksdb : RocksDB} {b b' : Processed}
    {ts : List Transaction}
    (hrun : ts.foldlM (Ports.runTransaction P fuel redis rocksdb env) b = .ok b')
    (hgood : good b'.trace) : good b.trace := by
  induction ts generalizing b with
  | nil =>
      cases hrun
      exact hgood
  | cons t rest ih =>
      rw [List.foldlM_cons] at hrun
      obtain ⟨b₁, hfirst, hrest⟩ := except_bind_eq_ok.mp hrun
      obtain ⟨o, _, hb₁⟩ := except_bind_eq_ok.mp hfirst
      cases hb₁
      exact (h.append (ih hrest)).1

/-- What calls give alike, batches do. -/
theorem foldlM {redis : Redis} {rocksdb : RocksDB} {b b' : Processed}
    {ts : List Transaction}
    (hrun : ts.foldlM (Ports.runTransaction P fuel redis rocksdb env) b = .ok b')
    (hgood : good b'.trace) :
    ts.foldlM (Ports.runTransaction P fuel' redis rocksdb env') b = .ok b' := by
  induction ts generalizing b with
  | nil => exact hrun
  | cons t rest ih =>
      rw [List.foldlM_cons] at hrun ⊢
      obtain ⟨b₁, hfirst, hrest⟩ := except_bind_eq_ok.mp hrun
      exact except_bind_eq_ok.mpr
        ⟨b₁, h.runTransaction hfirst (h.good_before hrest hgood), ih hrest⟩

end CallsAlike

/-! ## A larger budget -/

/-- Equal frames stay equal. -/
theorem frameSimulation_eq : FrameSimulation (P := P) Eq fun _ => True where
  inherited := by
    constructor
    all_goals intros
    all_goals trivial
  moduleInstance := by rintro s _ rfl; rfl
  gas := by rintro s _ rfl; rfl
  transaction := by rintro s _ rfl; rfl
  blockNumber := by rintro s _ rfl; rfl
  blockWinner := by rintro s _ rfl; rfl
  caller := by rintro s _ rfl; rfl
  memoryGet := by rintro s _ key rfl _; exact ⟨rfl, rfl⟩
  storageGet := by rintro s _ key rfl _; exact ⟨rfl, rfl⟩
  setGas := by rintro s _ gas rfl; rfl
  setInstance := by rintro s _ inst rfl; rfl
  host := by rintro s _ index rfl _; exact ⟨rfl, fun _ => rfl⟩
  memorySet := by rintro s _ key value rfl; rfl
  storageSet := by rintro s _ key value rfl; rfl
  commit := by rintro s _ rfl; rfl
  rollback := by rintro s _ rfl; rfl
  calleeFrame := by rintro s _ inst address name rfl; rfl
  nested := by rintro s _ callee _ callEnd rfl rfl; rfl
  nestedGood _ _ := trivial

/-- A call that ends gives the same on every larger budget. -/
theorem call_of_le {fuel fuel' : Nat} (hle : fuel ≤ fuel') {func : String}
    {arguments : List Value} {vm vm' : VM P} {callEnd : CallEnd}
    (hcall : VM.call (invoke P fuel []) func arguments vm = .ok (callEnd, vm')) :
    VM.call (invoke P fuel' []) func arguments vm = .ok (callEnd, vm') := by
  have hsim := frameSimulation_eq (P := P)
  obtain ⟨_, hcall', rfl⟩ := (hsim.simulates_call (hsim.simulates_invoke hle []) func
    arguments).matched vm vm _ _ rfl hcall trivial
  exact hcall'

theorem callsAlike_of_le {fuel fuel' : Nat} (hle : fuel ≤ fuel') (env : Env) :
    CallsAlike P fuel fuel' env env fun _ => True where
  budget := hle
  blockWinner := rfl
  append _ := ⟨trivial, trivial⟩
  call := by
    rintro func arguments vm vm' callEnd rfl hcall -
    exact ⟨vm'.env, call_of_le hle hcall⟩

/-- **A block that is processed on some budget is processed alike on every larger
one.** -/
theorem foldlM_of_le {fuel fuel' : Nat} (hle : fuel ≤ fuel') {redis : Redis}
    {rocksdb : RocksDB} {env : Env} {b b' : Processed} {ts : List Transaction}
    (hrun : ts.foldlM (runTransaction P fuel redis rocksdb env) b = .ok b') :
    ts.foldlM (runTransaction P fuel' redis rocksdb env) b = .ok b' :=
  (callsAlike_of_le hle env).foldlM hrun trivial

end Ellipticoind.Ports
