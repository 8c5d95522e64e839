import Ellipticoind.Ports.Journal
import Ellipticoind.Ports.Script

/-!
# Running one transaction

`Transaction::run` of `transaction.rs`: the outermost frame, on the block's
changesets so far.

`Transaction.execute` keeps what `run` forgets, namely in which arm the
outermost `VM::call` returned and the record of the run; `Transaction.run` is
its projection to what the source returns.

## Main results

* `execute_journaled` — the changesets returned are the given ones under the
  recorded operations.
* `trapped_run_unchanged_iff` — when a trapped transaction leaves no trace.
-/

namespace Ellipticoind.Ports

open Ellipticoind.Verified.Overlay
open Ellipticoind.Verified.StateRun

variable {P : Platform}

/-- How `Transaction::run` came to its result. -/
inductive TransactionEnd where
  /-- There is no code under the contract's address. -/
  | contractNotFound
  | called (callEnd : CallEnd)

/-- The outermost call ended in a WebAssembly trap. -/
def TransactionEnd.isTrap : TransactionEnd → Bool
  | .contractNotFound => false
  | .called callEnd => callEnd.isTrap

def TransactionEnd.result : TransactionEnd → Result
  | .contractNotFound => Ports.contractNotFound
  | .called callEnd => callEnd.result

/-- What is left of a transaction's run. -/
structure Executed where
  memoryChangeset : Changeset
  storageChangeset : Changeset
  ending : TransactionEnd
  gasLeft : Option Nat
  trace : List Event

namespace Transaction

/-- The outermost frame, on a module instance of the contract's code. -/
def frame (t : Transaction) (inst : Instance P.Globals) (memory : Memory)
    (storage : Storage) (env : Env) : VM P where
  moduleInstance := inst
  memory := memory
  storage := storage
  transaction := t
  gas := some (t.gasLimit % 2 ^ 32)
  env := env
  trace := []

/-- `Transaction::run`, with what the source forgets.  `fuel` bounds the
interpreter's steps. -/
def execute (P : Platform) (fuel : Nat) (t : Transaction) (memory : Memory)
    (storage : Storage) (env : Env) : Except Stop Executed := do
  let code ← unwrap (storage.get (rightPadVec t.contractAddress 64 0))
  if code.length = 0 then
    return {
      memoryChangeset := memory.changeset
      storageChangeset := storage.changeset
      ending := .contractNotFound
      gasLeft := some (t.gasLimit % 2 ^ 32)
      trace := [] }
  let inst ← newModuleInstance P fuel code
  let (callEnd, vm) ← VM.call (invoke P fuel []) t.function t.arguments
    (t.frame inst memory storage env)
  return {
    memoryChangeset := vm.memory.changeset
    storageChangeset := vm.storage.changeset
    ending := .called callEnd
    gasLeft := vm.gas
    trace := vm.trace }

/-- `Transaction::run`. -/
def run (P : Platform) (fuel : Nat) (t : Transaction) (memory : Memory)
    (storage : Storage) (env : Env) :
    Except Stop (Changeset × Changeset × Result × Option Nat) :=
  (execute P fuel t memory storage env).map fun e =>
    (e.memoryChangeset, e.storageChangeset, e.ending.result, e.gasLeft)

/-- A run that got as far as a call did so in one frame, on the contract's
code. -/
theorem execute_called {fuel : Nat} {t : Transaction} {memory : Memory}
    {storage : Storage} {env : Env} {e : Executed} {callEnd : CallEnd}
    (h : execute P fuel t memory storage env = .ok e)
    (hend : e.ending = .called callEnd) :
    ∃ inst vm, VM.call (invoke P fuel []) t.function t.arguments
        (t.frame inst memory storage env) = .ok (callEnd, vm) ∧
      e.memoryChangeset = vm.memory.changeset ∧
      e.storageChangeset = vm.storage.changeset ∧
      e.trace = vm.trace := by
  unfold execute at h
  obtain ⟨code, _, h⟩ := except_bind_eq_ok.mp h
  split at h
  · cases h
    cases hend
  · obtain ⟨inst, _, h⟩ := except_bind_eq_ok.mp h
    obtain ⟨⟨callEnd', vm⟩, hcall, h⟩ := except_bind_eq_ok.mp h
    cases h
    cases hend
    exact ⟨inst, vm, hcall, rfl, rfl, rfl⟩

/-- A run that found no code changed and recorded nothing. -/
theorem execute_notFound {fuel : Nat} {t : Transaction} {memory : Memory}
    {storage : Storage} {env : Env} {e : Executed}
    (h : execute P fuel t memory storage env = .ok e) (hend : e.ending = .contractNotFound) :
    e.memoryChangeset = memory.changeset ∧ e.storageChangeset = storage.changeset ∧
      e.trace = [] := by
  unfold execute at h
  obtain ⟨code, _, h⟩ := except_bind_eq_ok.mp h
  split at h
  · cases h
    exact ⟨rfl, rfl, rfl⟩
  · obtain ⟨inst, _, h⟩ := except_bind_eq_ok.mp h
    obtain ⟨⟨callEnd', vm⟩, hcall, h⟩ := except_bind_eq_ok.mp h
    cases h
    cases hend

/-- The changesets a call leaves behind are the given ones, under the recorded
operations. -/
theorem execute_journaled {fuel : Nat} {t : Transaction} {memory : Memory}
    {storage : Storage} {env : Env} {e : Executed} {callEnd : CallEnd}
    (h : execute P fuel t memory storage env = .ok e)
    (hend : e.ending = .called callEnd) :
    e.memoryChangeset = (memory.layers.run (memoryOps e.trace)).committed ∧
      e.storageChangeset = (storage.layers.run (storageOps e.trace)).committed := by
  obtain ⟨inst, vm, hcall, hm, hs, htrace⟩ := execute_called h hend
  obtain ⟨events, hevents, hmemory, hstorage⟩ := journaled_call fuel _ _ _ _ _ _ hcall
  have hsame : e.trace = events := htrace.trans hevents
  rw [hm, hs, hsame, ← Memory.layers_run, ← Storage.layers_run]
  exact ⟨congrArg Memory.changeset hmemory, congrArg Storage.changeset hstorage⟩

/-- **When a trapped transaction leaves no trace.**  The outermost frame's own
writes are never committed, so what the record makes permanent was committed
by calls nested in the transaction that returned normally.  The transaction
returns the changesets it was given exactly if the last write each such commit
made to a key is the entry that the given changeset has there. -/
theorem trapped_run_unchanged_iff {fuel : Nat} {t : Transaction}
    {redis : Redis} {rocksdb : RocksDB} {memoryChangeset storageChangeset : Changeset}
    {env : Env} {e : Executed}
    (h : execute P fuel t (Memory.new redis memoryChangeset)
      (Storage.new redis rocksdb storageChangeset) env = .ok e)
    (htrap : e.ending.isTrap = true) :
    run P fuel t (Memory.new redis memoryChangeset)
        (Storage.new redis rocksdb storageChangeset) env =
        .ok (memoryChangeset, storageChangeset, e.ending.result, e.gasLeft) ↔
      (∀ key value, committedWrite (memoryOps e.trace) key = some value →
        memoryChangeset.lookup key = some value) ∧
      (∀ key value, committedWrite (storageOps e.trace) key = some value →
        storageChangeset.lookup key = some value) := by
  cases hend : e.ending with
  | contractNotFound => rw [hend] at htrap; cases htrap
  | called callEnd =>
      obtain ⟨hm, hs⟩ := execute_journaled h hend
      have hmemory := Layers.committed_run_eq_iff
        (Memory.new redis memoryChangeset).layers (memoryOps e.trace)
      have hstorage := Layers.committed_run_eq_iff
        (Storage.new redis rocksdb storageChangeset).layers (storageOps e.trace)
      rw [← hm, keepsCommitted_of_fresh rfl] at hmemory
      rw [← hs, keepsCommitted_of_fresh rfl] at hstorage
      unfold run
      rw [h, ← hend]
      simp only [Except.map, Except.ok.injEq, Prod.mk.injEq, and_true]
      exact and_congr hmemory hstorage

end Transaction

/-! ## A nested call that returned before the trap -/

namespace Script

/-- Writes one memory entry and returns. -/
def writer : Contract where
  exports := [("f", [.host SET_MEMORY_FUNC_INDEX [0, 5], .answer 10])]
  memory := slot [1] ++ slot [9] ++ slot [0, 0, 0, 0, 0xf6]

/-- Calls the contract `B`, then traps. -/
def callThenTrap : Contract where
  exports :=
    [ ("__malloc", [.answer 20])
    , ("f", [.host CALL_FUNC_INDEX [0, 5, 10], .trap .unreachable])
    , ("g", [.host SET_MEMORY_FUNC_INDEX [0, 5], .trap .unreachable]) ]
  memory := slot [66] ++ slot [0x66] ++ slot [0x80] ++ List.replicate 40 0

/-- The two contracts, under the addresses `A` and `B`. -/
def callThenTrapPlatform : Platform := platform [([1], callThenTrap), ([2], writer)]

/-- A transaction that calls a function of the contract `A`. -/
def callA (function : String) : Transaction where
  contractAddress := [65]
  sender := []
  nonce := 0
  gasLimit := 100000
  function := function
  arguments := []

/-- The environment of a first block. -/
def firstBlock : Env where
  blockNumber := 0
  blockWinner := []
  blockHash := []
  caller := none

/-- A run of `A`'s function on fresh state. -/
def runA (function : String) : Except Stop Executed :=
  Transaction.execute callThenTrapPlatform 10 (callA function) (Memory.new ∅ ∅)
    (Storage.new ∅ ∅ (deployed [([65], [1]), ([66], [2])])) firstBlock

end Script

open Script in
/-- `A` calls `B`, which writes and returns; then `A` traps.  `B`'s write is in
the memory changeset returned. -/
theorem nested_write_survives_trap :
    ¬ ∀ (P : Platform) (fuel : Nat) (t : Transaction) (redis : Redis)
      (rocksdb : RocksDB) (memoryChangeset storageChangeset : Changeset)
      (env : Env) (e : Executed),
      Transaction.execute P fuel t (Memory.new redis memoryChangeset)
          (Storage.new redis rocksdb storageChangeset) env = .ok e →
        e.ending.isTrap = true →
          Transaction.run P fuel t (Memory.new redis memoryChangeset)
              (Storage.new redis rocksdb storageChangeset) env =
            .ok (memoryChangeset, storageChangeset, e.ending.result, e.gasLeft) := by
  intro h
  have hrun : (runA "f").toOption.map (fun e =>
      (e.ending.isTrap, e.memoryChangeset.lookup (rightPadVec [66] 64 0 ++ [1]))) =
        some (true, some [9]) := by decide +kernel
  obtain ⟨e, he, hvalue⟩ := exists_ok_of_map hrun
  obtain ⟨htrap, hlookup⟩ := Prod.mk.inj hvalue
  have hsame := h _ _ _ _ _ _ _ _ e he htrap
  unfold Transaction.run at hsame
  rw [show Transaction.execute _ _ _ _ _ _ = .ok e from he] at hsame
  have hempty : e.memoryChangeset = ∅ :=
    (Prod.mk.inj (Except.ok.inj hsame)).1
  rw [hempty] at hlookup
  cases hlookup

open Script in
/-- `A` writes and traps without a nested call: nothing is left of it. -/
theorem trapped_run_unchanged_at_g :
    ∃ e, runA "g" = .ok e ∧ e.ending.isTrap = true ∧
      Transaction.run callThenTrapPlatform 10 (callA "g") (Memory.new ∅ ∅)
          (Storage.new ∅ ∅ (deployed [([65], [1]), ([66], [2])])) firstBlock =
        .ok (∅, deployed [([65], [1]), ([66], [2])], e.ending.result, e.gasLeft) := by
  have hrun : (runA "g").toOption.map (fun e => (e.ending.isTrap,
      memoryOps e.trace, storageOps e.trace)) =
        some (true, [.set (rightPadVec [65] 64 0 ++ [66]) [0x66], .rollback],
          [.rollback]) := by rfl
  obtain ⟨e, he, hvalue⟩ := exists_ok_of_map hrun
  obtain ⟨htrap, hops⟩ := Prod.mk.inj hvalue
  obtain ⟨hmemory, hstorage⟩ := Prod.mk.inj hops
  refine ⟨e, he, htrap, (Transaction.trapped_run_unchanged_iff he htrap).mpr ⟨?_, ?_⟩⟩
  · rw [hmemory]
    exact fun key value h => nomatch h
  · rw [hstorage]
    exact fun key value h => nomatch h

end Ellipticoind.Ports
