import Ellipticoind.Ports.Transaction

/-!
# The native transaction processor

`main.rs` and `system_contracts.rs` of the transaction processor: one
transaction on a block's changesets so far, and a block as a fold of its
transactions.  `process_new_block` and `process_existing_block` differ in
where the transactions come from (the queue, the standard input) and share
everything else.

Both changesets of a block start empty, over the persisted state, which the
processor does not write.
-/

namespace Ellipticoind.Ports

variable (P : Platform) (fuel : Nat)

/-- What running one transaction gives: its changesets, its result, and the
record of its run. -/
structure Outcome where
  memoryChangeset : Changeset
  storageChangeset : Changeset
  result : Result
  trace : List Event

/-! ## `system_contracts.rs` -/

namespace SystemContracts

def isSystemContract (t : Transaction) : Bool :=
  t.contractAddress = List.replicate 32 0 ++ utf8 "system"

/-- The result of a system call that is not understood. -/
def ignored : Outcome where
  memoryChangeset := ∅
  storageChangeset := ∅
  result := (0, .null)
  trace := []

/-- `run_constuctor`. -/
def runConstructor (t : Transaction) (memory : Memory) (storage : Storage)
    (env : Env) (contractName : String) (arguments : List Value) :
    Except Stop Outcome := do
  let constructor : Transaction := {
    function := "constructor"
    arguments := arguments
    sender := t.sender
    nonce := t.nonce
    gasLimit := t.gasLimit
    contractAddress := t.sender ++ utf8 contractName }
  let e ← constructor.execute P fuel memory storage env
  return {
    memoryChangeset := e.memoryChangeset
    storageChangeset := e.storageChangeset
    result := e.ending.result
    trace := e.trace }

/-- `create_contract`.  The code is committed before the constructor runs. -/
def createContract (t : Transaction) (memory : Memory) (storage : Storage)
    (env : Env) : Except Stop Outcome :=
  match t.arguments with
  | [.text contractName, .bytes code, .array arguments] =>
      let address := rightPadVec (t.sender ++ utf8 contractName) 64 0
      runConstructor P fuel t memory (storage.set address code).commit env
        contractName arguments
  | _ => .ok ignored

def run (t : Transaction) (memory : Memory) (storage : Storage) (env : Env) :
    Except Stop Outcome :=
  if t.function = "create_contract" then createContract P fuel t memory storage env
  else .ok ignored

def baseTokenAddress : Bytes := List.replicate 32 0 ++ utf8 "BaseToken"

/-- The transaction that `transfer` makes up. -/
def transferTransaction (t : Transaction) (amount : Nat) (sender winner : Bytes) :
    Transaction where
  function := "transfer"
  nonce := 0
  gasLimit := t.gasLimit
  contractAddress := baseTokenAddress
  sender := sender
  arguments := [.bytes winner, .integer amount]

/-- `transfer`: an unmetered call of the base token. -/
def transfer (t : Transaction) (redis : Redis) (rocksdb : RocksDB)
    (memoryChangeset storageChangeset : Changeset) (env : Env) (amount : Nat)
    (sender winner : Bytes) : Except Stop Outcome := do
  let memory := Memory.new redis memoryChangeset
  let storage := Storage.new redis rocksdb storageChangeset
  let transaction := transferTransaction t amount sender winner
  let code ← unwrap (storage.get (rightPadVec transaction.contractAddress 64 0))
  let inst ← newModuleInstance P fuel code
  let (callEnd, vm) ← VM.call (invoke P fuel []) "transfer" transaction.arguments
    { transaction.frame inst memory storage env with gas := none }
  return {
    memoryChangeset := vm.memory.changeset
    storageChangeset := vm.storage.changeset
    result := callEnd.result
    trace := vm.trace }

end SystemContracts

/-! ## `main.rs` -/

/-- `transaction.gas_limit - gas_left as u64`. -/
def subU64 (a b : Nat) : Except Stop Nat :=
  if b ≤ a then .ok (a - b)
  else if P.overflowChecks then .error .panic
  else .ok (a + 2 ^ 64 - b)

/-- The part of `run_transaction` before the block's changesets are extended.
A user's transaction pays for its gas with a transfer to the block's winner,
run on its memory changeset and an empty storage changeset. -/
def runOutcome (redis : Redis) (rocksdb : RocksDB) (t : Transaction) (env : Env)
    (memoryChangeset storageChangeset : Changeset) : Except Stop Outcome := do
  let memory := Memory.new redis memoryChangeset
  let storage := Storage.new redis rocksdb storageChangeset
  if SystemContracts.isSystemContract t then
    SystemContracts.run P fuel t memory storage env
  else
    let e ← t.execute P fuel memory storage env
    let gasUsed ← subU64 P t.gasLimit (← unwrap e.gasLeft)
    let gas ← SystemContracts.transfer P fuel t redis rocksdb e.memoryChangeset ∅ env
      (gasUsed % 2 ^ 32) t.sender env.blockWinner
    return {
      memoryChangeset := gas.memoryChangeset
      storageChangeset := e.storageChangeset
      result := e.ending.result
      trace := e.trace ++ gas.trace }

/-- A block's changesets and completed transactions so far, with the record of
all its runs. -/
structure Processed where
  memoryChangeset : Changeset
  storageChangeset : Changeset
  transactions : List CompletedTransaction
  trace : List Event

/-- Before the first transaction. -/
def Processed.empty : Processed where
  memoryChangeset := ∅
  storageChangeset := ∅
  transactions := []
  trace := []

/-- `run_transaction`, and the push that follows it. -/
def runTransaction (redis : Redis) (rocksdb : RocksDB) (env : Env) (b : Processed)
    (t : Transaction) : Except Stop Processed := do
  let o ← runOutcome P fuel redis rocksdb t env b.memoryChangeset b.storageChangeset
  return {
    memoryChangeset := o.memoryChangeset ∪ b.memoryChangeset
    storageChangeset := o.storageChangeset ∪ b.storageChangeset
    transactions := b.transactions ++ [t.complete o.result]
    trace := b.trace ++ o.trace }

/-- The loop of `process_new_block` over the transactions it pops, and that of
`process_existing_block` over those it is given. -/
def processTransactions (redis : Redis) (rocksdb : RocksDB) (env : Env)
    (ts : List Transaction) : Except Stop Processed :=
  ts.foldlM (runTransaction P fuel redis rocksdb env) .empty

end Ellipticoind.Ports
