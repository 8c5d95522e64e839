import Ellipticoind.Ports.Budget

/-!
# Mining a block and applying it elsewhere

The node's side of the processor (`transaction_processor.ex`, and what it uses
of `block.ex`).  The miner runs queued transactions in an environment made from
its best block; whoever receives the block runs the block's transactions in an
environment made from the block.

The two environments differ in one field: the miner passes the empty string
for the block's hash, which it does not know before the block is complete.

## Main results

* `processTransactions_withHash` — a batch that never asks for the block's
  hash runs the same under every hash.
* `process_agrees` — when a receiver computes what the miner computed.
-/

namespace Ellipticoind.Ports

open Ellipticoind.Verified.StateRun

variable {P : Platform}

/-! ## Blocks -/

/-- `Block`, with the fields that are read here. -/
structure Block where
  hash : Bytes
  number : Nat
  winner : Bytes
  memoryChangesetHash : Bytes
  storageChangesetHash : Bytes
  proofOfWorkValue : Nat
  transactions : List CompletedTransaction

/-- The attributes of a block that is not complete yet. -/
structure NewBlock where
  number : Nat
  parentHash : Option Bytes
  winner : Bytes
  memoryChangesetHash : Bytes
  storageChangesetHash : Bytes
  transactions : List CompletedTransaction

/-- `Block.next_block_number`. -/
def nextBlockNumber : Option Block → Nat
  | none => 0
  | some best => best.number + 1

/-- `Block.build_next`.  Without a best block the number is the schema's
default. -/
def buildNext (best : Option Block) (publicKey emptyHash : Bytes)
    (transactions : List CompletedTransaction) : NewBlock where
  number := match best with
    | none => 0
    | some best => best.number + 1
  parentHash := best.map Block.hash
  winner := publicKey
  memoryChangesetHash := emptyHash
  storageChangesetHash := emptyHash
  transactions := transactions

/-- What the node takes from third-party code: `Crypto.hash` of a block's
attributes with its proof of work, and of the empty string; and the CBOR of a
block's transactions, as `TransactionView.as_map` leaves them, with its reading
as `Vec<Transaction>`. -/
structure NodeLibrary where
  blockHash : NewBlock → Nat → Bytes
  emptyHash : Bytes
  encode : List CompletedTransaction → Bytes
  decode : Bytes → Option (List Transaction)

variable (L : NodeLibrary)

/-- The record that `Block.changeset` and the insertion make of the
attributes. -/
def NewBlock.complete (b : NewBlock) (proofOfWorkValue : Nat) : Block where
  hash := L.blockHash b proofOfWorkValue
  number := b.number
  winner := b.winner
  memoryChangesetHash := b.memoryChangesetHash
  storageChangesetHash := b.storageChangesetHash
  proofOfWorkValue := proofOfWorkValue
  transactions := b.transactions

/-! ## `transaction_processor.ex` -/

/-- The environment of `process_new_block`. -/
def newBlockEnv (best : Option Block) (publicKey : Bytes) : Env where
  blockNumber := nextBlockNumber best
  blockWinner := publicKey
  blockHash := []
  caller := none

/-- The environment of `process`. -/
def existingBlockEnv (block : Block) : Env where
  blockNumber := block.number
  blockWinner := block.winner
  blockHash := block.hash
  caller := none

/-- `process_new_block`, on the transactions it pops, up to the native result:
the changesets, and the transactions of the block to build. -/
def processNewBlock (P : Platform) (fuel : Nat) (redis : Redis) (rocksdb : RocksDB)
    (best : Option Block) (publicKey : Bytes) (ts : List Transaction) :
    Except Stop Processed :=
  processTransactions P fuel redis rocksdb (newBlockEnv best publicKey) ts

/-- The block the miner makes of a native result and a proof of work. -/
def minedBlock (best : Option Block) (publicKey : Bytes) (mined : Processed)
    (proofOfWorkValue : Nat) : Block :=
  (buildNext best publicKey L.emptyHash mined.transactions).complete L proofOfWorkValue

/-- `process`, up to the native result. -/
def process (P : Platform) (fuel : Nat) (redis : Redis) (rocksdb : RocksDB)
    (block : Block) : Except Stop Processed := do
  let ts ← unwrap (L.decode (L.encode block.transactions))
  processTransactions P fuel redis rocksdb (existingBlockEnv block) ts

/-- A transaction that has run is the last of the completed ones. -/
theorem transactions_of_runTransaction {fuel : Nat} {redis : Redis} {rocksdb : RocksDB}
    {env : Env} {b b' : Processed} {t : Transaction}
    (h : runTransaction P fuel redis rocksdb env b t = .ok b') :
    ∃ result, b'.transactions = b.transactions ++ [t.complete result] := by
  obtain ⟨o, -, hb'⟩ := except_bind_eq_ok.mp h
  cases hb'
  exact ⟨o.result, rfl⟩

/-! ## Runs under two hashes -/

/-- The environment of the same block, under another hash. -/
def Env.withHash (env : Env) (hash : Bytes) : Env := { env with blockHash := hash }

/-- The frame `t` is the frame `s`, under another block hash. -/
def SameButHash (hash : Bytes) (s t : VM P) : Prop :=
  t = { s with env := s.env.withHash hash }

/-- The record has no call of `__block_hash`. -/
def NoBlockHash (trace : List Event) : Prop := .host BLOCK_HASH_FUNC_INDEX ∉ trace

theorem noBlockHash_append {xs ys : List Event} :
    NoBlockHash (xs ++ ys) ↔ NoBlockHash xs ∧ NoBlockHash ys := by
  unfold NoBlockHash
  rw [List.mem_append, not_or]

/-- The record only grows, so what it does not have at the end it did not have
before. -/
theorem frameRelation_noBlockHash :
    FrameRelation fun vm vm' : VM P => NoBlockHash vm'.trace → NoBlockHash vm.trace where
  refl _ h := h
  trans h₁ h₂ h := h₁ (h₂ h)
  useGas _ _ _ _ _ h := h
  moduleInstance _ _ h := h
  host _ _ h := (noBlockHash_append.mp h).1
  memoryGet _ _ h := (noBlockHash_append.mp h).1
  storageGet _ _ h := (noBlockHash_append.mp h).1
  memorySet _ _ _ h := (noBlockHash_append.mp h).1
  storageSet _ _ _ h := (noBlockHash_append.mp h).1
  commit _ h := (noBlockHash_append.mp h).1
  rollback _ h := (noBlockHash_append.mp h).1
  nested _ _ _ _ _ _ hcallee h :=
    (noBlockHash_append.mp (hcallee (noBlockHash_append.mp h).1)).1

/-- Frames that differ in the block's hash stay so until one asks for it. -/
theorem frameSimulation_sameButHash (hash : Bytes) :
    FrameSimulation (SameButHash (P := P) hash) fun vm => NoBlockHash vm.trace where
  inherited := frameRelation_noBlockHash
  moduleInstance := by rintro s _ rfl; rfl
  gas := by rintro s _ rfl; rfl
  transaction := by rintro s _ rfl; rfl
  blockNumber := by rintro s _ rfl; rfl
  blockWinner := by rintro s _ rfl; rfl
  caller := by rintro s _ rfl; rfl
  memoryGet := by rintro s _ key rfl _; exact ⟨rfl, rfl⟩
  storageGet := by rintro s _ key rfl _; exact ⟨rfl, rfl⟩
  setGas := by rintro s _ gas rfl; rfl
  setInstance := by rintro s _ inst rfl; rfl
  host := by
    rintro s _ index rfl hgood
    refine ⟨rfl, fun hindex => ?_⟩
    have hlast := (noBlockHash_append.mp hgood).2
    rw [hindex] at hlast
    exact absurd List.mem_cons_self hlast
  memorySet := by rintro s _ key value rfl; rfl
  storageSet := by rintro s _ key value rfl; rfl
  commit := by rintro s _ rfl; rfl
  rollback := by rintro s _ rfl; rfl
  calleeFrame := by rintro s _ inst address name rfl; rfl
  nested := by rintro s _ callee _ callEnd rfl rfl; rfl
  nestedGood _ h := (noBlockHash_append.mp h).1

/-- A call that does not ask for the block's hash goes the same under any. -/
theorem call_withHash {fuel : Nat} {func : String} {arguments : List Value}
    {vm vm' : VM P} {callEnd : CallEnd} (hash : Bytes)
    (h : VM.call (invoke P fuel []) func arguments vm = .ok (callEnd, vm'))
    (hgood : NoBlockHash vm'.trace) :
    VM.call (invoke P fuel []) func arguments { vm with env := vm.env.withHash hash } =
      .ok (callEnd, { vm' with env := vm'.env.withHash hash }) := by
  have hsim := frameSimulation_sameButHash (P := P) hash
  obtain ⟨_, hcall, rfl⟩ := (hsim.simulates_call (hsim.simulates_invoke le_rfl []) func
    arguments).matched vm _ _ _ rfl h hgood
  exact hcall

theorem callsAlike_withHash (fuel : Nat) (env : Env) (hash : Bytes) :
    CallsAlike P fuel fuel env (env.withHash hash) NoBlockHash where
  budget := le_rfl
  blockWinner := rfl
  append := noBlockHash_append.mp
  call := by
    rintro func arguments vm vm' callEnd rfl hcall hgood
    exact ⟨vm'.env.withHash hash, call_withHash hash hcall hgood⟩

/-- A batch that never asks for the block's hash runs the same under every
hash. -/
theorem processTransactions_withHash {fuel : Nat} {redis : Redis} {rocksdb : RocksDB}
    {env : Env} {ts : List Transaction} {b : Processed} (hash : Bytes)
    (h : processTransactions P fuel redis rocksdb env ts = .ok b)
    (hgood : NoBlockHash b.trace) :
    processTransactions P fuel redis rocksdb (env.withHash hash) ts = .ok b :=
  (callsAlike_withHash fuel env hash).foldlM h hgood

/-! ## Mining and applying -/

/-- A batch completes the transactions it runs, in their order. -/
theorem transactions_foldlM {fuel : Nat} {redis : Redis} {rocksdb : RocksDB}
    {env : Env} {b b' : Processed} {ts : List Transaction}
    (h : ts.foldlM (runTransaction P fuel redis rocksdb env) b = .ok b') :
    b'.transactions.map CompletedTransaction.transaction =
      b.transactions.map CompletedTransaction.transaction ++ ts := by
  induction ts generalizing b with
  | nil =>
      cases h
      exact (List.append_nil _).symm
  | cons t rest ih =>
      rw [List.foldlM_cons] at h
      obtain ⟨b₁, hrun, hrest⟩ := except_bind_eq_ok.mp h
      obtain ⟨o, _, hb₁⟩ := except_bind_eq_ok.mp hrun
      cases hb₁
      rw [ih hrest, List.map_append, List.append_assoc]
      rfl

theorem transactions_processTransactions {fuel : Nat} {redis : Redis}
    {rocksdb : RocksDB} {env : Env} {ts : List Transaction} {b : Processed}
    (h : processTransactions P fuel redis rocksdb env ts = .ok b) :
    b.transactions.map CompletedTransaction.transaction = ts :=
  transactions_foldlM h

/-- The receiver's environment is the miner's, under the block's hash. -/
theorem existingBlockEnv_minedBlock (best : Option Block) (publicKey : Bytes)
    (mined : Processed) (proofOfWorkValue : Nat) :
    existingBlockEnv (minedBlock L best publicKey mined proofOfWorkValue) =
      (newBlockEnv best publicKey).withHash
        (minedBlock L best publicKey mined proofOfWorkValue).hash := by
  cases best <;> rfl

/-- **When a receiver computes what the miner computed.**  From the same
persisted state, processing the mined block gives the miner's two changesets
and its completed transactions, return codes and values included, if the block's
hash is the empty one the miner ran under, or no contract asked for it. -/
theorem process_agrees {fuel : Nat} {redis : Redis} {rocksdb : RocksDB}
    {best : Option Block} {publicKey : Bytes} {ts : List Transaction}
    {mined : Processed} (proofOfWorkValue : Nat)
    (hmine : processNewBlock P fuel redis rocksdb best publicKey ts = .ok mined)
    (hcodec : L.decode (L.encode mined.transactions) =
      some (mined.transactions.map CompletedTransaction.transaction))
    (hhash : (minedBlock L best publicKey mined proofOfWorkValue).hash = [] ∨
      NoBlockHash mined.trace) :
    process L P fuel redis rocksdb
      (minedBlock L best publicKey mined proofOfWorkValue) = .ok mined := by
  have hmine' : processTransactions P fuel redis rocksdb (newBlockEnv best publicKey) ts =
      .ok mined := hmine
  unfold process
  refine except_bind_eq_ok.mpr ⟨ts, ?_, ?_⟩
  · rw [← transactions_processTransactions hmine']
    exact congrArg unwrap hcodec
  · rw [existingBlockEnv_minedBlock]
    rcases hhash with hempty | hgood
    · rw [hempty]
      exact hmine'
    · exact processTransactions_withHash _ hmine' hgood

/-! ## A constructor that keeps the block's hash -/

namespace Script

/-- Its constructor writes the block's hash into the contract's memory; `g`
does not ask for it. -/
def hashKeeper : Contract where
  exports :=
    [ ("__malloc", [.answer 20])
    , ("constructor",
        [ .host BLOCK_HASH_FUNC_INDEX []
        , .host SET_MEMORY_FUNC_INDEX [0, 20]
        , .answer 10 ]) ]
  memory := slot [1] ++ List.replicate 5 0 ++ slot [0, 0, 0, 0, 0xf6] ++
    List.replicate 60 0

/-- Its constructor writes a constant. -/
def constantKeeper : Contract where
  exports := [("constructor", [.host SET_MEMORY_FUNC_INDEX [0, 5], .answer 10])]
  memory := slot [1] ++ slot [9] ++ slot [0, 0, 0, 0, 0xf6]

def keeperPlatform : Platform := platform [([1], hashKeeper), ([2], constantKeeper)]

/-- The transaction that deploys the contract with the given code. -/
def deploy (code : Bytes) : Transaction where
  contractAddress := List.replicate 32 0 ++ utf8 "system"
  sender := List.replicate 32 65
  nonce := 1
  gasLimit := 1000000
  function := "create_contract"
  arguments := [.text "keeper", .bytes code, .array []]

/-- A library that is right about blocks that deploy that contract alone. -/
def deployLibrary (code : Bytes) : NodeLibrary where
  blockHash _ _ := List.replicate 32 1
  emptyHash := List.replicate 32 2
  encode _ := code
  decode _ := some [deploy code]

/-- The round that mines it as the first block. -/
def mineDeploy (code : Bytes) : Except Stop Processed :=
  processNewBlock keeperPlatform 20 ∅ ∅ none [7] [deploy code]

/-- The key of the constructor's write. -/
def keptKey : Bytes := rightPadVec (List.replicate 32 65 ++ utf8 "keeper") 64 0 ++ [1]

end Script

open Script in
/-- The miner's constructor is told the empty hash, the receiver's the block's
hash, and both write what they were told. -/
theorem block_hash_told_apart :
    ¬ ∀ (L : NodeLibrary) (P : Platform) (fuel : Nat) (redis : Redis)
      (rocksdb : RocksDB) (best : Option Block) (publicKey : Bytes)
      (ts : List Transaction) (mined : Processed) (proofOfWorkValue : Nat),
      processNewBlock P fuel redis rocksdb best publicKey ts = .ok mined →
        L.decode (L.encode mined.transactions) =
            some (mined.transactions.map CompletedTransaction.transaction) →
          ∃ applied,
            process L P fuel redis rocksdb
                (minedBlock L best publicKey mined proofOfWorkValue) = .ok applied ∧
              applied.memoryChangeset = mined.memoryChangeset ∧
              applied.storageChangeset = mined.storageChangeset ∧
              applied.transactions = mined.transactions := by
  intro h
  have hmine : (mineDeploy [1]).toOption.map
      (fun b => b.memoryChangeset.lookup keptKey) = some (some []) := by rfl
  obtain ⟨mined, hmined, hkept⟩ := exists_ok_of_map hmine
  have hcodec : (deployLibrary [1]).decode ((deployLibrary [1]).encode mined.transactions) =
      some (mined.transactions.map CompletedTransaction.transaction) := by
    rw [transactions_processTransactions hmined]
    rfl
  have happly : (processTransactions keeperPlatform 20 ∅ ∅
      ((newBlockEnv none [7]).withHash (List.replicate 32 1)) [deploy [1]]).toOption.map
        (fun b => b.memoryChangeset.lookup keptKey) =
          some (some (List.replicate 32 1)) := by decide +kernel
  obtain ⟨applied, happlied, hmemory, _, _⟩ := h _ _ _ _ _ _ _ _ _ 0 hmined hcodec
  obtain ⟨applied', happlied', hkept'⟩ := exists_ok_of_map happly
  obtain ⟨ts, hts, happlied⟩ := except_bind_eq_ok.mp happlied
  cases hts
  rw [existingBlockEnv_minedBlock] at happlied
  cases Except.ok.inj (happlied.symm.trans happlied')
  rw [hmemory, hkept] at hkept'
  cases hkept'

open Script in
/-- The deployment of a contract that does not ask for the hash. -/
theorem process_agrees_at_constant :
    ∃ mined, mineDeploy [2] = .ok mined ∧
      process (deployLibrary [2]) keeperPlatform 20 ∅ ∅
        (minedBlock (deployLibrary [2]) none [7] mined 0) = .ok mined := by
  have hmine : (mineDeploy [2]).toOption.map (fun b => b.trace) =
      some [.host SET_MEMORY_FUNC_INDEX, .setMemory keptKey [9], .commit] := by rfl
  obtain ⟨mined, hmined, htrace⟩ := exists_ok_of_map hmine
  have hcodec : (deployLibrary [2]).decode ((deployLibrary [2]).encode mined.transactions) =
      some (mined.transactions.map CompletedTransaction.transaction) := by
    rw [transactions_processTransactions hmined]
    rfl
  refine ⟨mined, hmined, process_agrees (deployLibrary [2]) 0 hmined hcodec (.inr ?_)⟩
  rw [htrace]
  simp [NoBlockHash, BLOCK_HASH_FUNC_INDEX, SET_MEMORY_FUNC_INDEX]

end Ellipticoind.Ports
