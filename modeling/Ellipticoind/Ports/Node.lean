import Ellipticoind.Ports.TransactionProcessor
import Ellipticoind.Ports.BlockIndex
import Ellipticoind.Ports.QueueEntries
import Ellipticoind.Verified.Runs

/-!
# A node

The processes of one node and what they share: `miner.ex`, `p2p.ex`,
`Block.apply`, `Transaction.post`, and the native programs they start.  Each
process is a small machine that takes one step at a time; an `Action` names the
process that moves, and any order of actions is possible.

The miner and the P2P process meet in the database, in Redis and RocksDB, and
in the miner's mailbox.  `Miner.stop` is a message like any other: whoever
receives next takes it, be it a round or the loop between two rounds.

A native processor outlives its port: a round that is stopped closes the port,
and the program goes on taking transactions from the queue until its time is
up.

One step of the model is one access to what is shared: one command to Redis for
the queue, one transaction executed, one changeset written, one query of the
database, one message, one port closed.  A line printed by a program arrives as
one message.

`NodeHistory` is not in the source.  It records what has happened, and no
definition that returns anything else reads it.
-/

namespace Ellipticoind.Ports

open Ellipticoind.Verified

/-! ## Messages and processes -/

/-- What `Repo.insert` does with a block. -/
inductive InsertResult where
  | stored
  /-- `{:error, changeset}`. -/
  | refused
  | raised
  deriving DecidableEq

/-- What the node takes from third-party code and from its configuration. -/
structure NodeConfig extends NodeLibrary where
  /-- `Configuration.public_key`. -/
  publicKey : Bytes
  /-- The libraries that transactions are written, read and signed with. -/
  codec : Records.Codec
  /-- `Validations.valid_proof_of_work_value?`. -/
  validProofOfWork : Block → Bool
  /-- The pairs of an Elixir map in the order of a comprehension. -/
  toList : Changeset → List (Bytes × Bytes)
  /-- `Repo.insert`, at the stored blocks and a block. -/
  insert : List Block → Block → InsertResult
  /-- `Contract.base_contract_code(:BaseToken)`. -/
  baseTokenCode : Bytes

/-- `from_slice::<Transaction>`. -/
def NodeConfig.decodeTransaction (C : NodeConfig) (entry : Bytes) : Option Transaction :=
  Records.fromSlice C.codec entry

/-- `to_vec` of a `Transaction`. -/
def NodeConfig.transactionToVec (C : NodeConfig) (t : Transaction) : Bytes := C.codec.toVec t

/-- What a native processor prints at its end; `entries` are the queue entries
it ran, which it does not print. -/
structure RoundResult where
  processed : Processed
  entries : List Bytes

/-- A message in the miner's mailbox. -/
inductive Message where
  | stop
  /-- `{:mine_next_block}`. -/
  | mineNextBlock
  /-- `{port, {:data, line}}` from a native processor. -/
  | result (port : Nat) (r : RoundResult)
  /-- `{port, {:data, line}}` from a hashfactor. -/
  | nonce (port : Nat) (value : Nat)

/-- Where the miner is. -/
inductive MinerPhase where
  /-- In the loop of the `GenServer`. -/
  | loop
  | mint
  /-- `process_new_block`, before the port is open. -/
  | processNewBlock
  | receiveNative (port : Nat)
  /-- `receive_stop_or_message` has taken `:stop`; the port is still open. -/
  | closeNative (port : Nat)
  | buildNext (r : RoundResult)
  | hashfactor (port : Nat) (newBlock : NewBlock) (r : RoundResult)
  /-- `Hashfactor.run` has taken `:stop`; the port is still open. -/
  | closeHasher (port : Nat)
  | insertBlock (block : Block) (r : RoundResult)
  /-- The changesets of these kinds are still to be written. -/
  | writeChangesets (block : Block) (r : RoundResult) (kinds : List StateType)
  | castMineNextBlock

/-- Where the P2P process is. -/
inductive ApplyPhase where
  | loop
  | stop (block : Block)
  /-- `process`, before the port is open. -/
  | process (block : Block)
  /-- The native processor has the transactions `rest` to go. -/
  | receiveNative (block : Block) (rest : List Transaction) (processed : Processed)
  /-- The result is there, and nothing is written yet. -/
  | writeFirst (block : Block) (processed : Processed)
  | writeChangesets (block : Block) (processed : Processed) (kinds : List StateType)
  | insert (block : Block)
  | castMineNextBlock
  /-- Waiting for a program that has died. -/
  | hung

/-- A message to the P2P process.  A transaction stands as the entry that
`Transaction.post` pushes for the struct received. -/
inductive P2PMessage where
  | transaction (entry : Bytes)
  | block (block : Block)

inductive NativeStage where
  | running
  | printed
  | panicked
  deriving DecidableEq

/-- A native program that runs `process_new_block`. -/
structure Native where
  port : Nat
  env : Env
  /-- The transaction it has popped and not finished. -/
  popped : Option Bytes
  processed : Processed
  /-- The entries it has finished. -/
  entries : List Bytes
  connected : Bool
  stage : NativeStage

/-- A native program that searches for a nonce. -/
structure Hasher where
  port : Nat
  answered : Bool

/-- What has happened. -/
structure NodeHistory where
  /-- The entries pushed on the queue. -/
  pushed : List Bytes
  /-- The entries taken from the queue for the current round. -/
  round : List Bytes
  /-- The entries of the rounds whose blocks were stored. -/
  mined : List Bytes
  /-- The requests whose signatures this node has checked, and that were queued. -/
  checked : List Records.TransactionMap
  /-- The transactions a native processor of this node has run. -/
  executed : List Transaction
  /-- The transactions that were pushed on the queue, or came in a block that the
  P2P process found valid. -/
  arrived : List Transaction
  /-- Nothing was written or stored by the P2P process since the current round
  asked for its block number. -/
  roundFresh : Bool
  /-- Nothing was written or stored by the miner since the P2P process gave its
  block to a native processor. -/
  applyFresh : Bool
  /-- How often the miner has raised. -/
  raised : Nat
  /-- How often the miner has taken `:stop` between two rounds. -/
  ignored : Nat
  /-- The blocks whose application ended before it cast a round. -/
  unfinished : Nat

structure Node where
  /-- `transactions::queued`, from left to right. -/
  queued : List Bytes
  /-- `transactions::processing`. -/
  processing : List Bytes
  /-- The table of blocks, the newest first. -/
  blocks : List Block
  stores : Stores
  miner : MinerPhase
  mailbox : List Message
  natives : List Native
  hashers : List Hasher
  nextPort : Nat
  p2p : ApplyPhase
  inbox : List P2PMessage
  history : NodeHistory

/-- Who moves. -/
inductive Action where
  /-- `POST /transactions`. -/
  | post (request : Records.TransactionMap)
  /-- The network delivers a message to the P2P process. -/
  | deliver (message : P2PMessage)
  | p2p
  | miner
  /-- The native processor at this place pops a transaction, runs it, prints
  its result, or exits. -/
  | pop (i : Nat)
  | execute (i : Nat)
  | finish (i : Nat)
  | exit (i : Nat)
  /-- The hashfactor at this place prints a nonce, or exits. -/
  | found (i : Nat) (value : Nat)
  | exitHasher (i : Nat)

/-! ## The database and the queue -/

/-- `Block.best`: a block with the largest number. -/
def best : List Block → Option Block
  | [] => none
  | b :: rest =>
      match best rest with
      | none => some b
      | some b' => if b'.number ≤ b.number then some b else some b'

/-- The changeset of one kind. -/
def Processed.changeset (p : Processed) : StateType → Changeset
  | .memory => p.memoryChangeset
  | .storage => p.storageChangeset

/-- `write_changeset` of several kinds in their order, up to the first write that
raises. -/
def Stores.writeAll (toList : Changeset → List (Bytes × Bytes)) (processed : Processed)
    (blockNumber : Nat) : Stores → List StateType → Stores × Bool
  | s, [] => (s, true)
  | s, kind :: kinds =>
      let written := s.writeEach kind blockNumber (toList (processed.changeset kind))
      if written.2 then writeAll toList processed blockNumber written.1 kinds else written

/-- The first message that a `receive` for `:stop` and port data takes, and the
mailbox without it.  A cast stays. -/
def receive : List Message → Option (Message × List Message)
  | [] => none
  | .mineNextBlock :: rest => (receive rest).map fun p => (p.1, .mineNextBlock :: p.2)
  | message :: rest => some (message, rest)

/-- The map that `Miner.mint` posts. -/
def mintRequest (publicKey : Bytes) : Records.TransactionMap where
  moduleName := none
  attributes field :=
    match field with
    | .contractAddress => some (.binary SystemContracts.baseTokenAddress)
    | .nonce => some (.integer 0)
    | .gasLimit => some (.integer 100000000)
    | .function => some (.atom "mint")
    | .arguments => some (.list [])
    | .sender => some (.binary publicKey)
    | _ => none
  rest := []

/-- The transaction that is read of it. -/
def mintTransaction (publicKey : Bytes) : Transaction where
  contractAddress := SystemContracts.baseTokenAddress
  nonce := 0
  gasLimit := 100000000
  function := "mint"
  arguments := []
  sender := publicKey

variable (C : NodeConfig) (P : Platform) (fuel : Nat)

namespace Node

/-- Writing the changeset of one kind at a block's number. -/
def write (n : Node) (processed : Processed) (blockNumber : Nat) (kind : StateType) :
    Stores × Bool :=
  n.stores.writeEach kind blockNumber (C.toList (processed.changeset kind))

/-- `LPUSH` on the queue. -/
def push (n : Node) (entry : Bytes) : Node :=
  { n with
    queued := entry :: n.queued
    history := { n.history with
      pushed := entry :: n.history.pushed
      arrived := (C.decodeTransaction entry).toList ++ n.history.arrived } }

/-! ## The miner -/

/-- The miner has raised: the supervisor starts it again, which deploys the
system contracts and casts the first round. -/
def restart (n : Node) : Node :=
  { n with
    stores :=
      match n.stores.storageSet 0 (rightPadVec SystemContracts.baseTokenAddress 64 0)
        C.baseTokenCode with
      | .ok stores => stores
      | .error _ => n.stores
    miner := .loop
    mailbox := [.mineNextBlock]
    natives := n.natives.map fun native => { native with connected := false }
    hashers := []
    history := { n.history with
      round := []
      roundFresh := false
      applyFresh := false
      raised := n.history.raised + 1 } }

/-- The round ends without a block. -/
def stopped (n : Node) : Node :=
  { n with miner := .loop, history := { n.history with round := [] } }

/-- `Port.close` of a native processor's port, which raises if the program has
exited. -/
def closeNative (n : Node) (port : Nat) : Node :=
  if n.natives.any fun native => native.port = port ∧ native.connected then
    stopped { n with
      natives := n.natives.map fun native =>
        if native.port = port then { native with connected := false } else native }
  else n.restart C

/-- `Port.close` of a hashfactor's port.  The program ends with its port. -/
def closeHasher (n : Node) (port : Nat) : Node :=
  if n.hashers.any fun hasher => hasher.port = port then
    stopped { n with hashers := n.hashers.filter fun hasher => hasher.port ≠ port }
  else n.restart C

/-- The P2P process is between its first write and the insertion. -/
def applyCommits (n : Node) : Bool :=
  match n.p2p with
  | .writeChangesets _ _ _ => true
  | .insert _ => true
  | _ => false

/-- The miner is between the insertion and its last write. -/
def minerCommits (n : Node) : Bool :=
  match n.miner with
  | .writeChangesets _ _ _ => true
  | _ => false

/-- One step of the miner. -/
def minerStep (n : Node) : Option Node :=
  match n.miner with
  | .loop =>
      match n.mailbox with
      | [] => none
      | .stop :: rest =>
          some { n with
            mailbox := rest
            history := { n.history with ignored := n.history.ignored + 1 } }
      | .mineNextBlock :: rest => some { n with mailbox := rest, miner := .mint }
      | _ => some (n.restart C)
  | .mint =>
      match Records.asBinary C.codec (mintRequest C.publicKey).received with
      | some entry => some { n.push C entry with miner := .processNewBlock }
      | none => some (n.restart C)
  | .processNewBlock =>
      let native : Native := {
        port := n.nextPort
        env := newBlockEnv (best n.blocks) C.publicKey
        popped := none
        processed := .empty
        entries := []
        connected := true
        stage := .running }
      some { n with
        natives := native :: n.natives
        nextPort := n.nextPort + 1
        miner := .receiveNative n.nextPort
        history := { n.history with round := [], roundFresh := !n.applyCommits } }
  | .receiveNative port =>
      match receive n.mailbox with
      | none => none
      | some (.stop, rest) => some { n with mailbox := rest, miner := .closeNative port }
      | some (.result _ r, rest) =>
          some { n with mailbox := rest, miner := .buildNext r }
      | some _ => some (n.restart C)
  | .closeNative port => some (n.closeNative C port)
  | .buildNext r =>
      let newBlock :=
        buildNext (best n.blocks) C.publicKey C.emptyHash r.processed.transactions
      some { n with
        hashers := ⟨n.nextPort, false⟩ :: n.hashers
        nextPort := n.nextPort + 1
        miner := .hashfactor n.nextPort newBlock r }
  | .hashfactor port newBlock r =>
      match receive n.mailbox with
      | none => none
      | some (.stop, rest) => some { n with mailbox := rest, miner := .closeHasher port }
      | some (.nonce _ value, rest) =>
          some { n with
            mailbox := rest
            miner := .insertBlock (newBlock.complete C.toNodeLibrary value) r }
      | some _ => some (n.restart C)
  | .closeHasher port => some (n.closeHasher C port)
  | .insertBlock block r =>
      match C.insert n.blocks block with
      | .stored =>
          some { n with
            blocks := block :: n.blocks
            miner := .writeChangesets block r [.memory, .storage]
            history := { n.history with
              round := []
              mined := r.entries ++ n.history.mined
              applyFresh := false } }
      | .refused =>
          some { n with
            miner := .castMineNextBlock
            history := { n.history with round := [] } }
      | .raised => some (n.restart C)
  | .writeChangesets _ _ [] => some { n with miner := .castMineNextBlock }
  | .writeChangesets block r (kind :: kinds) =>
      let written := n.write C r.processed block.number kind
      let n := { n with
        stores := written.1
        history := { n.history with applyFresh := false } }
      if written.2 then some { n with miner := .writeChangesets block r kinds }
      else some (n.restart C)
  | .castMineNextBlock =>
      some { n with mailbox := n.mailbox ++ [.mineNextBlock], miner := .loop }

/-! ## The P2P process -/

/-- The P2P process has raised and is started again. -/
def restartP2P (n : Node) : Node :=
  { n with
    p2p := .loop
    inbox := []
    history := { n.history with unfinished := n.history.unfinished + 1 } }

/-- `receive_native` waits for a program that has died. -/
def hang (n : Node) : Node :=
  { n with
    p2p := .hung
    history := { n.history with unfinished := n.history.unfinished + 1 } }

/-- `Validations.valid_next_block?`. -/
def validNextBlock (n : Node) (block : Block) : Bool :=
  C.validProofOfWork block && decide (nextBlockNumber (best n.blocks) ≤ block.number)

/-- Writing one changeset, then the rest. -/
def writeApplied (n : Node) (block : Block) (processed : Processed)
    (kind : StateType) (kinds : List StateType) : Node :=
  let written := n.write C processed block.number kind
  let n := { n with
    stores := written.1
    history := { n.history with roundFresh := false } }
  if written.2 then { n with p2p := .writeChangesets block processed kinds }
  else n.restartP2P

/-- One step of the P2P process, `Block.apply` included.  `process` writes both
changesets, and `Block.apply` writes them again. -/
def p2pStep (n : Node) : Option Node :=
  match n.p2p with
  | .loop =>
      match n.inbox with
      | [] => none
      | .transaction entry :: rest => some ({ n with inbox := rest }.push C entry)
      | .block block :: rest =>
          if n.validNextBlock C block then
            some { n with
              inbox := rest
              p2p := .stop block
              history := { n.history with
                arrived := block.transactions.map CompletedTransaction.transaction ++
                  n.history.arrived } }
          else some { n with inbox := rest }
  | .stop block => some { n with mailbox := n.mailbox ++ [.stop], p2p := .process block }
  | .process block =>
      match C.decode (C.encode block.transactions) with
      | some ts =>
          some { n with
            p2p := .receiveNative block ts .empty
            history := { n.history with applyFresh := !n.minerCommits } }
      | none => some n.hang
  | .receiveNative block [] processed => some { n with p2p := .writeFirst block processed }
  | .receiveNative block (t :: rest) processed =>
      let n := { n with history := { n.history with executed := t :: n.history.executed } }
      match runTransaction P fuel n.stores.redis n.stores.rocksdb
        (existingBlockEnv block) processed t with
      | .ok processed =>
          some { n with
            processing := n.processing.filter (· ≠ C.transactionToVec t)
            p2p := .receiveNative block rest processed }
      | .error _ => some n.hang
  | .writeFirst block processed =>
      some (n.writeApplied C block processed .memory [.storage, .memory, .storage])
  | .writeChangesets block _ [] => some { n with p2p := .insert block }
  | .writeChangesets block processed (kind :: kinds) =>
      some (n.writeApplied C block processed kind kinds)
  | .insert block =>
      match C.insert n.blocks block with
      | .stored =>
          some { n with
            blocks := block :: n.blocks
            p2p := .castMineNextBlock
            history := { n.history with roundFresh := false } }
      | _ => some n.restartP2P
  | .castMineNextBlock =>
      some { n with mailbox := n.mailbox ++ [.mineNextBlock], p2p := .loop }
  | .hung => none

/-! ## The native programs -/

/-- `get_next_transaction`. -/
def pop (n : Node) (i : Nat) : Option Node :=
  match n.natives[i]? with
  | none => none
  | some native =>
      if native.stage = .running ∧ native.popped = none then
        match n.queued.getLast? with
        | none => none
        | some entry =>
            some { n with
              queued := n.queued.dropLast
              processing := entry :: n.processing
              natives := n.natives.set i { native with popped := some entry }
              history := { n.history with
                round :=
                  match n.miner with
                  | .receiveNative port =>
                      if native.port = port then n.history.round ++ [entry]
                      else n.history.round
                  | _ => n.history.round } }
      else none

/-- `run_transaction` on the popped transaction, `remove_from_processing`
included; a transaction that cannot be decoded or run ends the program. -/
def execute (n : Node) (i : Nat) : Option Node :=
  match n.natives[i]? with
  | none => none
  | some native =>
      match native.stage, native.popped with
      | .running, some entry =>
          match C.decodeTransaction entry with
          | none =>
              some { n with natives := n.natives.set i { native with stage := .panicked } }
          | some t =>
              let n := { n with
                history := { n.history with executed := t :: n.history.executed } }
              match runTransaction P fuel n.stores.redis n.stores.rocksdb native.env
                native.processed t with
              | .error _ =>
                  some { n with
                    natives := n.natives.set i { native with stage := .panicked } }
              | .ok processed =>
                  some { n with
                    processing := n.processing.filter (· ≠ C.transactionToVec t)
                    natives := n.natives.set i { native with
                      popped := none
                      processed := processed
                      entries := native.entries ++ [entry] } }
      | _, _ => none

/-- The time is up: the result is printed, and sent if the port is open. -/
def finish (n : Node) (i : Nat) : Option Node :=
  match n.natives[i]? with
  | none => none
  | some native =>
      if native.stage = .running ∧ native.popped = none then
        some { n with
          natives := n.natives.set i { native with stage := .printed }
          mailbox :=
            if native.connected then
              n.mailbox ++ [.result native.port ⟨native.processed, native.entries⟩]
            else n.mailbox }
      else none

def exit (n : Node) (i : Nat) : Option Node :=
  match n.natives[i]? with
  | none => none
  | some native =>
      if native.stage = .running then none
      else some { n with natives := n.natives.eraseIdx i }

/-- The search finds a nonce, which the model leaves open. -/
def found (n : Node) (i value : Nat) : Option Node :=
  match n.hashers[i]? with
  | none => none
  | some hasher =>
      if hasher.answered then none
      else some { n with
        hashers := n.hashers.set i { hasher with answered := true }
        mailbox := n.mailbox ++ [.nonce hasher.port value] }

def exitHasher (n : Node) (i : Nat) : Option Node :=
  match n.hashers[i]? with
  | none => none
  | some hasher =>
      if hasher.answered then some { n with hashers := n.hashers.eraseIdx i } else none

/-! ## The node -/

/-- `POST /transactions`. -/
def post (n : Node) (request : Records.TransactionMap) : Node :=
  match Records.queueEntry C.codec request with
  | some entry =>
      push C { n with
        history := { n.history with checked := request :: n.history.checked } } entry
  | none => n

def deliver (n : Node) (message : P2PMessage) : Node :=
  { n with inbox := n.inbox ++ [message] }

def step (n : Node) : Action → Option Node
  | .post request => some (n.post C request)
  | .deliver message => some (n.deliver message)
  | .p2p => n.p2pStep C P fuel
  | .miner => n.minerStep C
  | .pop i => n.pop i
  | .execute i => n.execute C P fuel i
  | .finish i => n.finish i
  | .exit i => n.exit i
  | .found i value => n.found i value
  | .exitHasher i => n.exitHasher i

/-- A node on a stored chain, about to mine its first block. -/
def start (blocks : List Block) (stores : Stores) : Node where
  queued := []
  processing := []
  blocks := blocks
  stores := stores
  miner := .loop
  mailbox := [.mineNextBlock]
  natives := []
  hashers := []
  nextPort := 0
  p2p := .loop
  inbox := []
  history := {
    pushed := []
    round := []
    mined := []
    checked := []
    executed := []
    arrived := []
    roundFresh := false
    applyFresh := false
    raised := 0
    ignored := 0
    unfinished := 0 }

/-- The node after a list of actions. -/
def run (n : Node) (actions : List Action) : Option Node :=
  Runs.run (step C P fuel) n actions

end Node

/-! ## A small node -/

namespace Script

/-- A system call that is not understood: it runs and changes nothing. -/
def ping : Transaction where
  contractAddress := List.replicate 32 0 ++ utf8 "system"
  nonce := 1
  gasLimit := 0
  function := "ping"
  arguments := []
  sender := [65]

/-- A peer's first block. -/
def peerBlock (transactions : List CompletedTransaction) : Block where
  hash := [1]
  number := 0
  winner := [9]
  memoryChangesetHash := [0]
  storageChangesetHash := [0]
  proofOfWorkValue := 0
  transactions := transactions

/-- The transaction is the given one, which has no arguments. -/
def is (u t : Transaction) : Bool :=
  decide (t.contractAddress = u.contractAddress ∧ t.sender = u.sender ∧
    t.nonce = u.nonce ∧ t.gasLimit = u.gasLimit ∧ t.function = u.function ∧
    t.arguments.isEmpty)

theorem eq_of_is {u t : Transaction} (harguments : u.arguments = [])
    (h : is u t = true) : t = u := by
  obtain ⟨haddress, hsender, hnonce, hgas, hfunction, hempty⟩ := of_decide_eq_true h
  cases t
  cases u
  simp_all

/-- The codec of blocks knows `ping`; changesets are empty as long as nothing but
`ping` runs. -/
def nodeConfig : NodeConfig where
  blockHash newBlock value := [2, UInt8.ofNat newBlock.number, UInt8.ofNat value]
  emptyHash := [0]
  encode cs := if cs.all fun c => is ping c.transaction then cs.map fun _ => 0 else [1]
  decode bytes :=
    if bytes.all (· = 0) then some (bytes.map fun _ => ping) else none
  publicKey := [7]
  codec := Records.codec
  validProofOfWork _ := true
  toList _ := []
  insert blocks block :=
    if blocks.any fun b => b.hash = block.hash then .refused else .stored
  baseTokenCode := []

/-- What is decoded is what was encoded. -/
theorem decode_encode (cs : List CompletedTransaction) (ts : List Transaction)
    (h : nodeConfig.decode (nodeConfig.encode cs) = some ts) :
    ts = cs.map CompletedTransaction.transaction := by
  simp only [nodeConfig] at h
  by_cases hall : cs.all fun c => is ping c.transaction
  · rw [if_pos hall, if_pos (by simp), List.map_map, Option.some.injEq] at h
    rw [← h]
    refine List.map_congr_left fun c hc => ?_
    exact (eq_of_is rfl (List.all_eq_true.mp hall c hc)).symm
  · rw [if_neg hall, if_neg (by simp)] at h
    cases h

/-- The entry that is queued for `ping`. -/
def pingEntry : Bytes := (Records.queueEntry Records.codec Records.pingMap).getD []

theorem queueEntry_ping : Records.queueEntry Records.codec Records.pingMap = some pingEntry := by
  decide +kernel

theorem decode_ping : nodeConfig.decodeTransaction pingEntry = some ping := by
  obtain ⟨-, taken, htaken, hentry⟩ := Records.queueEntry_eq_some_iff.mp queueEntry_ping
  cases htaken
  have hread := Records.read_of_readable Records.codec_writes hentry fun _ _ => rfl
  have hasks : Records.Asks Records.codec Records.emptyPing ping := ⟨rfl, rfl, rfl, rfl, rfl, rfl⟩
  exact Records.fromSlice_eq_some_iff.mpr
    ⟨_, hread, Records.fields_entries Records.codec_writes (Records.asks_struct hasks)⟩

/-- The entry of the node's mint. -/
def mintEntry : Bytes :=
  (Records.asBinary Records.codec (mintRequest nodeConfig.publicKey).received).getD []

theorem asBinary_mint :
    Records.asBinary Records.codec (mintRequest nodeConfig.publicKey).received =
      some mintEntry := by
  decide +kernel

/-- What the small node has come to. -/
def nodeRun (actions : List Action) : Option Node :=
  Node.run nodeConfig (platform []) 0 (Node.start [] .empty) actions

/-- A round that takes a posted transaction, stores a block of it and writes its
changesets. -/
def minedRun : List Action :=
  [ .post Records.pingMap, .miner, .miner, .miner, .pop 0, .execute 0, .finish 0
  , .miner, .miner, .found 0 0, .miner, .miner, .miner, .miner, .miner ]

end Script

end Ellipticoind.Ports
