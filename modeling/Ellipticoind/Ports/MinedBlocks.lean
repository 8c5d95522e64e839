import Ellipticoind.Ports.BlockApply

/-!
# From a native result to a stored block and its copies

`build_next`, the changesets of `block.ex` and `transaction.ex`, `insert_block`
of the miner, and the message in which a peer gets the block.  The miner
computes the preimage of the proof of work from the maps the native processor
has printed; a peer computes it from what is left of them after the cast, the
insertion, the encoding and the decoding.

Ecto's cast replaces the empty string by the schema's default, `validate_required`
refuses blank strings, and the columns of the integers hold 32 bits.

## Main results

* `prePow_transaction_eq_iff` — when a transaction survives the cast.
* `insertMined_eq_ok_iff` — when a mined block is stored.
* `mined_block_iff` — when a mined block is stored and its copies have the
  preimage it was mined with.
-/

namespace Ellipticoind.Ports.Records

/-! ## The miner's side -/

/-- The map of `build_next`, which has no number and no parent before the first
block. -/
structure NewBlockMap where
  number : Option Int
  parentHash : Option Term
  winner : Bytes
  memoryChangesetHash : Bytes
  storageChangesetHash : Bytes
  transactions : List Attributes

/-- What the miner takes from third-party code and from its configuration. -/
structure MinerLibrary extends RecordLibrary where
  /-- `Configuration.public_key`. -/
  publicKey : Bytes
  /-- `Crypto.hash(<<>>)`. -/
  emptyHash : Bytes
  /-- `Crypto.hash` of a new block's map with its proof of work. -/
  blockHash : NewBlockMap → Nat → Bytes
  /-- `Crypto.hash` of a transaction's changes. -/
  transactionHash : Attributes → Bytes
  /-- `String.trim_leading` leaves nothing. -/
  isBlank : Bytes → Bool
  /-- `Cbor.encode` and `Cbor.decode!` of the map of a block. -/
  encodeBlock : BlockMap → Option Bytes
  decodeBlock : Bytes → Option BlockMap

variable (L : MinerLibrary)

/-- The map that is read from a completed transaction's CBOR. -/
def completedAttributes (t : CompletedTransaction) : Attributes
  | .contractAddress => some (.binary t.contractAddress)
  | .sender => some (.binary t.sender)
  | .nonce => some (.integer t.nonce)
  | .gasLimit => some (.integer t.gasLimit)
  | .function => some (.atom t.function)
  | .arguments => some (.list (t.arguments.map L.fromValue))
  | .returnCode => some (.integer t.returnCode)
  | .returnValue => some (L.fromValue t.returnValue)
  | .id => none
  | .hash => none
  | .blockHash => none
  | .signature => none

/-- `Block.build_next`, on a native result. -/
def buildNext (blocks : List Record) (ts : List CompletedTransaction) : NewBlockMap where
  number := (best blocks).map fun best => best.number + 1
  parentHash := (best blocks).map Record.hash
  winner := L.publicKey
  memoryChangesetHash := L.emptyHash
  storageChangesetHash := L.emptyHash
  transactions := ts.map (completedAttributes L)

/-- The default of the binary fields of a block. -/
def zeroHash : Bytes := List.replicate 32 0

/-- `struct(%Block{}, new_block)`. -/
def NewBlockMap.toStruct (new : NewBlockMap) : BlockStruct where
  hash := .binary zeroHash
  number := .integer (new.number.getD 0)
  totalBurned := .integer 0
  winner := .binary new.winner
  memoryChangesetHash := .binary new.memoryChangesetHash
  storageChangesetHash := .binary new.storageChangesetHash
  proofOfWorkValue := .nil
  parent := .notLoaded
  transactions := .list (new.transactions.map (.map · []))

/-! ## Changesets -/

/-- `cast` of one value: the empty string stands for the default. -/
def castField (default : Term) : Term → Term
  | .binary [] => default
  | value => value

/-- `validate_required` of one field. -/
def missing : Term → Bool
  | .nil => true
  | .binary bytes => L.isBlank bytes
  | _ => false

/-- The fields that `Transaction.changeset` casts. -/
def castFields : List TransactionField :=
  [.sender, .nonce, .gasLimit, .blockHash, .contractAddress, .returnCode, .returnValue,
    .function, .arguments]

/-- A changeset on an empty transaction. -/
structure TransactionChangeset where
  /-- The value of each field, `nil` where there is no change. -/
  changes : Row
  valid : Bool

/-- `Transaction.changeset`. -/
def transactionChangeset (attributes : Attributes) : TransactionChangeset :=
  let cast : Row := fun field =>
    if field ∈ castFields then castField .nil ((attributes field).getD .nil) else .nil
  let changed : Attributes := fun field =>
    match cast field with
    | .nil => none
    | value => some value
  { changes := fun field =>
      if field = .hash then
        .binary (L.transactionHash (changed.drop [.blockHash, .returnValue, .returnCode]))
      else cast field
    valid := !([TransactionField.contractAddress, .function, .arguments].any fun field =>
      missing L (cast field)) }

/-- A column `integer` can hold the term. -/
def fitsInteger : Term → Bool
  | .integer value => -2 ^ 31 ≤ value && value < 2 ^ 31
  | .nil => true
  | _ => false

/-- A column `varchar` can hold the atom's name. -/
def fitsVarchar : Term → Bool
  | .atom name => !(name.toList.contains (Char.ofNat 0))
  | _ => false

/-- The columns of a transaction can hold its row. -/
def fitsTransaction (row : Row) : Bool :=
  fitsInteger (row .nonce) && fitsInteger (row .gasLimit) &&
    fitsInteger (row .returnCode) && fitsVarchar (row .function)

/-- The hash of a new block, as it is stored. -/
def storedHash (new : NewBlockMap) (proofOfWorkValue : Nat) : Term :=
  castField (.binary zeroHash) (.binary (L.blockHash new proofOfWorkValue))

/-- The fields of a new transaction's struct, in the block of the given hash.  Its
id, which the database gives, is left out. -/
def insertedAttributes (blockHash : Term) (attributes : Attributes) : Attributes := fun field =>
  if field = .blockHash then some blockHash
  else some ((transactionChangeset L attributes).changes field)

/-- The struct that the changeset of a new block describes. -/
def castBlock (new : NewBlockMap) (proofOfWorkValue : Nat) : BlockStruct where
  hash := storedHash L new proofOfWorkValue
  number := .integer (new.number.getD 0)
  totalBurned := .integer 0
  winner := castField (.binary zeroHash) (.binary new.winner)
  memoryChangesetHash := castField (.binary L.emptyHash) (.binary new.memoryChangesetHash)
  storageChangesetHash := castField (.binary L.emptyHash) (.binary new.storageChangesetHash)
  proofOfWorkValue := .integer proofOfWorkValue
  parent := .notLoaded
  transactions := .list ((new.transactions.map
    (insertedAttributes L (storedHash L new proofOfWorkValue))).map (.map · []))

/-- `Block.changeset` is valid. -/
def validBlock (new : NewBlockMap) (block : BlockStruct) : Bool :=
  new.transactions.all (fun attributes => (transactionChangeset L attributes).valid) &&
    !([block.hash, block.memoryChangesetHash, block.storageChangesetHash, block.number,
      block.proofOfWorkValue, block.winner].any (missing L))

/-- Why `Repo.insert` does not insert. -/
inductive InsertFailure where
  /-- `{:error, changeset}`. -/
  | refused
  | raised
  deriving DecidableEq

/-- `Block.changeset` and `Repo.insert`: the inserted struct. -/
def insertMined (blocks : List Record) (new : NewBlockMap) (proofOfWorkValue : Nat) :
    Except InsertFailure BlockStruct :=
  let block := castBlock L new proofOfWorkValue
  if !validBlock L new block then .error .refused
  else if !(fitsInteger block.number && fitsInteger block.proofOfWorkValue) then
    .error .raised
  else if hashStored blocks block.hash then .error .refused
  else if !(block.rows.all fitsTransaction) then .error .raised
  else .ok block

/-! ## The message to the peers -/

/-- `struct(Block, map)`.  The parent's hash is no field of a block. -/
def BlockMap.toStruct (map : BlockMap) : BlockStruct where
  hash := map.hash
  number := map.number
  totalBurned := map.totalBurned
  winner := map.winner
  memoryChangesetHash := map.memoryChangesetHash
  storageChangesetHash := map.storageChangesetHash
  proofOfWorkValue := map.proofOfWorkValue
  parent := .notLoaded
  transactions := .list (map.transactions.map (.map · []))

/-- `P2P.Messages.encode` and `P2P.Messages.decode`. -/
def peerCopy (block : BlockStruct) : Option BlockStruct := do
  let map ← BlockView.asMap block
  let bytes ← L.encodeBlock map
  let map' ← L.decodeBlock bytes
  return map'.toStruct

/-! ## What survives the cast -/

theorem castField_nil_eq_self_iff {value : Term} :
    castField .nil value = value ↔ value ≠ .binary [] := by
  unfold castField
  split
  · exact iff_of_false nofun fun hne => hne rfl
  · rename_i hne
    exact iff_of_true rfl hne

theorem castField_self (bytes : Bytes) :
    castField (.binary bytes) (.binary bytes) = .binary bytes := by
  cases bytes <;> rfl

theorem castField_zeroHash_eq_self_iff {bytes : Bytes} :
    castField (.binary zeroHash) (.binary bytes) = .binary bytes ↔ bytes ≠ [] := by
  cases bytes with
  | nil => exact iff_of_false nofun fun hne => hne rfl
  | cons first rest => exact iff_of_true rfl nofun

/-- `Enum.map` of the view over maps. -/
theorem mapM_asMap (maps : List Attributes) :
    (maps.map (ReceivedTransaction.map · [])).mapM TransactionView.asMap =
      some (maps.map (·.drop [.blockHash, .signature, .id])) := by
  induction maps with
  | nil => rfl
  | cons attributes rest ih =>
      rw [List.map_cons, List.mapM_cons, ih]
      rfl

/-- The view of a block with a hash, no parent and maps for transactions. -/
theorem asMap_of_maps {block : BlockStruct} {hash : Bytes} {maps : List Attributes}
    (hhash : block.hash = .binary hash) (hparent : block.parent = .notLoaded)
    (hmaps : block.transactions = .list (maps.map (.map · []))) :
    BlockView.asMap block = some
      { hash := .binary hash
        number := block.number
        totalBurned := block.totalBurned
        winner := block.winner
        memoryChangesetHash := block.memoryChangesetHash
        storageChangesetHash := block.storageChangesetHash
        proofOfWorkValue := block.proofOfWorkValue
        parentHash := .nil
        transactions := maps.map (·.drop [.blockHash, .signature, .id]) } := by
  have htransactions : BlockView.transactions block.transactions =
      some (maps.map (·.drop [.blockHash, .signature, .id])) := by
    rw [hmaps]
    exact mapM_asMap maps
  unfold BlockView.asMap BlockView.preloadParent
  rw [htransactions, hparent, hhash]
  rfl

/-- The preimage that the miner computes has the transactions as they were
printed. -/
theorem asMapPrePow_toStruct (blocks : List Record) (ts : List CompletedTransaction) :
    BlockView.asMapPrePow (buildNext L blocks ts).toStruct = some
      { number := .integer ((buildNext L blocks ts).number.getD 0)
        winner := .binary L.publicKey
        memoryChangesetHash := .binary L.emptyHash
        storageChangesetHash := .binary L.emptyHash
        transactions := ts.map (completedAttributes L) } := by
  have hprinted : (((buildNext L blocks ts).transactions.map
      (·.drop [.blockHash, .signature, .id])).map
        (·.drop [.blockHash, .hash, .signature, .id])) = ts.map (completedAttributes L) := by
    simp only [buildNext, List.map_map]
    refine List.map_congr_left fun t _ => ?_
    funext field
    cases field <;> rfl
  unfold BlockView.asMapPrePow
  rw [asMap_of_maps rfl rfl rfl, Option.map_some, BlockView.prePow, hprinted]
  rfl

theorem storedHash_binary (new : NewBlockMap) (proofOfWorkValue : Nat) :
    ∃ hash, storedHash L new proofOfWorkValue = .binary hash := by
  unfold storedHash castField
  split
  · exact ⟨_, rfl⟩
  · exact ⟨_, rfl⟩

/-- CBOR round-trips on the map of the block. -/
def RoundTrips (L : MinerLibrary) (block : BlockStruct) : Prop :=
  ∀ map, BlockView.asMap block = some map →
    (L.encodeBlock map).bind L.decodeBlock = some map

variable {L}

theorem peerCopy_of_asMap {block : BlockStruct} {map : BlockMap}
    (hcodec : RoundTrips L block) (h : BlockView.asMap block = some map) :
    peerCopy L block = some map.toStruct := by
  obtain ⟨bytes, hencode, hdecode⟩ := Option.bind_eq_some_iff.mp (hcodec map h)
  unfold peerCopy
  rw [h]
  refine Option.bind_eq_some_iff.mpr ⟨map, rfl, ?_⟩
  refine Option.bind_eq_some_iff.mpr ⟨bytes, hencode, ?_⟩
  exact Option.bind_eq_some_iff.mpr ⟨map, hdecode, rfl⟩

/-- The preimage that a peer computes has the transactions as the cast has left
them. -/
theorem peerCopy_castBlock {new : NewBlockMap} {proofOfWorkValue : Nat}
    (hcodec : RoundTrips L (castBlock L new proofOfWorkValue)) :
    ∃ peer, peerCopy L (castBlock L new proofOfWorkValue) = some peer ∧
      peer.proofOfWorkValue = .integer proofOfWorkValue ∧
      BlockView.asMapPrePow peer = some
        { number := .integer (new.number.getD 0)
          winner := castField (.binary zeroHash) (.binary new.winner)
          memoryChangesetHash :=
            castField (.binary L.emptyHash) (.binary new.memoryChangesetHash)
          storageChangesetHash :=
            castField (.binary L.emptyHash) (.binary new.storageChangesetHash)
          transactions := new.transactions.map fun attributes =>
            (insertedAttributes L .nil attributes).drop
              [.blockHash, .hash, .signature, .id] } := by
  obtain ⟨hash, hhash⟩ := storedHash_binary L new proofOfWorkValue
  have hparent : (castBlock L new proofOfWorkValue).parent = .notLoaded := rfl
  have hmap := asMap_of_maps hhash hparent rfl
  refine ⟨_, peerCopy_of_asMap hcodec hmap, rfl, ?_⟩
  have hsurvive (blockHash : Term) : ((((new.transactions.map
      (insertedAttributes L blockHash)).map (·.drop [.blockHash, .signature, .id])).map
        (·.drop [.blockHash, .signature, .id])).map
          (·.drop [.blockHash, .hash, .signature, .id])) =
      new.transactions.map fun attributes =>
        (insertedAttributes L .nil attributes).drop
          [.blockHash, .hash, .signature, .id] := by
    simp only [List.map_map]
    refine List.map_congr_left fun attributes _ => ?_
    funext field
    cases field <;> rfl
  unfold BlockView.asMapPrePow
  rw [asMap_of_maps rfl rfl rfl, Option.map_some, BlockView.prePow, hsurvive]
  rfl

/-- **When a transaction survives the cast.**  The empty string becomes `nil`, as
an address, as a sender and as a return value. -/
theorem prePow_transaction_eq_iff (t : CompletedTransaction) :
    (insertedAttributes L .nil (completedAttributes L t)).drop
        [.blockHash, .hash, .signature, .id] = completedAttributes L t ↔
      t.contractAddress ≠ [] ∧ t.sender ≠ [] ∧ L.fromValue t.returnValue ≠ .binary [] := by
  have hbinary (bytes : Bytes) : Term.binary bytes ≠ .binary [] ↔ bytes ≠ [] := by simp
  rw [← hbinary, ← hbinary t.sender]
  simp only [← castField_nil_eq_self_iff]
  constructor
  · intro h
    exact ⟨Option.some.inj (congrFun h .contractAddress), Option.some.inj (congrFun h .sender),
      Option.some.inj (congrFun h .returnValue)⟩
  · rintro ⟨haddress, hsender, hvalue⟩
    funext field
    cases field with
    | contractAddress => exact congrArg some haddress
    | sender => exact congrArg some hsender
    | returnValue => exact congrArg some hvalue
    | _ => rfl

/-! ## What is stored -/

/-- A transaction whose changeset is valid and whose row fits its columns. -/
structure Storable (L : MinerLibrary) (t : CompletedTransaction) : Prop where
  contractAddress : t.contractAddress ≠ [] ∧ L.isBlank t.contractAddress = false
  function : t.function ≠ "nil" ∧ Char.ofNat 0 ∉ t.function.toList
  nonce : t.nonce < 2 ^ 31
  gasLimit : t.gasLimit < 2 ^ 31
  returnCode : t.returnCode < 2 ^ 31

theorem fitsInteger_natCast_iff {n : Nat} : fitsInteger (.integer n) = true ↔ n < 2 ^ 31 := by
  simp only [fitsInteger, Bool.and_eq_true, decide_eq_true_eq]
  omega

theorem missing_castField_nil {bytes : Bytes} :
    missing L (castField .nil (.binary bytes)) = false ↔ bytes ≠ [] ∧ L.isBlank bytes = false := by
  cases bytes with
  | nil => exact iff_of_false nofun fun h => h.1 rfl
  | cons first rest => simp [castField, missing]

theorem missing_atom {name : String} : missing L (.atom name) = false ↔ name ≠ "nil" := by
  unfold missing
  split
  · rename_i heq
    exact iff_of_false nofun fun hname => hname (Term.atom.inj heq)
  · rename_i heq
    cases heq
  · rename_i hnil _
    exact iff_of_true rfl fun hname => hnil (congrArg Term.atom hname)

theorem storable_iff (t : CompletedTransaction) (hash : Term) :
    ((transactionChangeset L (completedAttributes L t)).valid = true ∧
      fitsTransaction ((insertedAttributes L hash (completedAttributes L t)).row hash) = true) ↔
      Storable L t := by
  have hvalid : (transactionChangeset L (completedAttributes L t)).valid = true ↔
      missing L (castField .nil (.binary t.contractAddress)) = false ∧
        missing L (.atom t.function) = false := by
    have hcast : (transactionChangeset L (completedAttributes L t)).valid =
        !(missing L (castField .nil (.binary t.contractAddress)) ||
          (missing L (.atom t.function) || false)) := rfl
    rw [hcast]
    simp
  have hfits : fitsTransaction
      ((insertedAttributes L hash (completedAttributes L t)).row hash) =
        (fitsInteger (.integer t.nonce) && fitsInteger (.integer t.gasLimit) &&
          fitsInteger (.integer t.returnCode) && fitsVarchar (.atom t.function)) := rfl
  have hvarchar : fitsVarchar (.atom t.function) = true ↔
      Char.ofNat 0 ∉ t.function.toList := by
    simp [fitsVarchar]
  rw [hvalid, hfits]
  simp only [missing_castField_nil, missing_atom, Bool.and_eq_true, fitsInteger_natCast_iff,
    hvarchar]
  constructor
  · rintro ⟨⟨haddress, hnil⟩, ⟨⟨hnonce, hgas⟩, hcode⟩, hname⟩
    exact ⟨haddress, ⟨hnil, hname⟩, hnonce, hgas, hcode⟩
  · rintro ⟨haddress, ⟨hnil, hname⟩, hnonce, hgas, hcode⟩
    exact ⟨⟨haddress, hnil⟩, ⟨⟨hnonce, hgas⟩, hcode⟩, hname⟩

theorem buildNext_number (blocks : List Record) (ts : List CompletedTransaction) :
    (buildNext L blocks ts).number.getD 0 = nextBlockNumber blocks := by
  unfold buildNext nextBlockNumber
  cases best blocks <;> rfl

theorem insertMined_eq_ok_iff {blocks : List Record} {new : NewBlockMap}
    {proofOfWorkValue : Nat} {block : BlockStruct} :
    insertMined L blocks new proofOfWorkValue = .ok block ↔
      validBlock L new (castBlock L new proofOfWorkValue) = true ∧
        fitsInteger (.integer (new.number.getD 0)) = true ∧ proofOfWorkValue < 2 ^ 31 ∧
        hashStored blocks (storedHash L new proofOfWorkValue) = false ∧
        (castBlock L new proofOfWorkValue).rows.all fitsTransaction = true ∧
        block = castBlock L new proofOfWorkValue := by
  unfold insertMined
  rw [← fitsInteger_natCast_iff]
  have hnumber : (castBlock L new proofOfWorkValue).number = .integer (new.number.getD 0) := rfl
  have hwork : (castBlock L new proofOfWorkValue).proofOfWorkValue =
      .integer proofOfWorkValue := rfl
  have hhash : (castBlock L new proofOfWorkValue).hash = storedHash L new proofOfWorkValue := rfl
  dsimp only
  rw [hnumber, hwork, hhash]
  cases validBlock L new (castBlock L new proofOfWorkValue) <;>
    cases fitsInteger (.integer (new.number.getD 0)) <;>
    cases fitsInteger (.integer proofOfWorkValue) <;>
    cases hashStored blocks (storedHash L new proofOfWorkValue) <;>
    cases (castBlock L new proofOfWorkValue).rows.all fitsTransaction <;>
    simp [eq_comm]

/-- The rows of a new block are those of its transactions' changesets. -/
theorem rows_castBlock (new : NewBlockMap) (proofOfWorkValue : Nat) :
    (castBlock L new proofOfWorkValue).rows = new.transactions.map fun attributes =>
      (insertedAttributes L (storedHash L new proofOfWorkValue) attributes).row
        (storedHash L new proofOfWorkValue) := by
  simp only [BlockStruct.rows, castBlock, Transactions.items, Option.getD_some, List.map_map]
  rfl

variable (L) in
/-- Nothing of a mined block is refused, and nothing of its preimage is changed by
the cast. -/
structure Survives (blocks : List Record) (ts : List CompletedTransaction)
    (proofOfWorkValue : Nat) : Prop where
  numberFits : fitsInteger (.integer (nextBlockNumber blocks)) = true
  valueFits : proofOfWorkValue < 2 ^ 31
  winner : L.publicKey ≠ [] ∧ L.isBlank L.publicKey = false
  changesetHashes : L.isBlank L.emptyHash = false
  hash :
    missing L (storedHash L (buildNext L blocks ts) proofOfWorkValue) = false ∧
      hashStored blocks (storedHash L (buildNext L blocks ts) proofOfWorkValue) = false
  transactions :
    ∀ t ∈ ts, Storable L t ∧ t.sender ≠ [] ∧ L.fromValue t.returnValue ≠ .binary []

variable (L) in
/-- The miner has found the proof of work for its preimage. -/
def Found (blocks : List Record) (ts : List CompletedTransaction) (proofOfWorkValue : Nat) :
    Prop :=
  ∃ m data, BlockView.asMapPrePow (buildNext L blocks ts).toStruct = some m ∧
    L.encodePrePow m = some data ∧
    validNonce L.toRecordLibrary data (.integer proofOfWorkValue) = some true

variable (L) in
/-- The block is stored, and a peer accepts its proof of work. -/
def StoredAndValid (blocks : List Record) (ts : List CompletedTransaction)
    (proofOfWorkValue : Nat) : Prop :=
  ∃ block peer, insertMined L blocks (buildNext L blocks ts) proofOfWorkValue = .ok block ∧
    peerCopy L block = some peer ∧
    Validations.validProofOfWorkValue L.toRecordLibrary peer = some true

variable (L) in
/-- The block is stored, and a peer computes the preimage it was mined with. -/
def StoredAlike (blocks : List Record) (ts : List CompletedTransaction)
    (proofOfWorkValue : Nat) : Prop :=
  ∃ block peer, insertMined L blocks (buildNext L blocks ts) proofOfWorkValue = .ok block ∧
    peerCopy L block = some peer ∧ peer.proofOfWorkValue = .integer proofOfWorkValue ∧
    BlockView.asMapPrePow peer = BlockView.asMapPrePow (buildNext L blocks ts).toStruct

/-- What a peer computes is the preimage exactly if the cast has left the winner and
the transactions as they were. -/
theorem prePow_eq_iff {blocks : List Record} {ts : List CompletedTransaction}
    {proofOfWorkValue : Nat}
    (hcodec : RoundTrips L (castBlock L (buildNext L blocks ts) proofOfWorkValue)) :
    (∃ peer, peerCopy L (castBlock L (buildNext L blocks ts) proofOfWorkValue) = some peer ∧
      peer.proofOfWorkValue = .integer proofOfWorkValue ∧
      BlockView.asMapPrePow peer = BlockView.asMapPrePow (buildNext L blocks ts).toStruct) ↔
      L.publicKey ≠ [] ∧ ∀ t ∈ ts,
        t.contractAddress ≠ [] ∧ t.sender ≠ [] ∧ L.fromValue t.returnValue ≠ .binary [] := by
  obtain ⟨peer, hpeer, hwork, hmap⟩ := peerCopy_castBlock hcodec
  have hsame : (∃ peer, peerCopy L (castBlock L (buildNext L blocks ts) proofOfWorkValue) =
      some peer ∧ peer.proofOfWorkValue = .integer proofOfWorkValue ∧
      BlockView.asMapPrePow peer = BlockView.asMapPrePow (buildNext L blocks ts).toStruct) ↔
      BlockView.asMapPrePow peer =
        BlockView.asMapPrePow (buildNext L blocks ts).toStruct := by
    constructor
    · rintro ⟨peer', hpeer', -, h⟩
      cases hpeer.symm.trans hpeer'
      exact h
    · exact fun h => ⟨peer, hpeer, hwork, h⟩
  have htransactions : ((buildNext L blocks ts).transactions.map fun attributes =>
      (insertedAttributes L .nil attributes).drop [.blockHash, .hash, .signature, .id]) =
        ts.map (completedAttributes L) ↔
      ∀ t ∈ ts,
        t.contractAddress ≠ [] ∧ t.sender ≠ [] ∧ L.fromValue t.returnValue ≠ .binary [] := by
    simp only [buildNext, List.map_map, List.map_inj_left, Function.comp_apply,
      prePow_transaction_eq_iff]
  rw [hsame, hmap, asMapPrePow_toStruct]
  simp only [Option.some.injEq, PrePow.mk.injEq, true_and, htransactions]
  rw [← castField_zeroHash_eq_self_iff]
  simp only [buildNext, castField_self, true_and]

/-- A new block's changeset is valid exactly if its transactions' are and neither
its hash, nor a changeset hash, nor the winner is blank. -/
theorem validBlock_iff (blocks : List Record) (ts : List CompletedTransaction)
    (proofOfWorkValue : Nat) :
    validBlock L (buildNext L blocks ts)
        (castBlock L (buildNext L blocks ts) proofOfWorkValue) = true ↔
      (∀ t ∈ ts, (transactionChangeset L (completedAttributes L t)).valid = true) ∧
        missing L (storedHash L (buildNext L blocks ts) proofOfWorkValue) = false ∧
        L.isBlank L.emptyHash = false ∧
        missing L (castField (.binary zeroHash) (.binary L.publicKey)) = false := by
  have hmissing : ([(castBlock L (buildNext L blocks ts) proofOfWorkValue).hash,
      (castBlock L (buildNext L blocks ts) proofOfWorkValue).memoryChangesetHash,
      (castBlock L (buildNext L blocks ts) proofOfWorkValue).storageChangesetHash,
      (castBlock L (buildNext L blocks ts) proofOfWorkValue).number,
      (castBlock L (buildNext L blocks ts) proofOfWorkValue).proofOfWorkValue,
      (castBlock L (buildNext L blocks ts) proofOfWorkValue).winner].any (missing L)) =
        (missing L (storedHash L (buildNext L blocks ts) proofOfWorkValue) ||
          (L.isBlank L.emptyHash || (L.isBlank L.emptyHash || (false || (false ||
            (missing L (castField (.binary zeroHash) (.binary L.publicKey)) || false)))))) := by
    simp only [List.any_cons, List.any_nil, castBlock, buildNext, castField_self]
    rfl
  unfold validBlock
  rw [hmissing]
  simp only [buildNext, List.all_map, Bool.and_eq_true, List.all_eq_true, Function.comp_apply,
    Bool.not_eq_true', Bool.or_eq_false_iff]
  tauto

/-- The columns of the transactions can hold a new block's rows. -/
theorem all_fitsTransaction_iff (blocks : List Record) (ts : List CompletedTransaction)
    (proofOfWorkValue : Nat) :
    (castBlock L (buildNext L blocks ts) proofOfWorkValue).rows.all fitsTransaction = true ↔
      ∀ t ∈ ts, fitsTransaction
        ((insertedAttributes L (storedHash L (buildNext L blocks ts) proofOfWorkValue)
          (completedAttributes L t)).row
            (storedHash L (buildNext L blocks ts) proofOfWorkValue)) = true := by
  have htransactions : (buildNext L blocks ts).transactions =
      ts.map (completedAttributes L) := rfl
  rw [List.all_eq_true, rows_castBlock, htransactions, List.forall_mem_map,
    List.forall_mem_map]

/-- A mined block is stored and copied faithfully exactly if it survives. -/
theorem storedAlike_iff {blocks : List Record} {ts : List CompletedTransaction}
    {proofOfWorkValue : Nat}
    (hcodec : RoundTrips L (castBlock L (buildNext L blocks ts) proofOfWorkValue)) :
    StoredAlike L blocks ts proofOfWorkValue ↔ Survives L blocks ts proofOfWorkValue := by
  have hsplit : StoredAlike L blocks ts proofOfWorkValue ↔
      insertMined L blocks (buildNext L blocks ts) proofOfWorkValue =
          .ok (castBlock L (buildNext L blocks ts) proofOfWorkValue) ∧
        ∃ peer, peerCopy L (castBlock L (buildNext L blocks ts) proofOfWorkValue) = some peer ∧
          peer.proofOfWorkValue = .integer proofOfWorkValue ∧
          BlockView.asMapPrePow peer =
            BlockView.asMapPrePow (buildNext L blocks ts).toStruct := by
    constructor
    · rintro ⟨block, peer, hinsert, hpeer, hwork, hmap⟩
      obtain ⟨-, -, -, -, -, rfl⟩ := insertMined_eq_ok_iff.mp hinsert
      exact ⟨hinsert, peer, hpeer, hwork, hmap⟩
    · rintro ⟨hinsert, peer, hpeer, hwork, hmap⟩
      exact ⟨_, peer, hinsert, hpeer, hwork, hmap⟩
  have hwinner (hkey : L.publicKey ≠ []) :
      missing L (castField (.binary zeroHash) (.binary L.publicKey)) =
        L.isBlank L.publicKey := by
    rw [castField_zeroHash_eq_self_iff.mpr hkey]
    rfl
  rw [hsplit, insertMined_eq_ok_iff, prePow_eq_iff hcodec, validBlock_iff,
    all_fitsTransaction_iff, buildNext_number]
  constructor
  · rintro ⟨⟨⟨hvalid, hhash, hempty, hblank⟩, hnumber, hvalue, hnew, hfits, -⟩, hkey, hkept⟩
    exact ⟨hnumber, hvalue, ⟨hkey, (hwinner hkey).symm.trans hblank⟩, hempty, ⟨hhash, hnew⟩,
      fun t ht => ⟨(storable_iff t _).mp ⟨hvalid t ht, hfits t ht⟩, (hkept t ht).2⟩⟩
  · rintro ⟨hnumber, hvalue, ⟨hkey, hblank⟩, hempty, ⟨hhash, hnew⟩, hts⟩
    have hstorable (t) (ht : t ∈ ts) := (storable_iff t
      (storedHash L (buildNext L blocks ts) proofOfWorkValue)).mpr (hts t ht).1
    exact ⟨⟨⟨fun t ht => (hstorable t ht).1, hhash, hempty, (hwinner hkey).trans hblank⟩,
      hnumber, hvalue, hnew, fun t ht => (hstorable t ht).2, rfl⟩, hkey,
      fun t ht => ⟨(hts t ht).1.contractAddress.1, (hts t ht).2⟩⟩

/-- **When a mined block is stored and validates everywhere.**  A mined block is
stored and every copy of it has the preimage it was mined with exactly if its
fields fit their columns and none of them is the empty string, which the cast
replaces; and then the copies have a valid proof of work. -/
theorem mined_block_iff (L : MinerLibrary) (blocks : List Record)
    (ts : List CompletedTransaction) (proofOfWorkValue : Nat)
    (hcodec : RoundTrips L (castBlock L (buildNext L blocks ts) proofOfWorkValue))
    (hfound : Found L blocks ts proofOfWorkValue) :
    (Survives L blocks ts proofOfWorkValue → StoredAndValid L blocks ts proofOfWorkValue) ∧
      (StoredAlike L blocks ts proofOfWorkValue ↔ Survives L blocks ts proofOfWorkValue) := by
  have halike := storedAlike_iff hcodec
  refine ⟨fun hsurvives => ?_, halike⟩
  obtain ⟨block, peer, hinsert, hpeer, hwork, hmap⟩ := halike.mpr hsurvives
  obtain ⟨m, data, hm, hdata, hnonce⟩ := hfound
  refine ⟨block, peer, hinsert, hpeer, ?_⟩
  unfold Validations.validProofOfWorkValue
  rw [hmap, hm, hwork]
  refine Option.bind_eq_some_iff.mpr ⟨m, rfl, ?_⟩
  exact Option.bind_eq_some_iff.mpr ⟨data, hdata, hnonce⟩

/-! ## A nonce that does not fit -/

/-- The miner's library at which every proof of work is good, where nothing is
blank. -/
def plainMiner : MinerLibrary where
  toRecordLibrary := emptyBlocks
  publicKey := [1]
  emptyHash := [2]
  blockHash _ _ := [3]
  transactionHash _ := [4]
  isBlank _ := false
  encodeBlock _ := some []
  decodeBlock _ := none

/-- A completed transaction with the given nonce. -/
def completedWith (nonce : Nat) : CompletedTransaction where
  contractAddress := [1]
  sender := [1]
  nonce := nonce
  gasLimit := 0
  function := "f"
  arguments := []
  returnValue := .null
  returnCode := 0

/-- `plainMiner`, with the CBOR of the first block of that transaction. -/
def firstMiner (nonce : Nat) : MinerLibrary :=
  { plainMiner with
    decodeBlock := fun _ => BlockView.asMap
      (castBlock plainMiner (buildNext plainMiner [] [completedWith nonce]) 0) }

theorem roundTrips_firstMiner (nonce : Nat) :
    RoundTrips (firstMiner nonce)
      (castBlock (firstMiner nonce) (buildNext (firstMiner nonce) [] [completedWith nonce]) 0) :=
  fun _ hmap => hmap

theorem found_firstMiner (nonce : Nat) : Found (firstMiner nonce) [] [completedWith nonce] 0 :=
  ⟨_, _, rfl, rfl, rfl⟩

theorem mined_block_at_nonce_zero : StoredAndValid (firstMiner 0) [] [completedWith 0] 0 := by
  refine (mined_block_iff (firstMiner 0) [] [completedWith 0] 0 (roundTrips_firstMiner 0)
    (found_firstMiner 0)).1 ?_
  refine ⟨by rfl, by decide, ⟨by decide, rfl⟩, rfl, ⟨by rfl, by rfl⟩, ?_⟩
  intro t ht
  cases List.mem_singleton.mp ht
  exact ⟨⟨⟨by decide, rfl⟩, ⟨by decide, by decide⟩, by decide, by decide, by decide⟩,
    by decide, nofun⟩

/-- The column of the nonce holds 31 bits, and the nonce of a transaction has
64. -/
theorem nonce_overflows_column :
    ¬ ∀ (L : MinerLibrary) (blocks : List Record) (ts : List CompletedTransaction)
      (proofOfWorkValue : Nat),
      RoundTrips L (castBlock L (buildNext L blocks ts) proofOfWorkValue) →
        Found L blocks ts proofOfWorkValue → StoredAndValid L blocks ts proofOfWorkValue := by
  intro h
  obtain ⟨block, peer, hinsert, -, -⟩ := h (firstMiner (2 ^ 31)) [] [completedWith (2 ^ 31)] 0
    (roundTrips_firstMiner _) (found_firstMiner _)
  obtain ⟨hvalid, -, -, -, hrows, -⟩ := insertMined_eq_ok_iff.mp hinsert
  have hstorable := (storable_iff (completedWith (2 ^ 31)) _).mp
    ⟨((validBlock_iff _ _ _).mp hvalid).1 _ (List.mem_singleton.mpr rfl),
      (all_fitsTransaction_iff _ _ _).mp hrows _ (List.mem_singleton.mpr rfl)⟩
  exact absurd hstorable.nonce (lt_irrefl _)

end Ellipticoind.Ports.Records
