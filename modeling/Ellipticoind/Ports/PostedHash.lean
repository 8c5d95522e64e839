import Ellipticoind.Ports.QueueEntries
import Ellipticoind.Ports.MinedBlocks

/-!
# The hash that a client gets

`POST /transactions` hashes the view of the struct it has made of a request, with the terms
the client has sent.  `Transaction.changeset` hashes the fields that the cast has changed, of
the map that the native processor has printed; there an address is a binary and a function
is an atom, however they were sent.  `GET /transactions/:transaction_hash` looks for the
second hash.

## Main results

* `storedMap_eq_postedMap_iff` — when the two hash the same map.
* `posted_hash_found_iff` — when the client's hash finds the transaction.
-/

namespace Ellipticoind.Ports.Records

variable (C : Codec) (L : MinerLibrary)

/-! ## `router.ex` -/

/-- `Transaction.hash`, up to `Crypto.hash`. -/
def hashedParams (params : Attributes) : Attributes :=
  params.drop [.blockHash, .returnValue, .returnCode]

/-- The map whose hash `POST /transactions` answers. -/
def postedMap (transaction : TransactionStruct) : Attributes :=
  hashedParams (((transaction.map.attributes).drop dropped).drop [.hash])

/-- What `POST /transactions` comes to, with the lists it leaves. -/
inductive Posted where
  | success (transactionHash : Bytes) (lists : Lists)
  | invalidSignature
  | raised

/-- `POST /transactions`, its message to the peers left out. -/
def postTransactions (params : TransactionMap) (lists : Lists) : Posted :=
  match fromSignedTransaction C params with
  | .ok transaction =>
      match post C transaction.map lists with
      | some lists => .success (L.transactionHash (postedMap transaction)) lists
      | none => .raised
  | .invalidSignature => .invalidSignature
  | .raised => .raised

/-- The rows of the table `"transactions"`, those with the largest ids first. -/
def transactionRows (blocks : List Record) : List Row :=
  blocks.flatMap fun record => record.transactions.reverse

/-- The row that `GET /transactions/:transaction_hash` answers. -/
def getTransaction (blocks : List Record) (transactionHash : Bytes) : Option Row :=
  (transactionRows blocks).find? fun row => (row .hash).sameBinary (.binary transactionHash)

/-! ## What is stored -/

/-- The changes that `Transaction.changeset` records before it puts the hash. -/
def changedFields (attributes : Attributes) : Attributes := fun field =>
  match (if field ∈ castFields then castField .nil ((attributes field).getD .nil) else .nil) with
  | .nil => none
  | value => some value

/-- The map whose hash is stored for a completed transaction. -/
def storedMap (t : CompletedTransaction) : Attributes :=
  hashedParams (changedFields (completedAttributes L t))

theorem changes_hash (t : CompletedTransaction) :
    (transactionChangeset L (completedAttributes L t)).changes .hash =
      .binary (L.transactionHash (storedMap L t)) := rfl

/-- The row of a completed transaction in a mined block. -/
def minedRow (block : BlockStruct) (t : CompletedTransaction) : Row :=
  (insertedAttributes L block.hash (completedAttributes L t)).row block.hash

/-- The row of the transaction in the mined block has the hash, and a row of that hash is
found. -/
structure Findable (blocks : List Record) (block : BlockStruct) (t : CompletedTransaction)
    (transactionHash : Bytes) : Prop where
  mem : minedRow L block t ∈ block.rows
  hash : minedRow L block t .hash = .binary transactionHash
  found : ∃ row, getTransaction (block.record (nextBlockNumber blocks) :: blocks)
    transactionHash = some row ∧ row .hash = .binary transactionHash

/-- `struct/2` has taken the address and the sender as byte strings, which are as they are
stored if the sender is not empty, and the function as a text. -/
structure SentAsStored (taken : Attributes) : Prop where
  contractAddress : ∃ bytes, taken .contractAddress = some (.binary bytes)
  sender : ∃ bytes, bytes ≠ [] ∧ taken .sender = some (.binary bytes)
  function : ∃ name, name ≠ "nil" ∧ taken .function = some (.atom name)

/-- The values that `struct/2` has taken come back from the native processor as they were
sent. -/
structure ValuesSurvive (taken : Attributes) : Prop where
  nonce : ∀ value, u64 (C.item (struct taken .nonce)) = some value →
    taken .nonce = some (.integer value)
  gasLimit : ∀ value, u64 (C.item (struct taken .gasLimit)) = some value →
    taken .gasLimit = some (.integer value)
  arguments : ∀ items, values C (C.item (struct taken .arguments)) = some items →
    taken .arguments = some (.list (items.map L.fromValue))

variable {C L}

/-! ## From the request to the row -/

theorem postTransactions_eq_success {request : TransactionMap} {taken : Attributes}
    {lists lists' : Lists} {transactionHash : Bytes}
    (htaken : structFields C request.unsigned = some taken)
    (h : postTransactions C L request lists = .success transactionHash lists') :
    post C (struct taken).map lists = some lists' ∧
      transactionHash = L.transactionHash (postedMap (struct taken)) := by
  unfold postTransactions at h
  split at h
  · rename_i transaction haccepted
    obtain ⟨-, taken', htaken', rfl⟩ := fromSignedTransaction_eq_ok_iff.mp haccepted
    cases htaken.symm.trans htaken'
    split at h
    · rename_i hpost
      cases h
      exact ⟨hpost, rfl⟩
    · cases h
  · cases h
  · cases h

/-- The fields of the transaction that is executed, as they were read from the entry. -/
theorem fields_of_executed (hC : C.Writes) {transaction : TransactionStruct}
    {lists : Lists} {entry : Bytes} {queued processing : List Bytes} {t : Transaction}
    (hpost : post C transaction.map lists = some ⟨entry :: lists.queued, lists.processing⟩)
    (hexecuted : getNextTransaction C ⟨queued ++ [entry], processing⟩ =
      (.transaction t, ⟨queued, entry :: processing⟩)) :
    Fields C (transaction.entries C) t := by
  obtain ⟨entry', hentry, hlists⟩ := Option.map_eq_some_iff.mp hpost
  cases hlists
  obtain ⟨entries, hread, hfields⟩ :=
    fromSlice_eq_some_iff.mp ((getNextTransaction_append hC).mp hexecuted)
  cases entries_of_read hC hentry hread
  exact hfields

/-! ## The two maps -/

theorem postedMap_of_native (transaction : TransactionStruct) {f : TransactionField}
    (hf : f ∈ TransactionField.native) : postedMap transaction f = some (transaction f) := by
  cases f with
  | contractAddress | sender | nonce | gasLimit | function | arguments => rfl
  | _ => exact absurd hf (by decide)

theorem postedMap_of_not_native (transaction : TransactionStruct) {f : TransactionField}
    (hf : f ∉ TransactionField.native) : postedMap transaction f = none := by
  cases f with
  | contractAddress | sender | nonce | gasLimit | function | arguments =>
      exact absurd (by decide) hf
  | _ => rfl

theorem storedMap_of_not_native (t : CompletedTransaction) {f : TransactionField}
    (hf : f ∉ TransactionField.native) : storedMap L t f = none := by
  cases f with
  | contractAddress | sender | nonce | gasLimit | function | arguments =>
      exact absurd (by decide) hf
  | _ => rfl

/-- A completed transaction with an address and a function, which the cast keeps. -/
structure Kept (t : CompletedTransaction) : Prop where
  contractAddress : t.contractAddress ≠ []
  function : t.function ≠ "nil"

theorem changed_binary {bytes : Bytes} (h : bytes ≠ []) :
    (match castField .nil (.binary bytes) with
      | .nil => none
      | value => some value) = some (Term.binary bytes) := by
  cases bytes with
  | nil => exact absurd rfl h
  | cons first rest => rfl

theorem changed_atom {name : String} (h : name ≠ "nil") :
    (match castField .nil (.atom name) with
      | .nil => none
      | value => some value) = some (Term.atom name) := by
  have hcast : castField .nil (.atom name) = .atom name := rfl
  rw [hcast]
  split
  · rename_i hnil
    exact absurd (Term.atom.inj hnil) h
  · rfl

/-- There is no change of an empty sender. -/
theorem storedMap_sender_of_empty {t : CompletedTransaction} (h : t.sender = []) :
    storedMap L t .sender = none := by
  have hsender : completedAttributes L t .sender = some (.binary []) := by
    rw [completedAttributes, h]
  simp only [storedMap, hashedParams, Attributes.drop, changedFields, hsender]
  rfl

/-- The cast keeps the fields that are hashed, if there is a sender. -/
theorem storedMap_of_native {t : CompletedTransaction} (ht : Kept t) (hsender : t.sender ≠ [])
    {f : TransactionField} (hf : f ∈ TransactionField.native) :
    storedMap L t f = completedAttributes L t f := by
  cases f with
  | contractAddress => exact changed_binary ht.contractAddress
  | sender => exact changed_binary hsender
  | function => exact changed_atom ht.function
  | nonce | gasLimit | arguments => rfl
  | _ => exact absurd hf (by decide)

/-- When the two hash the same map: there is a sender, and the struct has the terms of the
printed map. -/
theorem storedMap_eq_postedMap_iff {t : CompletedTransaction} (ht : Kept t)
    {transaction : TransactionStruct} :
    storedMap L t = postedMap transaction ↔ t.sender ≠ [] ∧
      ∀ f ∈ TransactionField.native, completedAttributes L t f = some (transaction f) := by
  constructor
  · intro h
    have hsender : t.sender ≠ [] := by
      intro hempty
      have hnone := storedMap_sender_of_empty (L := L) hempty
      rw [h, postedMap_of_native transaction (by decide)] at hnone
      cases hnone
    refine ⟨hsender, fun f hf => ?_⟩
    rw [← storedMap_of_native ht hsender hf, h, postedMap_of_native transaction hf]
  · rintro ⟨hsender, h⟩
    funext f
    by_cases hf : f ∈ TransactionField.native
    · rw [storedMap_of_native ht hsender hf, h f hf, postedMap_of_native transaction hf]
    · rw [storedMap_of_not_native t hf, postedMap_of_not_native transaction hf]

/-- What is executed has the terms that were sent, if these are of the types they are stored
with. -/
theorem completedAttributes_of_sentAsStored (hC : C.Writes) {taken : Attributes}
    {u : Transaction} (result : Result) (hfields : Fields C ((struct taken).entries C) u)
    (hsurvive : ValuesSurvive C L taken) (hsent : SentAsStored taken) :
    u.sender ≠ [] ∧ ∀ f ∈ TransactionField.native,
      completedAttributes L (u.complete result) f = some (struct taken f) := by
  obtain ⟨bytes, hbytes⟩ := hsent.contractAddress
  obtain ⟨sender, hnonempty, hsender⟩ := hsent.sender
  obtain ⟨name, hname, hfunction⟩ := hsent.function
  have hread {α : Type} {read : Verified.Cbor.Item → Option α} {f : TransactionField} {a : α}
      (hf : f ∉ dropped) (h : (field ((struct taken).entries C) f.key).bind read = some a) :=
    read_entry hf h
  have haddress := hread (f := .contractAddress) (by decide) hfields.contractAddress
  have hfrom := hread (f := .sender) (by decide) hfields.sender
  have hcalled := hread (f := .function) (by decide) hfields.function
  have hnonce := hsurvive.nonce _ (hread (f := .nonce) (by decide) hfields.nonce)
  have hgas := hsurvive.gasLimit _ (hread (f := .gasLimit) (by decide) hfields.gasLimit)
  have hargs := hsurvive.arguments _ (hread (f := .arguments) (by decide) hfields.arguments)
  rw [struct, hbytes, Option.getD_some, hC.binary] at haddress
  rw [struct, hsender, Option.getD_some, hC.binary] at hfrom
  rw [struct, hfunction, Option.getD_some, hC.atom name hname, string, strFromUtf8_utf8]
    at hcalled
  have hsame {f : TransactionField} {term : Term} (h : taken f = some term) :
      some (struct taken f) = some term := by
    rw [struct, h, Option.getD_some]
  have hsent : u.sender = sender := (Option.some.inj hfrom).symm
  refine ⟨fun hempty => hnonempty (hsent.symm.trans hempty), fun f hf => ?_⟩
  simp only [TransactionField.native, List.mem_cons, List.not_mem_nil, or_false] at hf
  rcases hf with rfl | rfl | rfl | rfl | rfl | rfl
  · rw [hsame hbytes, Option.some.inj haddress]
    rfl
  · rw [hsame hsender, ← hsent]
    rfl
  · exact (hsame hnonce).symm
  · exact (hsame hgas).symm
  · rw [hsame hfunction, Option.some.inj hcalled]
    rfl
  · exact (hsame hargs).symm

/-- What was sent has the types it is stored with, if what is executed has the terms that
were sent. -/
theorem sentAsStored_of_completedAttributes {taken : Attributes} {u : Transaction}
    {result : Result} (hfunction : u.function ≠ "nil") (hsender : u.sender ≠ [])
    (h : ∀ f ∈ TransactionField.native, completedAttributes L (u.complete result) f =
      some (struct taken f)) : SentAsStored taken := by
  have hgiven {f : TransactionField} {term : Term} (hne : term ≠ .nil)
      (hterm : some term = some (struct taken f)) : taken f = some term := by
    rw [struct] at hterm
    cases hfield : taken f with
    | none =>
        rw [hfield] at hterm
        exact absurd (Option.some.inj hterm) hne
    | some term' =>
        rw [hfield] at hterm
        exact hterm.symm
  have hbinary (bytes : Bytes) : Term.binary bytes ≠ .nil := by
    intro hnil
    cases hnil
  have hname : Term.atom u.function ≠ .nil := fun hnil => hfunction (Term.atom.inj hnil)
  exact {
    contractAddress := ⟨_, hgiven (hbinary _) (h .contractAddress (by decide))⟩
    sender := ⟨_, hsender, hgiven (hbinary _) (h .sender (by decide))⟩
    function := ⟨_, hfunction, hgiven hname (h .function (by decide))⟩ }

/-! ## The row and the route -/

/-- A row of the table that has the hash is found, or a later one that has it. -/
theorem exists_getTransaction {blocks : List Record} {row : Row} {transactionHash : Bytes}
    (hmem : row ∈ transactionRows blocks) (hhash : row .hash = .binary transactionHash) :
    ∃ row', getTransaction blocks transactionHash = some row' ∧
      row' .hash = .binary transactionHash := by
  have hsame : (row .hash).sameBinary (.binary transactionHash) = true := by
    rw [hhash]
    exact decide_eq_true rfl
  have hsome : (getTransaction blocks transactionHash).isSome :=
    List.find?_isSome.mpr ⟨row, hmem, hsame⟩
  obtain ⟨row', hrow'⟩ := Option.isSome_iff_exists.mp hsome
  refine ⟨row', hrow', ?_⟩
  have hfound := List.find?_some hrow'
  unfold Term.sameBinary at hfound
  split at hfound
  · rename_i bytes bytes' hbytes hbytes'
    cases hbytes'
    rw [hbytes, of_decide_eq_true hfound]
  · cases hfound

variable {blocks : List Record} {ts : List CompletedTransaction} {proofOfWorkValue : Nat}
  {block : BlockStruct} {t : CompletedTransaction}

/-- The row of a mined transaction is among its block's. -/
theorem minedRow_mem
    (hinserted : insertMined L blocks (buildNext L blocks ts) proofOfWorkValue = .ok block)
    (ht : t ∈ ts) : minedRow L block t ∈ block.rows := by
  obtain ⟨-, -, -, -, -, rfl⟩ := insertMined_eq_ok_iff.mp hinserted
  rw [rows_castBlock]
  exact List.mem_map.mpr ⟨_, List.mem_map_of_mem ht, rfl⟩

/-- The cast has kept the address and the function of what is inserted. -/
theorem kept_of_insertMined
    (hinserted : insertMined L blocks (buildNext L blocks ts) proofOfWorkValue = .ok block)
    (ht : t ∈ ts) : Kept t := by
  obtain ⟨hvalid, -, -, -, hrows, -⟩ := insertMined_eq_ok_iff.mp hinserted
  have hstorable := (storable_iff t _).mp
    ⟨((validBlock_iff _ _ _).mp hvalid).1 t ht, (all_fitsTransaction_iff _ _ _).mp hrows t ht⟩
  exact ⟨hstorable.contractAddress.1, hstorable.function.1⟩

theorem findable_iff
    (hinserted : insertMined L blocks (buildNext L blocks ts) proofOfWorkValue = .ok block)
    (ht : t ∈ ts) (transactionHash : Bytes) :
    Findable L blocks block t transactionHash ↔
      L.transactionHash (storedMap L t) = transactionHash := by
  have hrow : minedRow L block t .hash = .binary (L.transactionHash (storedMap L t)) :=
    changes_hash L t
  constructor
  · intro h
    exact Term.binary.inj (hrow.symm.trans h.hash)
  · rintro rfl
    have hmem := minedRow_mem hinserted ht
    have htable : minedRow L block t ∈
        transactionRows (block.record (nextBlockNumber blocks) :: blocks) :=
      List.mem_flatMap.mpr ⟨_, List.mem_cons_self, List.mem_reverse.mpr hmem⟩
    exact ⟨hmem, hrow, exists_getTransaction htable hrow⟩

/-- The hash does not collide on the two maps. -/
def NoCollision (L : MinerLibrary) (map map' : Attributes) : Prop :=
  L.transactionHash map = L.transactionHash map' → map = map'

/-- **When the client's hash finds the transaction**, whatever it returns: exactly if
`struct/2` has taken the address as a byte string, the sender as one that is not empty, and
the function as a text. -/
theorem posted_hash_found_iff (hC : C.Writes) {request : TransactionMap} {taken : Attributes}
    {lists : Lists} {transactionHash entry : Bytes} {queued processing : List Bytes}
    {u : Transaction} {result : Result}
    (hposted : postTransactions C L request lists =
      .success transactionHash ⟨entry :: lists.queued, lists.processing⟩)
    (htaken : structFields C request.unsigned = some taken)
    (hexecuted : getNextTransaction C ⟨queued ++ [entry], processing⟩ =
      (.transaction u, ⟨queued, entry :: processing⟩))
    (hsurvive : ValuesSurvive C L taken) (hmined : u.complete result ∈ ts)
    (hinserted : insertMined L blocks (buildNext L blocks ts) proofOfWorkValue = .ok block) :
    (SentAsStored taken → Findable L blocks block (u.complete result) transactionHash) ∧
      (NoCollision L (storedMap L (u.complete result)) (postedMap (struct taken)) →
        Findable L blocks block (u.complete result) transactionHash → SentAsStored taken) := by
  obtain ⟨hpost, rfl⟩ := postTransactions_eq_success htaken hposted
  have hfields := fields_of_executed hC hpost hexecuted
  have hkept : Kept (u.complete result) := kept_of_insertMined hinserted hmined
  rw [findable_iff hinserted hmined]
  constructor
  · intro htypes
    rw [(storedMap_eq_postedMap_iff hkept).mpr
      (completedAttributes_of_sentAsStored hC result hfields hsurvive htypes)]
  · intro hcollision hhash
    obtain ⟨hsender, hsame⟩ := (storedMap_eq_postedMap_iff hkept).mp (hcollision hhash)
    exact sentAsStored_of_completedAttributes hkept.function hsender hsame

/-! ## A function that is sent as a byte string -/

/-- `plainMiner`, where integers survive and the hash tells atoms from other functions. -/
def hashingMiner : MinerLibrary :=
  { plainMiner with
    fromValue := fun value =>
      match value with
      | .integer value => .integer value
      | _ => .nil
    transactionHash := fun map =>
      match map .function with
      | some (.atom _) => [1]
      | _ => [2] }

/-- The request, with the name of its function as bytes. -/
def bytesRequest : Attributes :=
  Function.update pingRequest .function (some (.binary (utf8 "ping")))

theorem asks_bytes : Asks codec bytesRequest pingTransaction :=
  ⟨rfl, rfl, rfl, rfl, strFromUtf8_utf8 "ping", rfl⟩

/-- The processor gets the transaction that is asked for. -/
theorem getNextTransaction_of_asks {attributes : Attributes} {t : Transaction}
    (hasks : Asks codec attributes t)
    (hpushed : asBinary codec (TransactionStruct.map (struct (attributes.drop [.signature]))) =
      some (pushed attributes)) :
    getNextTransaction codec ⟨[] ++ [pushed attributes], []⟩ =
      (.transaction t, ⟨[], [pushed attributes]⟩) :=
  (getNextTransaction_append codec_writes).mpr (fromSlice_eq_some_iff.mpr
    ⟨_, read_of_readable codec_writes hpushed fun _ _ => rfl,
      fields_entries codec_writes (asks_struct hasks)⟩)

theorem valuesSurvive_codec {attributes : Attributes}
    (hnonce : attributes .nonce = some (.integer 1))
    (hgas : attributes .gasLimit = some (.integer 0))
    (harguments : attributes .arguments = some (.list [.integer 5])) :
    ValuesSurvive codec hashingMiner attributes where
  nonce value h := by
    have hvalue : some 1 = some value := by
      rw [struct, hnonce] at h
      exact h
    rw [hnonce, ← Option.some.inj hvalue]
    rfl
  gasLimit value h := by
    have hvalue : some 0 = some value := by
      rw [struct, hgas] at h
      exact h
    rw [hgas, ← Option.some.inj hvalue]
    rfl
  arguments items h := by
    have hitems : some [Value.integer 5] = some items := by
      rw [struct, harguments] at h
      exact h
    rw [harguments, ← Option.some.inj hitems]
    rfl

/-- The transaction, executed with the code 0. -/
def pinged : CompletedTransaction := pingTransaction.complete (0, .null)

/-- The first block, with that transaction. -/
def pingBlock : BlockStruct := castBlock hashingMiner (buildNext hashingMiner [] [pinged]) 0

theorem pingBlock_inserted :
    insertMined hashingMiner [] (buildNext hashingMiner [] [pinged]) 0 = .ok pingBlock := by
  rfl

/-- The hash of `ping` finds it in the first block. -/
theorem posted_hash_found_at_ping : Findable hashingMiner [] pingBlock pinged [1] := by
  have hposted : postTransactions codec hashingMiner ⟨none, pingRequest, []⟩ ⟨[], []⟩ =
      .success [1] ⟨[pushed pingRequest], []⟩ := by
    rfl
  have hexecuted := getNextTransaction_of_asks asks_ping rfl
  exact (posted_hash_found_iff codec_writes hposted rfl hexecuted
    (valuesSurvive_codec rfl rfl rfl) (List.mem_singleton.mpr rfl) pingBlock_inserted).1
      ⟨⟨_, rfl⟩, ⟨[65], List.cons_ne_nil _ _, rfl⟩, ⟨"ping", by decide, rfl⟩⟩

/-- The hash of a request whose function is a byte string finds nothing. -/
theorem bytes_function_not_found :
    ¬ ∀ (C : Codec) (L : MinerLibrary), C.Writes → ∀ (request : TransactionMap)
      (taken : Attributes) (lists : Lists) (transactionHash entry : Bytes)
      (queued processing : List Bytes) (u : Transaction) (result : Result)
      (blocks : List Record) (ts : List CompletedTransaction) (proofOfWorkValue : Nat)
      (block : BlockStruct),
      postTransactions C L request lists =
        .success transactionHash ⟨entry :: lists.queued, lists.processing⟩ →
      structFields C request.unsigned = some taken →
      getNextTransaction C ⟨queued ++ [entry], processing⟩ =
        (.transaction u, ⟨queued, entry :: processing⟩) →
      request.attributes .sender ≠ some (.binary []) → ValuesSurvive C L taken →
      u.complete result ∈ ts →
      insertMined L blocks (buildNext L blocks ts) proofOfWorkValue = .ok block →
        Findable L blocks block (u.complete result) transactionHash := by
  intro h
  have hposted : postTransactions codec hashingMiner ⟨none, bytesRequest, []⟩ ⟨[], []⟩ =
      .success [2] ⟨[pushed bytesRequest], []⟩ := by
    rfl
  have hexecuted := getNextTransaction_of_asks asks_bytes rfl
  have hfound := h codec hashingMiner codec_writes ⟨none, bytesRequest, []⟩ _ ⟨[], []⟩ [2] _
    [] [] pingTransaction (0, .null) [] [pinged] 0 pingBlock hposted rfl hexecuted
    (by simp [bytesRequest, pingRequest]) (valuesSurvive_codec rfl rfl rfl)
    (List.mem_singleton.mpr rfl) pingBlock_inserted
  have hhash : Term.binary [1] = .binary [2] := hfound.hash
  cases hhash

end Ellipticoind.Ports.Records
