import Ellipticoind.Ports.Terms
import Ellipticoind.Verified.Cbor

/-!
# Entries of the queue

`Transaction.from_signed_transaction` and `Transaction.post`, on requests whose
fields hold any term, and `get_next_transaction`, which reads what was pushed as
a `Transaction` of `transaction.rs` and panics where it cannot.

The router asks for nothing but a signature over whatever fields there are.
`struct/2` makes `nil` of those that are missing.  It enumerates what it is given:
a map is its pairs, but one with an atom at `__struct__` goes through the protocol
`Enumerable`, and what comes of that nobody has signed.

## Main results

* `executable_iff` — what a request has to hold for its entry to be read as the
  transaction it asks for.
* `signedAs_of_queueEntry` — what is queued for a request that keeps its fields is
  signed.
-/

namespace Ellipticoind.Ports.Records

open Verified

/-- What the two programs take from their CBOR libraries, and the node from the
library for signatures and from the modules of structs. -/
structure Codec where
  /-- `Cbor.encode` of a map, given its pairs in the order of their keys. -/
  encode : List (Bytes × Term) → Option Bytes
  /-- The item it writes for a term. -/
  item : Term → Cbor.Item
  /-- The entries `serde_cbor` reads where there is one map with texts for keys.
  An entry of the queue is nothing else. -/
  read : Bytes → Option (List (Bytes × Cbor.Item))
  /-- `serde_cbor` gets through what is written for the term.  It gives up where
  lists and maps are nested too deep. -/
  readable : Term → Bool
  /-- The `Value` it makes of an item. -/
  value : Cbor.Item → Value
  /-- `to_vec` of a `Transaction`. -/
  toVec : Transaction → Bytes
  /-- `PublicKey::verify` at a signature, a message and a key; `none` where they
  have the wrong length or are no point of the curve. -/
  verify : Bytes → Bytes → Bytes → Option Bool
  /-- The fields among what a struct enumerates; `none` where its module does not
  implement `Enumerable`, or enumerates other things than pairs. -/
  enumerate : TransactionMap → Option Attributes

/-- What is written can be read: the items that the libraries agree on. -/
structure Codec.Writes (C : Codec) : Prop where
  integer : ∀ value : Nat, value < 2 ^ 64 → C.item (.integer value) = .unsigned value
  atom : ∀ name, name ≠ "nil" → C.item (.atom name) = .text (utf8 name)
  binary : ∀ bytes, C.item (.binary bytes) = .bytes bytes
  list : ∀ items, C.item (.list items) = .array (items.map C.item)
  read : ∀ pairs bytes, C.encode pairs = some bytes → C.read bytes =
    if pairs.all fun pair => C.readable pair.2 then
      some (pairs.map fun pair => (pair.1, C.item pair.2))
    else none
  read_nil : C.read [] = none

variable (C : Codec)

/-! ## `transaction.ex` -/

/-- The key of a field. -/
def TransactionField.key : TransactionField → String
  | .id => "id"
  | .hash => "hash"
  | .blockHash => "block_hash"
  | .contractAddress => "contract_address"
  | .function => "function"
  | .arguments => "arguments"
  | .sender => "sender"
  | .nonce => "nonce"
  | .gasLimit => "gas_limit"
  | .returnCode => "return_code"
  | .returnValue => "return_value"
  | .signature => "signature"

/-- The fields in the order of their keys in a map. -/
def TransactionField.inKeyOrder : List TransactionField :=
  [ .arguments, .blockHash, .contractAddress, .function, .gasLimit, .hash, .id, .nonce
  , .returnCode, .returnValue, .sender, .signature ]

/-- The pairs of a map, in the order of the keys. -/
def Attributes.pairs (attributes : Attributes) : List (Bytes × Term) :=
  TransactionField.inKeyOrder.filterMap fun field =>
    (attributes field).map fun term => (utf8 field.key, term)

/-- `as_binary`, which raises where a term cannot be encoded. -/
def asBinary (transaction : ReceivedTransaction) : Option Bytes :=
  (TransactionView.asMap transaction).bind fun map => C.encode map.pairs

/-- A `Transaction` struct. -/
abbrev TransactionStruct := TransactionField → Term

/-- `struct(Transaction, map)`. -/
def struct (attributes : Attributes) : TransactionStruct :=
  fun field => (attributes field).getD .nil

/-- The fields that `as_map` drops. -/
def dropped : List TransactionField := [.blockHash, .signature, .id]

/-- A struct as the map it is. -/
def TransactionStruct.map (transaction : TransactionStruct) : ReceivedTransaction :=
  .map (fun field => some (transaction field)) []

/-- `Crypto.valid_signature?`, whose arguments have to be binaries. -/
def validSignature (signature : Term) (message : Bytes) (publicKey : Term) : Option Bool :=
  match signature, publicKey with
  | .binary signature, .binary publicKey => C.verify signature message publicKey
  | _, _ => none

/-- What `from_signed_transaction` comes to. -/
inductive Checked where
  | ok (transaction : TransactionStruct)
  /-- `{:error, :invalid_signature}`. -/
  | invalidSignature
  | raised

/-- The fields that `struct/2` goes through: those of the map, or what a struct
enumerates. -/
def structFields (t : TransactionMap) : Option Attributes :=
  match t.moduleName with
  | none => some t.attributes
  | some _ => C.enumerate t

/-- `from_signed_transaction`. -/
def fromSignedTransaction (signedTransaction : TransactionMap) : Checked :=
  let signature := (signedTransaction.attributes .signature).getD .nil
  let transaction := signedTransaction.unsigned
  match asBinary C transaction.received, signedTransaction.attributes .sender with
  | some message, some sender =>
      match validSignature C signature message sender with
      | some true =>
          match structFields C transaction with
          | some attributes => .ok (struct attributes)
          | none => .raised
      | some false => .invalidSignature
      | none => .raised
  | _, _ => .raised

/-- The two lists of Redis that transactions go through, from left to right. -/
structure Lists where
  queued : List Bytes
  processing : List Bytes

/-- `post`. -/
def post (transaction : ReceivedTransaction) (lists : Lists) : Option Lists :=
  (asBinary C transaction).map fun entry => { lists with queued := entry :: lists.queued }

/-- The entry that the router has `post` push for a request; `none` where it has the
wrong signature or something raises. -/
def queueEntry (request : TransactionMap) : Option Bytes :=
  match fromSignedTransaction C request with
  | .ok transaction => asBinary C transaction.map
  | _ => none

/-! ## `get_next_transaction` -/

/-- A byte of a sequence. -/
def u8 : Cbor.Item → Option UInt8
  | .unsigned value => if value < 256 then some (.ofNat value) else none
  | _ => none

/-- `serde_bytes`, which takes a text and a sequence of bytes too. -/
def byteBuf : Cbor.Item → Option Bytes
  | .bytes bytes => some bytes
  | .text bytes => some bytes
  | .array items => items.mapM u8
  | _ => none

/-- A `u64`. -/
def u64 : Cbor.Item → Option Nat
  | .unsigned value => if value < 2 ^ 64 then some value else none
  | _ => none

/-- A `String`, which can be given as bytes. -/
def string : Cbor.Item → Option String
  | .text bytes => strFromUtf8 bytes
  | .bytes bytes => strFromUtf8 bytes
  | _ => none

/-- A `Vec<Value>`. -/
def values : Cbor.Item → Option (List Value)
  | .array items => some (items.map C.value)
  | _ => none

/-- The field of that name, which must be there once. -/
def field (entries : List (Bytes × Cbor.Item)) (name : String) : Option Cbor.Item :=
  match entries.filter fun entry => entry.1 = utf8 name with
  | [entry] => some entry.2
  | _ => none

/-- The `Transaction` that is read of the entries of a map.  Other entries are passed
over. -/
def fromEntries (entries : List (Bytes × Cbor.Item)) : Option Transaction := do
  let contractAddress ← (field entries "contract_address").bind byteBuf
  let sender ← (field entries "sender").bind byteBuf
  let nonce ← (field entries "nonce").bind u64
  let gasLimit ← (field entries "gas_limit").bind u64
  let function ← (field entries "function").bind string
  let arguments ← (field entries "arguments").bind (values C)
  return {
    contractAddress := contractAddress
    sender := sender
    nonce := nonce
    gasLimit := gasLimit
    function := function
    arguments := arguments }

/-- `from_slice::<Transaction>`. -/
def fromSlice (bytes : Bytes) : Option Transaction :=
  (C.read bytes).bind (fromEntries C)

/-- What `get_next_transaction` comes to. -/
inductive Next where
  | none
  | transaction (t : Transaction)
  | panicked

/-- `get_next_transaction`. -/
def getNextTransaction (lists : Lists) : Next × Lists :=
  match lists.queued.getLast? with
  | none => (.none, lists)
  | some entry =>
      let lists := ⟨lists.queued.dropLast, entry :: lists.processing⟩
      if entry.length = 0 then (.none, lists)
      else
        match fromSlice C entry with
        | none => (.panicked, lists)
        | some t => (.transaction t, lists)

/-! ## What a term holds -/

def Term.byte : Term → Option UInt8
  | .integer value => if 0 ≤ value ∧ value < 256 then some (.ofNat value.toNat) else none
  | _ => none

/-- The bytes of a binary, of a text, or of a list of them. -/
def Term.bytes : Term → Option Bytes
  | .binary bytes => some bytes
  | .atom name => if name = "nil" then none else some (utf8 name)
  | .list items => items.mapM Term.byte
  | _ => none

/-- A number of 64 bits. -/
def Term.number : Term → Option Nat
  | .integer value => if 0 ≤ value ∧ value < 2 ^ 64 then some value.toNat else none
  | _ => none

/-- The name that is a text or a binary. -/
def Term.name : Term → Option String
  | .atom name => if name = "nil" then none else some name
  | .binary bytes => strFromUtf8 bytes
  | _ => none

def Term.items : Term → Option (List Term)
  | .list items => some items
  | _ => none

/-- The fields of the map hold what the transaction has. -/
structure Asks (attributes : Attributes) (t : Transaction) : Prop where
  contractAddress : (attributes .contractAddress).bind Term.bytes = some t.contractAddress
  sender : (attributes .sender).bind Term.bytes = some t.sender
  nonce : (attributes .nonce).bind Term.number = some t.nonce
  gasLimit : (attributes .gasLimit).bind Term.number = some t.gasLimit
  function : (attributes .function).bind Term.name = some t.function
  arguments : ((attributes .arguments).bind Term.items).map
    (List.map fun term => C.value (C.item term)) = some t.arguments

/-- Wherever the entry comes up, the processor gets a transaction that the map
asks for. -/
def Executable (attributes : Attributes) (entry : Bytes) : Prop :=
  ∃ t, Asks C attributes t ∧ ∀ queued processing,
    getNextTransaction C ⟨queued ++ [entry], processing⟩ =
      (.transaction t, ⟨queued, entry :: processing⟩)

/-- The fields of the request hold terms of the types they have in a `Transaction`,
the same values are read where `struct/2` has taken them, and no field of the struct
is one that `serde_cbor` gives up on. -/
structure WellTyped (attributes taken : Attributes) : Prop where
  contractAddress : ∃ bytes, (attributes .contractAddress).bind Term.bytes = some bytes ∧
    byteBuf (C.item (struct taken .contractAddress)) = some bytes
  sender : ∃ bytes, (attributes .sender).bind Term.bytes = some bytes ∧
    byteBuf (C.item (struct taken .sender)) = some bytes
  nonce : ∃ value, (attributes .nonce).bind Term.number = some value ∧
    u64 (C.item (struct taken .nonce)) = some value
  gasLimit : ∃ value, (attributes .gasLimit).bind Term.number = some value ∧
    u64 (C.item (struct taken .gasLimit)) = some value
  function : ∃ name, (attributes .function).bind Term.name = some name ∧
    string (C.item (struct taken .function)) = some name
  arguments : ∃ items, ((attributes .arguments).bind Term.items).map
      (List.map fun term => C.value (C.item term)) = some items ∧
    values C (C.item (struct taken .arguments)) = some items
  readable : ∀ field, field ∉ dropped → C.readable (struct taken field) = true

variable {C}

/-! ## Reading what was written -/

theorem byte_eq_some {term : Term} {byte : UInt8} (h : term.byte = some byte) :
    term = .integer (byte.toNat : Int) := by
  unfold Term.byte at h
  split at h
  · obtain ⟨hvalue, h⟩ := Option.ite_none_right_eq_some.mp h
    cases h
    simp
    omega
  · cases h

theorem number_eq_some {term : Term} {value : Nat} (h : term.number = some value) :
    term = .integer value ∧ value < 2 ^ 64 := by
  unfold Term.number at h
  split at h
  · obtain ⟨hvalue, h⟩ := Option.ite_none_right_eq_some.mp h
    cases h
    refine ⟨?_, by omega⟩
    rw [Int.toNat_of_nonneg hvalue.1]
  · cases h

theorem u8_item (hC : C.Writes) {term : Term} {byte : UInt8} (h : term.byte = some byte) :
    u8 (C.item term) = some byte := by
  have hbyte := byte.toNat_lt
  rw [byte_eq_some h, hC.integer _ (by omega), u8, if_pos hbyte, UInt8.ofNat_toNat]

theorem mapM_u8_item (hC : C.Writes) {items : List Term} {bytes : Bytes}
    (h : items.mapM Term.byte = some bytes) : (items.map C.item).mapM u8 = some bytes := by
  induction items generalizing bytes with
  | nil => exact h
  | cons term items ih =>
      rw [List.mapM_cons] at h
      obtain ⟨byte, hbyte, h⟩ := Option.bind_eq_some_iff.mp h
      obtain ⟨rest, hrest, h⟩ := Option.bind_eq_some_iff.mp h
      cases h
      rw [List.map_cons, List.mapM_cons, u8_item hC hbyte, ih hrest]
      rfl

theorem byteBuf_item (hC : C.Writes) {term : Term} {bytes : Bytes}
    (h : term.bytes = some bytes) : byteBuf (C.item term) = some bytes := by
  unfold Term.bytes at h
  split at h
  · rw [hC.binary]
    exact h
  · obtain ⟨hname, h⟩ := Option.ite_none_left_eq_some.mp h
    rw [hC.atom _ hname]
    exact h
  · rw [hC.list]
    exact mapM_u8_item hC h
  · cases h

theorem u64_item (hC : C.Writes) {term : Term} {value : Nat} (h : term.number = some value) :
    u64 (C.item term) = some value := by
  obtain ⟨rfl, hvalue⟩ := number_eq_some h
  rw [hC.integer value hvalue, u64, if_pos hvalue]

theorem string_item (hC : C.Writes) {term : Term} {name : String} (h : term.name = some name) :
    string (C.item term) = some name := by
  unfold Term.name at h
  split at h
  · obtain ⟨hname, h⟩ := Option.ite_none_left_eq_some.mp h
    cases h
    rw [hC.atom _ hname]
    exact strFromUtf8_utf8 name
  · rw [hC.binary]
    exact h
  · cases h

theorem values_item (hC : C.Writes) {term : Term} {items : List Term}
    (h : term.items = some items) :
    values C (C.item term) = some (items.map fun term => C.value (C.item term)) := by
  unfold Term.items at h
  split at h
  · cases h
    rw [hC.list, values, List.map_map]
    rfl
  · cases h

/-- The pairs of the map that is made of a struct. -/
def TransactionStruct.pairs (t : TransactionStruct) : List (Bytes × Term) :=
  (Attributes.drop (fun field => some (t field)) dropped).pairs

/-- Its entries, as they are read. -/
def TransactionStruct.entries (C : Codec) (t : TransactionStruct) : List (Bytes × Cbor.Item) :=
  t.pairs.map fun pair => (pair.1, C.item pair.2)

theorem asBinary_map (t : TransactionStruct) : asBinary C t.map = C.encode t.pairs := rfl

theorem field_entries (t : TransactionStruct) {f : TransactionField}
    (h : f ∉ dropped) :
    field (t.entries C) f.key = some (C.item (t f)) := by
  cases f with
  | id | blockHash | signature => exact absurd h (by decide)
  | _ => rfl

/-- The entries have the fields of the transaction. -/
structure Fields (C : Codec) (entries : List (Bytes × Cbor.Item)) (t : Transaction) :
    Prop where
  contractAddress :
    (field entries "contract_address").bind byteBuf = some t.contractAddress
  sender : (field entries "sender").bind byteBuf = some t.sender
  nonce : (field entries "nonce").bind u64 = some t.nonce
  gasLimit : (field entries "gas_limit").bind u64 = some t.gasLimit
  function : (field entries "function").bind string = some t.function
  arguments : (field entries "arguments").bind (values C) = some t.arguments

theorem fromEntries_eq_some_iff {entries : List (Bytes × Cbor.Item)} {t : Transaction} :
    fromEntries C entries = some t ↔ Fields C entries t := by
  constructor
  · intro h
    obtain ⟨contractAddress, hcontractAddress, h⟩ := Option.bind_eq_some_iff.mp h
    obtain ⟨sender, hsender, h⟩ := Option.bind_eq_some_iff.mp h
    obtain ⟨nonce, hnonce, h⟩ := Option.bind_eq_some_iff.mp h
    obtain ⟨gasLimit, hgasLimit, h⟩ := Option.bind_eq_some_iff.mp h
    obtain ⟨function, hfunction, h⟩ := Option.bind_eq_some_iff.mp h
    obtain ⟨arguments, harguments, h⟩ := Option.bind_eq_some_iff.mp h
    cases h
    exact ⟨hcontractAddress, hsender, hnonce, hgasLimit, hfunction, harguments⟩
  · intro h
    simp only [fromEntries, h.contractAddress, h.sender, h.nonce, h.gasLimit, h.function,
      h.arguments, Option.bind_eq_bind, Option.bind_some]
    rfl

theorem fromSlice_eq_some_iff {bytes : Bytes} {t : Transaction} :
    fromSlice C bytes = some t ↔ ∃ entries, C.read bytes = some entries ∧ Fields C entries t := by
  simp only [fromSlice, Option.bind_eq_some_iff, fromEntries_eq_some_iff]

theorem bind_field {α : Type} {read : Cbor.Item → Option α} {t : TransactionStruct}
    {f : TransactionField} {a : α} (hf : f ∉ dropped) (h : read (C.item (t f)) = some a) :
    (field (t.entries C) f.key).bind read = some a := by
  rw [field_entries t hf]
  exact h

/-- The entries of a struct have the fields that the struct asks for. -/
theorem fields_entries (hC : C.Writes) {t : TransactionStruct} {u : Transaction}
    (h : Asks C (fun f => some (t f)) u) : Fields C (t.entries C) u := by
  have harguments : ((t .arguments).items).map
      (List.map fun term => C.value (C.item term)) = some u.arguments := h.arguments
  obtain ⟨items, hitems, harguments⟩ := Option.map_eq_some_iff.mp harguments
  have hvalues := values_item hC hitems
  rw [harguments] at hvalues
  exact {
    contractAddress :=
      bind_field (f := .contractAddress) (by decide) (byteBuf_item hC h.contractAddress)
    sender := bind_field (f := .sender) (by decide) (byteBuf_item hC h.sender)
    nonce := bind_field (f := .nonce) (by decide) (u64_item hC h.nonce)
    gasLimit := bind_field (f := .gasLimit) (by decide) (u64_item hC h.gasLimit)
    function := bind_field (f := .function) (by decide) (string_item hC h.function)
    arguments := bind_field (f := .arguments) (by decide) hvalues }

theorem mem_inKeyOrder (f : TransactionField) : f ∈ TransactionField.inKeyOrder := by
  cases f <;> decide

/-- Something holds of all the terms that are written for a struct. -/
theorem all_pairs_iff {t : TransactionStruct} {p : Term → Bool} :
    (t.pairs.all fun pair => p pair.2) = true ↔ ∀ f, f ∉ dropped → p (t f) = true := by
  simp only [List.all_eq_true, TransactionStruct.pairs, Attributes.pairs, List.mem_filterMap,
    Option.map_eq_some_iff, Attributes.drop, Option.ite_none_left_eq_some]
  constructor
  · intro h f hf
    exact h _ ⟨f, mem_inKeyOrder f, t f, ⟨hf, rfl⟩, rfl⟩
  · rintro h pair ⟨f, -, term, ⟨hf, hterm⟩, rfl⟩
    cases hterm
    exact h f hf

theorem read_of_readable (hC : C.Writes) {t : TransactionStruct} {entry : Bytes}
    (hentry : asBinary C t.map = some entry)
    (h : ∀ f, f ∉ dropped → C.readable (t f) = true) :
    C.read entry = some (t.entries C) := by
  rw [asBinary_map] at hentry
  rw [hC.read _ _ hentry, if_pos (all_pairs_iff.mpr h)]
  rfl

theorem readable_of_read (hC : C.Writes) {t : TransactionStruct} {entry : Bytes}
    {entries : List (Bytes × Cbor.Item)} (hentry : asBinary C t.map = some entry)
    (h : C.read entry = some entries) {f : TransactionField} (hf : f ∉ dropped) :
    C.readable (t f) = true := by
  rw [asBinary_map] at hentry
  rw [hC.read _ _ hentry] at h
  exact all_pairs_iff.mp (Option.ite_none_right_eq_some.mp h).1 f hf

/-- What is read of an entry is what was written. -/
theorem entries_of_read (hC : C.Writes) {t : TransactionStruct} {entry : Bytes}
    {entries : List (Bytes × Cbor.Item)} (hentry : asBinary C t.map = some entry)
    (h : C.read entry = some entries) : entries = t.entries C := by
  have hread := read_of_readable hC hentry fun f hf => readable_of_read hC hentry h hf
  exact Option.some.inj (h.symm.trans hread)

/-! ## `get_next_transaction` on an entry -/

/-- The processor takes the last entry of the queue. -/
theorem getNextTransaction_append (hC : C.Writes) {queued processing : List Bytes}
    {entry : Bytes} {t : Transaction} :
    getNextTransaction C ⟨queued ++ [entry], processing⟩ =
      (.transaction t, ⟨queued, entry :: processing⟩) ↔ fromSlice C entry = some t := by
  simp only [getNextTransaction, List.getLast?_append, List.getLast?_singleton, Option.some_or,
    List.dropLast_concat]
  constructor
  · intro h
    split at h
    · cases h
    · split at h
      · cases h
      · rename_i hdecode
        cases h
        exact hdecode
  · intro h
    obtain ⟨entries, hread, -⟩ := fromSlice_eq_some_iff.mp h
    have hentry : entry.length ≠ 0 := by
      intro hempty
      rw [List.length_eq_zero_iff.mp hempty, hC.read_nil] at hread
      cases hread
    rw [if_neg hentry, h]

/-! ## The router -/

variable (C) in
/-- The map has a signature by its sender over the CBOR of its view. -/
def Signed (t : TransactionMap) : Prop :=
  ∃ message signature sender, asBinary C t.unsigned.received = some message ∧
    t.attributes .signature = some (.binary signature) ∧
    t.attributes .sender = some (.binary sender) ∧ C.verify signature message sender = some true

/-- What the router has checked of an accepted request. -/
theorem fromSignedTransaction_eq_ok_iff {t : TransactionMap}
    {transaction : TransactionStruct} :
    fromSignedTransaction C t = .ok transaction ↔
      Signed C t ∧ ∃ taken, structFields C t.unsigned = some taken ∧
        transaction = struct taken := by
  constructor
  · intro h
    simp only [fromSignedTransaction] at h
    split at h
    · rename_i message sender hmessage hsender
      split at h
      · rename_i hvalid
        split at h
        · rename_i taken htaken
          cases h
          unfold validSignature at hvalid
          split at hvalid
          · rename_i signature sender hsignature
            obtain ⟨term, hterm, hbinary⟩ : ∃ term, t.attributes .signature = some term ∧
                term = .binary signature := by
              cases hfield : t.attributes .signature with
              | none => rw [hfield] at hsignature; cases hsignature
              | some term => rw [hfield] at hsignature; exact ⟨term, rfl, hsignature⟩
            subst hbinary
            exact ⟨⟨message, signature, sender, hmessage, hterm, hsender, hvalid⟩, taken, htaken,
              rfl⟩
          · cases hvalid
        · cases h
      · cases h
      · cases h
    · cases h
  · rintro ⟨⟨message, signature, sender, hmessage, hsignature, hsender, hvalid⟩, taken, htaken,
      rfl⟩
    simp only [fromSignedTransaction, hmessage, hsignature, hsender, Option.getD_some,
      validSignature, hvalid, htaken]

theorem queueEntry_eq_some_iff {request : TransactionMap} {entry : Bytes} :
    queueEntry C request = some entry ↔
      Signed C request ∧ ∃ taken, structFields C request.unsigned = some taken ∧
        asBinary C (struct taken).map = some entry := by
  constructor
  · intro h
    unfold queueEntry at h
    split at h
    · rename_i transaction hchecked
      obtain ⟨hsigned, taken, htaken, rfl⟩ := fromSignedTransaction_eq_ok_iff.mp hchecked
      exact ⟨hsigned, taken, htaken, h⟩
    · cases h
  · rintro ⟨hsigned, taken, htaken, hentry⟩
    have hchecked := fromSignedTransaction_eq_ok_iff.mpr ⟨hsigned, taken, htaken, rfl⟩
    rw [queueEntry, hchecked]
    exact hentry

/-- A map that is no struct is its pairs. -/
theorem structFields_unsigned {t : TransactionMap} (h : t.moduleName = none) :
    structFields C t.unsigned = some (t.attributes.drop [.signature]) := by
  rw [structFields, TransactionMap.moduleName_unsigned, h]
  rfl

/-- A struct holds what the map has. -/
theorem content_struct {α : Type} {content : Term → Option α} {attributes : Attributes}
    {f : TransactionField} {a : α} (h : (attributes f).bind content = some a) :
    content (struct attributes f) = some a := by
  obtain ⟨term, hterm, ha⟩ := Option.bind_eq_some_iff.mp h
  rw [struct, hterm]
  exact ha

/-- The struct of an accepted request has the fields of the request. -/
theorem struct_drop {attributes : Attributes} {f : TransactionField} (h : f ∉ dropped) :
    struct (attributes.drop [.signature]) f = struct attributes f := by
  have hsignature : f ∉ [TransactionField.signature] := by
    rintro hf
    rw [List.mem_singleton.mp hf] at h
    exact h (by decide)
  rw [struct, Attributes.drop, if_neg hsignature]
  rfl

/-- A request that is well typed asks for the transaction that is read. -/
theorem WellTyped.exists_asks {attributes taken : Attributes} (h : WellTyped C attributes taken) :
    ∃ t, Asks C attributes t ∧ Fields C ((struct taken).entries C) t := by
  obtain ⟨contractAddress, hcontractAddress, hcontractAddress'⟩ := h.contractAddress
  obtain ⟨sender, hsender, hsender'⟩ := h.sender
  obtain ⟨nonce, hnonce, hnonce'⟩ := h.nonce
  obtain ⟨gasLimit, hgasLimit, hgasLimit'⟩ := h.gasLimit
  obtain ⟨function, hfunction, hfunction'⟩ := h.function
  obtain ⟨arguments, harguments, harguments'⟩ := h.arguments
  exact ⟨{
    contractAddress := contractAddress
    sender := sender
    nonce := nonce
    gasLimit := gasLimit
    function := function
    arguments := arguments }, {
    contractAddress := hcontractAddress
    sender := hsender
    nonce := hnonce
    gasLimit := hgasLimit
    function := hfunction
    arguments := harguments }, {
    contractAddress := bind_field (f := .contractAddress) (by decide) hcontractAddress'
    sender := bind_field (f := .sender) (by decide) hsender'
    nonce := bind_field (f := .nonce) (by decide) hnonce'
    gasLimit := bind_field (f := .gasLimit) (by decide) hgasLimit'
    function := bind_field (f := .function) (by decide) hfunction'
    arguments := bind_field (f := .arguments) (by decide) harguments' }⟩

/-- What is read in a field of a struct's entry. -/
theorem read_entry {α : Type} {read : Cbor.Item → Option α} {t : TransactionStruct}
    {f : TransactionField} {a : α} (hf : f ∉ dropped)
    (h : (field (t.entries C) f.key).bind read = some a) : read (C.item (t f)) = some a := by
  rwa [field_entries t hf] at h

theorem Asks.wellTyped {attributes taken : Attributes} {t : Transaction} (h : Asks C attributes t)
    (hfields : Fields C ((struct taken).entries C) t)
    (hreadable : ∀ f, f ∉ dropped → C.readable (struct taken f) = true) :
    WellTyped C attributes taken where
  contractAddress := ⟨_, h.contractAddress,
    read_entry (f := .contractAddress) (by decide) hfields.contractAddress⟩
  sender := ⟨_, h.sender, read_entry (f := .sender) (by decide) hfields.sender⟩
  nonce := ⟨_, h.nonce, read_entry (f := .nonce) (by decide) hfields.nonce⟩
  gasLimit := ⟨_, h.gasLimit, read_entry (f := .gasLimit) (by decide) hfields.gasLimit⟩
  function := ⟨_, h.function, read_entry (f := .function) (by decide) hfields.function⟩
  arguments := ⟨_, h.arguments, read_entry (f := .arguments) (by decide) hfields.arguments⟩
  readable := hreadable

theorem asks_struct {attributes : Attributes} {t : Transaction} (h : Asks C attributes t) :
    Asks C (fun f => some (struct (attributes.drop [.signature]) f)) t := by
  obtain ⟨items, hitems, harguments⟩ := Option.map_eq_some_iff.mp h.arguments
  constructor
  · rw [Option.bind_some, struct_drop (by decide), content_struct h.contractAddress]
  · rw [Option.bind_some, struct_drop (by decide), content_struct h.sender]
  · rw [Option.bind_some, struct_drop (by decide), content_struct h.nonce]
  · rw [Option.bind_some, struct_drop (by decide), content_struct h.gasLimit]
  · rw [Option.bind_some, struct_drop (by decide), content_struct h.function]
  · rw [Option.bind_some, struct_drop (by decide), content_struct hitems, Option.map_some,
      harguments]

/-- What a map that is no struct has to hold: terms of the types of a `Transaction`. -/
theorem wellTyped_of_asks (hC : C.Writes) {attributes : Attributes} {t : Transaction}
    (h : Asks C attributes t)
    (hreadable : ∀ f, f ∉ dropped → C.readable (struct attributes f) = true) :
    WellTyped C attributes (attributes.drop [.signature]) := by
  refine h.wellTyped (fields_entries hC (asks_struct h)) fun f hf => ?_
  rw [struct_drop hf]
  exact hreadable f hf

/-- **An entry is executable exactly if its request is well typed**, for every
request whose signature the router has accepted, a struct or a plain map. -/
theorem executable_iff (hC : C.Writes) {request : TransactionMap}
    {transaction : TransactionStruct} {lists : Lists} {entry : Bytes}
    (haccepted : fromSignedTransaction C request = .ok transaction)
    (hpost : post C transaction.map lists = some ⟨entry :: lists.queued, lists.processing⟩) :
    Executable C request.attributes entry ↔
      ∃ taken, structFields C request.unsigned = some taken ∧
        WellTyped C request.attributes taken := by
  obtain ⟨-, taken, htaken, rfl⟩ := fromSignedTransaction_eq_ok_iff.mp haccepted
  obtain ⟨entry', hentry, hlists⟩ := Option.map_eq_some_iff.mp hpost
  cases hlists
  constructor
  · rintro ⟨t, hasks, hnext⟩
    have hdecode := (getNextTransaction_append hC).mp (hnext [] [])
    obtain ⟨entries, hread, hfields⟩ := fromSlice_eq_some_iff.mp hdecode
    cases entries_of_read hC hentry hread
    exact ⟨taken, htaken, hasks.wellTyped hfields fun f hf =>
      readable_of_read hC hentry hread hf⟩
  · rintro ⟨taken', htaken', htyped⟩
    cases htaken.symm.trans htaken'
    obtain ⟨t, hasks, hfields⟩ := htyped.exists_asks
    have hread := read_of_readable hC hentry htyped.readable
    have hdecode := fromSlice_eq_some_iff.mpr ⟨_, hread, hfields⟩
    exact ⟨t, hasks, fun _ _ => (getNextTransaction_append hC).mpr hdecode⟩

/-! ## Missing fields -/

/-- The fields of a `Transaction` of `transaction.rs`. -/
def TransactionField.native : List TransactionField :=
  [.contractAddress, .sender, .nonce, .gasLimit, .function, .arguments]

theorem bind_field_nil {α : Type} {read : Cbor.Item → Option α} {t : TransactionStruct}
    {f : TransactionField} (hnull : C.item .nil = .null) (hread : read .null = none)
    (hf : f ∉ dropped) (h : t f = .nil) (a : α) :
    (field (t.entries C) f.key).bind read ≠ some a := by
  rw [field_entries t hf, h, hnull, Option.bind_some, hread]
  exact nofun

theorem fromSlice_of_nil (hC : C.Writes) (hnull : C.item .nil = .null) {t : TransactionStruct}
    {entry : Bytes} (hentry : asBinary C t.map = some entry) {f : TransactionField}
    (hf : f ∈ TransactionField.native) (h : t f = .nil) : fromSlice C entry = none := by
  rw [Option.eq_none_iff_forall_ne_some]
  intro u hu
  obtain ⟨entries, hread, hfields⟩ := fromSlice_eq_some_iff.mp hu
  cases entries_of_read hC hentry hread
  have hnil {α : Type} {read : Cbor.Item → Option α} (hread : read .null = none)
      (hf : f ∉ dropped) (a : α) := bind_field_nil hnull hread hf h a
  simp only [TransactionField.native, List.mem_cons, List.not_mem_nil, or_false] at hf
  rcases hf with rfl | rfl | rfl | rfl | rfl | rfl
  · exact hnil rfl (by decide) _ hfields.contractAddress
  · exact hnil rfl (by decide) _ hfields.sender
  · exact hnil rfl (by decide) _ hfields.nonce
  · exact hnil rfl (by decide) _ hfields.gasLimit
  · exact hnil rfl (by decide) _ hfields.function
  · exact hnil rfl (by decide) _ hfields.arguments

/-- **A missing field makes the processor panic**: what the router has accepted
without it takes the program down when it comes up. -/
theorem panicked_of_nil (hC : C.Writes) (hnull : C.item .nil = .null) {t : TransactionStruct}
    {entry : Bytes} (hentry : asBinary C t.map = some entry) (hne : entry ≠ [])
    {f : TransactionField} (hf : f ∈ TransactionField.native) (h : t f = .nil)
    (queued processing : List Bytes) :
    getNextTransaction C ⟨queued ++ [entry], processing⟩ =
      (.panicked, ⟨queued, entry :: processing⟩) := by
  have hlength : entry.length ≠ 0 := fun hzero => hne (List.length_eq_zero_iff.mp hzero)
  simp only [getNextTransaction, List.getLast?_append, List.getLast?_singleton, Option.some_or,
    List.dropLast_concat, if_neg hlength, fromSlice_of_nil hC hnull hentry hf h]

/-! ## What is signed -/

/-- The field of a key. -/
def TransactionField.ofKey (key : String) : Option TransactionField :=
  TransactionField.inKeyOrder.find? fun field => field.key = key

theorem ofKey_key (f : TransactionField) : TransactionField.ofKey f.key = some f := by
  cases f <;> decide

theorem key_utf8_injective {f g : TransactionField} (h : utf8 f.key = utf8 g.key) : f = g := by
  have hkey : f.key = g.key := by
    rw [← Option.some.injEq, ← strFromUtf8_utf8, h, strFromUtf8_utf8]
  rw [← Option.some.injEq, ← ofKey_key f, hkey, ofKey_key]

theorem mem_pairs_iff {attributes : Attributes} {f : TransactionField} {term : Term} :
    (utf8 f.key, term) ∈ attributes.pairs ↔ attributes f = some term := by
  unfold Attributes.pairs
  rw [List.mem_filterMap]
  constructor
  · rintro ⟨g, -, hg⟩
    obtain ⟨term', hterm, hpair⟩ := Option.map_eq_some_iff.mp hg
    obtain ⟨hkey, rfl⟩ := Prod.mk.inj hpair
    rw [← key_utf8_injective hkey, hterm]
  · intro h
    exact ⟨f, mem_inKeyOrder f, by rw [h, Option.map_some]⟩

/-- The entries of a map, as they are read. -/
def Attributes.entries (C : Codec) (attributes : Attributes) : List (Bytes × Cbor.Item) :=
  attributes.pairs.map fun pair => (pair.1, C.item pair.2)

/-- The keys of the pairs are distinct. -/
theorem filter_pairs (attributes : Attributes) (f : TransactionField)
    {fields : List TransactionField} (hnodup : fields.Nodup) (hmem : f ∈ fields) :
    ((fields.filterMap fun g => (attributes g).map fun term => (utf8 g.key, term)).filter
      fun pair => pair.1 = utf8 f.key) =
      ((attributes f).map fun term => (utf8 f.key, term)).toList := by
  obtain ⟨before, after, rfl⟩ := List.append_of_mem hmem
  have hothers {others : List TransactionField} (hf : f ∉ others) :
      (others.filterMap fun g => (attributes g).map fun term => (utf8 g.key, term)).filter
        (fun pair => pair.1 = utf8 f.key) = [] := by
    refine List.filter_eq_nil_iff.mpr fun pair hpair hkey => ?_
    obtain ⟨g, hg, hpair⟩ := List.mem_filterMap.mp hpair
    obtain ⟨term, -, rfl⟩ := Option.map_eq_some_iff.mp hpair
    exact hf (key_utf8_injective (of_decide_eq_true hkey) ▸ hg)
  have hdisjoint := List.nodup_middle.mp hnodup
  obtain ⟨hnot, -⟩ := List.nodup_cons.mp hdisjoint
  rw [List.mem_append, not_or] at hnot
  rw [List.filterMap_append, List.filter_append, hothers hnot.1, List.nil_append]
  cases hterm : attributes f with
  | none => rw [List.filterMap_cons_none (by rw [hterm]; rfl), hothers hnot.2]; rfl
  | some term =>
      rw [List.filterMap_cons_some (by rw [hterm]; rfl), List.filter_cons, hothers hnot.2]
      simp

theorem field_pairs (attributes : Attributes) (f : TransactionField) :
    field (attributes.entries C) f.key = (attributes f).map C.item := by
  have hfilter : (attributes.entries C).filter (fun entry => entry.1 = utf8 f.key) =
      ((attributes f).map fun term => (utf8 f.key, C.item term)).toList := by
    rw [Attributes.entries, List.filter_map]
    have hpairs := @filter_pairs attributes f TransactionField.inKeyOrder (by decide)
      (mem_inKeyOrder f)
    rw [show ((fun entry : Bytes × Cbor.Item => decide (entry.1 = utf8 f.key)) ∘
        fun pair : Bytes × Term => (pair.1, C.item pair.2)) =
          fun pair => decide (pair.1 = utf8 f.key) from rfl]
    unfold Attributes.pairs
    rw [hpairs]
    cases attributes f <;> rfl
  rw [field, hfilter]
  cases attributes f <;> rfl

/-- What is read of a map's CBOR is its entries. -/
theorem entries_of_read_pairs (hC : C.Writes) {attributes : Attributes} {bytes : Bytes}
    {entries : List (Bytes × Cbor.Item)} (hbytes : C.encode attributes.pairs = some bytes)
    (h : C.read bytes = some entries) : entries = attributes.entries C := by
  rw [hC.read _ _ hbytes] at h
  exact (Option.some.inj (Option.ite_none_right_eq_some.mp h).2).symm

/-- The fields of a map that its signature covers. -/
def TransactionMap.view (t : TransactionMap) : Attributes := t.attributes.drop dropped

theorem asBinary_unsigned (t : TransactionMap) :
    asBinary C t.unsigned.received = C.encode t.view.pairs := by
  have hview : t.unsigned.attributes.drop dropped = t.view := by
    funext f
    cases f <;> rfl
  rw [← hview]
  rfl

theorem view_eq {t : TransactionMap} {f : TransactionField} (hf : f ∉ dropped) :
    t.view f = t.attributes f := if_neg hf

/-- What is read of some entries is one transaction. -/
theorem Fields.unique {entries : List (Bytes × Cbor.Item)} {t u : Transaction}
    (ht : Fields C entries t) (hu : Fields C entries u) : t = u := by
  have hcontractAddress := ht.contractAddress.symm.trans hu.contractAddress
  have hsender := ht.sender.symm.trans hu.sender
  have hnonce := ht.nonce.symm.trans hu.nonce
  have hgasLimit := ht.gasLimit.symm.trans hu.gasLimit
  have hfunction := ht.function.symm.trans hu.function
  have harguments := ht.arguments.symm.trans hu.arguments
  cases t
  cases u
  simp_all only [Option.some.injEq]

variable (C) in
/-- The map has a signature by the sender of the transaction, over CBOR of the fields that
the transaction is read of. -/
def SignedAs (t : TransactionMap) (transaction : Transaction) : Prop :=
  ∃ message signature, C.encode t.view.pairs = some message ∧
    t.attributes .signature = some (.binary signature) ∧
    C.verify signature message transaction.sender = some true ∧
    Fields C (t.view.entries C) transaction

variable (C) in
/-- What is read of the fields that `struct/2` takes is read of the map's own. -/
def KeepsFields (t : TransactionMap) : Prop :=
  ∀ taken transaction, structFields C t.unsigned = some taken →
    Fields C ((struct taken).entries C) transaction → Fields C (t.view.entries C) transaction

/-- It is so for every map that has no atom at `__struct__`. -/
theorem keepsFields_of_plain (hnull : C.item .nil = .null) {t : TransactionMap}
    (h : t.moduleName = none) : KeepsFields C t := by
  intro taken transaction htaken hfields
  cases (structFields_unsigned h).symm.trans htaken
  -- A field that is read is there, as no reader takes a null.
  have hfield {α : Type} {read : Cbor.Item → Option α} {f : TransactionField} {a : α}
      (hf : f ∉ dropped) (hnil : read .null = none)
      (h : (field ((struct (t.attributes.drop [.signature])).entries C) f.key).bind read =
        some a) : (field (t.view.entries C) f.key).bind read = some a := by
    have hitem := read_entry hf h
    rw [struct_drop hf, struct] at hitem
    rw [field_pairs, view_eq hf]
    cases hterm : t.attributes f with
    | none =>
        rw [hterm, Option.getD_none, hnull, hnil] at hitem
        cases hitem
    | some term => rwa [hterm] at hitem
  exact {
    contractAddress := hfield (f := .contractAddress) (by decide) rfl hfields.contractAddress
    sender := hfield (f := .sender) (by decide) rfl hfields.sender
    nonce := hfield (f := .nonce) (by decide) rfl hfields.nonce
    gasLimit := hfield (f := .gasLimit) (by decide) rfl hfields.gasLimit
    function := hfield (f := .function) (by decide) rfl hfields.function
    arguments := hfield (f := .arguments) (by decide) rfl hfields.arguments }

/-- **What is queued for a request that keeps its fields is signed.** -/
theorem signedAs_of_queueEntry (hC : C.Writes) {request : TransactionMap} {entry : Bytes}
    {transaction : Transaction} (hkeeps : KeepsFields C request)
    (hentry : queueEntry C request = some entry)
    (hdecode : fromSlice C entry = some transaction) : SignedAs C request transaction := by
  obtain ⟨⟨message, signature, sender, hmessage, hsignature, hsender, hvalid⟩, taken, htaken,
    hbinary⟩ := queueEntry_eq_some_iff.mp hentry
  obtain ⟨entries, hread, hfields⟩ := fromSlice_eq_some_iff.mp hdecode
  cases entries_of_read hC hbinary hread
  have hview := hkeeps taken transaction htaken hfields
  -- The key that the signature was checked with is the sender that is read.
  have hsent : some sender = some transaction.sender := by
    have hitem := hview.sender
    rwa [show "sender" = TransactionField.sender.key from rfl, field_pairs,
      view_eq (by decide), hsender, Option.map_some, Option.bind_some, hC.binary] at hitem
  cases hsent
  rw [asBinary_unsigned] at hmessage
  exact ⟨message, signature, hmessage, hsignature, hvalid, hview⟩

/-! ## A codec -/

mutual

/-- The item of a term.  A float, and what is of another kind, is left out. -/
def Term.toItem : Term → Cbor.Item
  | .integer value =>
      if 0 ≤ value then .unsigned value.toNat else .negative (-1 - value).toNat
  | .atom name => if name = "nil" then .null else .text (utf8 name)
  | .binary bytes => .bytes bytes
  | .list items => .array (toItems items)
  | .map entries => .map (toEntries entries)
  | _ => .null

def toItems : List Term → List Cbor.Item
  | [] => []
  | term :: terms => term.toItem :: toItems terms

def toEntries : List (Term × Term) → List (Cbor.Item × Cbor.Item)
  | [] => []
  | (key, term) :: entries => (key.toItem, term.toItem) :: toEntries entries

end

theorem toItems_eq_map (terms : List Term) : toItems terms = terms.map Term.toItem := by
  induction terms with
  | nil => rfl
  | cons term terms ih => rw [toItems, ih, List.map_cons]

/-- A map with texts for keys. -/
def textMap (entries : List (Bytes × Cbor.Item)) : Cbor.Item :=
  .map (entries.map fun entry => (.text entry.1, entry.2))

def textEntry : Cbor.Item × Cbor.Item → Option (Bytes × Cbor.Item)
  | (.text key, item) => some (key, item)
  | _ => none

/-- The entries of the one map at the bytes. -/
def readTextMap (bytes : Bytes) : Option (List (Bytes × Cbor.Item)) :=
  match Cbor.read 128 bytes with
  | some (.map entries, []) => entries.mapM textEntry
  | _ => none

theorem mapM_textEntry (entries : List (Bytes × Cbor.Item)) :
    (entries.map fun entry => (Cbor.Item.text entry.1, entry.2)).mapM textEntry =
      some entries := by
  induction entries with
  | nil => rfl
  | cons entry entries ih =>
      rw [List.map_cons, List.mapM_cons, ih]
      rfl

theorem readTextMap_write {entries : List (Bytes × Cbor.Item)}
    (h : (textMap entries).fits 128 = true) :
    readTextMap (textMap entries).write = some entries := by
  have hread := Cbor.read_write h []
  rw [List.append_nil] at hread
  rw [readTextMap, hread]
  exact mapM_textEntry entries

/-- Values that are no lists or maps. -/
def scalarValue : Cbor.Item → Value
  | .unsigned value => .integer value
  | .negative value => .integer (-1 - value)
  | .bytes bytes => .bytes bytes
  | .text bytes => .text ((strFromUtf8 bytes).getD "")
  | _ => .null

/-- The entries of a `Transaction`, with scalars for arguments. -/
def scalarItem : Value → Cbor.Item
  | .integer value =>
      if 0 ≤ value then .unsigned value.toNat else .negative (-1 - value).toNat
  | .bytes bytes => .bytes bytes
  | .text text => .text (utf8 text)
  | _ => .null

def transactionEntries (t : Transaction) : List (Bytes × Cbor.Item) :=
  [ (utf8 "contract_address", .bytes t.contractAddress), (utf8 "sender", .bytes t.sender)
  , (utf8 "nonce", .unsigned t.nonce), (utf8 "gas_limit", .unsigned t.gasLimit)
  , (utf8 "function", .text (utf8 t.function))
  , (utf8 "arguments", .array (t.arguments.map scalarItem)) ]

/-- CBOR as both libraries write it.  The signature that is one byte `1` is valid, and no
struct is enumerable. -/
def codec : Codec where
  encode pairs :=
    let map := textMap (pairs.map fun pair => (pair.1, pair.2.toItem))
    if map.fits 128 then some map.write else none
  item := Term.toItem
  read := readTextMap
  readable _ := true
  value := scalarValue
  toVec t :=
    let map := textMap (transactionEntries t)
    if map.fits 128 then map.write else []
  verify signature _ _ := some (decide (signature = [1]))
  enumerate _ := none

theorem codec_writes : codec.Writes where
  integer value _ := by simp [codec, Term.toItem]
  atom name hname := by simp [codec, Term.toItem, hname]
  binary _ := by simp [codec, Term.toItem]
  list items := by simp [codec, Term.toItem, toItems_eq_map]
  read pairs bytes h := by
    obtain ⟨hfits, h⟩ := Option.ite_none_right_eq_some.mp h
    cases h
    simp only [codec, List.all_eq_true]
    rw [readTextMap_write hfits]
    simp
  read_nil := by rfl

/-! ## A request without a nonce -/

/-- The fields of `ping`, signed. -/
def pingRequest : Attributes := fun field =>
  match field with
  | .contractAddress => some (.binary (List.replicate 32 0 ++ utf8 "system"))
  | .sender => some (.binary [65])
  | .nonce => some (.integer 1)
  | .gasLimit => some (.integer 0)
  | .function => some (.atom "ping")
  | .arguments => some (.list [.integer 5])
  | .signature => some (.binary [1])
  | _ => none

/-- The fields of `ping`, without arguments. -/
def emptyPing : Attributes := Function.update pingRequest .arguments (some (.list []))

/-- The map with these fields. -/
def pingMap : TransactionMap where
  moduleName := none
  attributes := emptyPing
  rest := []

/-- The bytes that are pushed for a request. -/
def pushed (attributes : Attributes) : Bytes :=
  (asBinary codec (struct (attributes.drop [.signature])).map).getD []

/-- The router takes a request that has no nonce, and the processor panics. -/
theorem missing_nonce_panics :
    ¬ ∀ (C : Codec), C.Writes → ∀ (request : TransactionMap) (transaction : TransactionStruct)
      (lists : Lists) (entry : Bytes), fromSignedTransaction C request = .ok transaction →
      post C transaction.map lists = some ⟨entry :: lists.queued, lists.processing⟩ →
      Executable C request.attributes entry := by
  intro h
  obtain ⟨t, -, hnext⟩ := h codec codec_writes ⟨none, pingRequest.drop [.nonce], []⟩ _ ⟨[], []⟩ _
    rfl rfl
  have hpanics := panicked_of_nil codec_writes rfl
    (t := struct ((pingRequest.drop [.nonce]).drop [.signature])) rfl (List.cons_ne_nil _ _)
    (f := .nonce) (by decide) rfl [] []
  have htransaction := congrArg Prod.fst ((hnext [] []).symm.trans hpanics)
  cases htransaction

/-- The transaction that `pingRequest` asks for. -/
def pingTransaction : Transaction where
  contractAddress := List.replicate 32 0 ++ utf8 "system"
  sender := [65]
  nonce := 1
  gasLimit := 0
  function := "ping"
  arguments := [.integer 5]

theorem asks_ping : Asks codec pingRequest pingTransaction :=
  ⟨rfl, rfl, rfl, rfl, rfl, rfl⟩

theorem executable_at_ping : Executable codec pingRequest (pushed pingRequest) := by
  have haccepted : fromSignedTransaction codec ⟨none, pingRequest, []⟩ =
      .ok (struct (pingRequest.drop [.signature])) := by
    rfl
  have hpost : post codec (TransactionStruct.map (struct (pingRequest.drop [.signature])))
      ⟨[], []⟩ = some ⟨[pushed pingRequest], []⟩ := by
    rfl
  exact (executable_iff codec_writes haccepted hpost).mpr
    ⟨_, rfl, wellTyped_of_asks codec_writes asks_ping fun _ _ => rfl⟩

end Ellipticoind.Ports.Records
