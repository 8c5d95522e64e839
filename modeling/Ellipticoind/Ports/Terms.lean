import Mathlib.Data.Rat.Defs
import Ellipticoind.Ports.Values

/-!
# Terms, and transactions made of them

`transaction_view.ex`, and the maps that stand for a transaction before it is one:
what a client has sent, or a peer.  Such a map is decoded from CBOR, so nothing about
the type of a field is known before a function of the node looks at it, and it has
whatever other keys its sender gave it.

A function that raises answers `none`.
-/

namespace Ellipticoind.Ports.Records

/-- An Elixir term that CBOR can carry.  A text is read as an atom, `nil` and the
truth values included; an item of any other kind is `other`. -/
inductive Term where
  | integer (value : Int)
  | float (value : ℚ)
  | atom (name : String)
  | binary (bytes : Bytes)
  | list (items : List Term)
  | map (entries : List (Term × Term))
  | other

@[match_pattern] def Term.nil : Term := .atom "nil"

/-- The fields of the schema `"transactions"`. -/
inductive TransactionField where
  | id
  | hash
  | blockHash
  | contractAddress
  | function
  | arguments
  | sender
  | nonce
  | gasLimit
  | returnCode
  | returnValue
  | signature
  deriving DecidableEq

/-- A map from fields to terms; `none` where it has no such key. -/
abbrev Attributes := TransactionField → Option Term

/-- `Map.drop`. -/
def Attributes.drop (attributes : Attributes) (fields : List TransactionField) : Attributes :=
  fun field => if field ∈ fields then none else attributes field

/-- One of a received block's transactions: a map, with its keys that are no
fields of a transaction, or anything else. -/
inductive ReceivedTransaction where
  | map (attributes : Attributes) (rest : List (Term × Term))
  | other (term : Term)

/-- `TransactionView.as_map`. -/
def TransactionView.asMap : ReceivedTransaction → Option Attributes
  | .map attributes _ => some (attributes.drop [.blockHash, .signature, .id])
  | .other _ => none

/-- A map or a struct: the atom at `__struct__`, the fields of a transaction that it
has, and its other keys. -/
structure TransactionMap where
  moduleName : Option String
  attributes : Attributes
  rest : List (Term × Term)

namespace TransactionMap

/-- The map without its mark. -/
def received (t : TransactionMap) : ReceivedTransaction :=
  .map t.attributes t.rest

/-- `Map.put` at a field. -/
def put (t : TransactionMap) (field : TransactionField) (term : Term) : TransactionMap :=
  { t with attributes := Function.update t.attributes field (some term) }

@[simp] theorem moduleName_put (t : TransactionMap) (field : TransactionField) (term : Term) :
    (t.put field term).moduleName = t.moduleName := rfl

/-- `Map.delete` of the signature. -/
def unsigned (t : TransactionMap) : TransactionMap :=
  { t with attributes := t.attributes.drop [.signature] }

@[simp] theorem moduleName_unsigned (t : TransactionMap) :
    t.unsigned.moduleName = t.moduleName := rfl

end TransactionMap

end Ellipticoind.Ports.Records
