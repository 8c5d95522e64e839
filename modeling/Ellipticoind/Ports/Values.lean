import Ellipticoind.Ports.Redis

/-!
# Values, transactions and the interpreter's interface

The data types that `transaction.rs`, `env.rs` and `result.rs` define, and
`Platform`: what the virtual machine takes from third-party crates.  The
interpreter (`metered_wasmi`) is a step function on activations that may ask
the host for an imported function between two steps; the CBOR codec
(`serde_cbor`) is a pair of functions.
-/

namespace Ellipticoind.Ports

open Ellipticoind.Verified.LittleEndian

/-- `serde_cbor::Value`.  A float is kept as its bits. -/
inductive Value where
  | null
  | bool (value : Bool)
  | integer (value : Int)
  | float (bits : UInt64)
  | bytes (value : Bytes)
  | text (value : String)
  | array (items : List Value)
  | map (entries : List (Value × Value))

/-- An `i32`, as its bits. -/
abbrev I32 := BitVec 32

/-- `metered_wasmi::RuntimeValue`.  Floats are kept as their bits. -/
inductive RuntimeValue where
  | i32 (value : I32)
  | i64 (value : BitVec 64)
  | f32 (bits : BitVec 32)
  | f64 (bits : BitVec 64)
  deriving DecidableEq

/-- `metered_wasmi::TrapKind`. -/
inductive TrapKind where
  | unreachable
  | memoryAccessOutOfBounds
  | tableAccessOutOfBounds
  | elemUninitialized
  | divisionByZero
  | invalidConversionToInt
  | stackOverflow
  | unexpectedSignature
  | outOfGas
  deriving DecidableEq

/-- The `Debug` text of a trap kind. -/
def TrapKind.debug : TrapKind → String
  | .unreachable => "Unreachable"
  | .memoryAccessOutOfBounds => "MemoryAccessOutOfBounds"
  | .tableAccessOutOfBounds => "TableAccessOutOfBounds"
  | .elemUninitialized => "ElemUninitialized"
  | .divisionByZero => "DivisionByZero"
  | .invalidConversionToInt => "InvalidConversionToInt"
  | .stackOverflow => "StackOverflow"
  | .unexpectedSignature => "UnexpectedSignature"
  | .outOfGas => "OutOfGas"

/-- `Env`. -/
structure Env where
  blockNumber : Nat
  blockWinner : Bytes
  blockHash : Bytes
  caller : Option Bytes
  deriving DecidableEq

/-- `Transaction` of `transaction.rs`. -/
structure Transaction where
  contractAddress : Bytes
  sender : Bytes
  nonce : Nat
  gasLimit : Nat
  function : String
  arguments : List Value

/-- `CompletedTransaction`. -/
structure CompletedTransaction where
  contractAddress : Bytes
  sender : Bytes
  nonce : Nat
  gasLimit : Nat
  function : String
  arguments : List Value
  returnValue : Value
  returnCode : Nat

/-- `result::Result`: a `u32` code and a value. -/
abbrev Result := Nat × Value

/-- `Transaction::complete`. -/
def Transaction.complete (t : Transaction) (result : Result) :
    CompletedTransaction where
  contractAddress := t.contractAddress
  sender := t.sender
  nonce := t.nonce
  gasLimit := t.gasLimit
  function := t.function
  arguments := t.arguments
  returnValue := result.2
  returnCode := result.1

/-- The `Transaction` that deserialising a completed one as a `Transaction`
gives: serde drops the two fields it does not know. -/
def CompletedTransaction.transaction (t : CompletedTransaction) : Transaction where
  contractAddress := t.contractAddress
  sender := t.sender
  nonce := t.nonce
  gasLimit := t.gasLimit
  function := t.function
  arguments := t.arguments

@[simp] theorem Transaction.transaction_complete (t : Transaction) (result : Result) :
    (t.complete result).transaction = t := rfl

/-! ## The interpreter -/

/-- What a module exports under the name `memory`. -/
inductive MemoryExport where
  | absent
  | memory (bytes : Bytes)
  | other

/-- The part of a module instance that its activations share. -/
structure Instance (Globals : Type) where
  globals : Globals
  memory : MemoryExport

/-- What an activation does next. -/
inductive Step (Act Globals : Type) where
  /-- One metered instruction, leading to the given states. -/
  | instruction (act : Act) (inst : Instance Globals)
  /-- An imported function is called; `resume` takes its result. -/
  | host (index : Nat) (args : List I32) (resume : Option RuntimeValue → Act)
  | finished (value : Option RuntimeValue)
  | trap (kind : TrapKind)

/-- `metered_wasmi::Error` of `invoke_export`. -/
inductive InvokeError where
  | trap (kind : TrapKind)
  /-- No exported function of that name. -/
  | error

/-- The third-party code below the virtual machine. -/
structure Platform where
  /-- The state of a module instance, its linear memory apart. -/
  Globals : Type
  /-- An activation: the interpreter's value stack and call stack. -/
  Act : Type
  /-- `Module::from_buffer` and `ModuleInstance::new` with the resolver of
  `import_resolver.rs`: the instance and its pending start function. -/
  load : Bytes → Option (Instance Globals × Option Act)
  /-- `invoke_export`, up to the first step of the function. -/
  invokeExport : Instance Globals → String → List RuntimeValue →
    Except InvokeError Act
  step : Act → Instance Globals → Step Act Globals
  /-- `serde_cbor::to_vec`. -/
  toVec : Value → Bytes
  /-- `serde_cbor::from_slice`. -/
  fromSlice : Bytes → Option Value
  /-- The build checks integer overflow (a debug build) or wraps. -/
  overflowChecks : Bool
  /-- The native stack has room for the invocations of these exports, each of them made by
  the host for the one after it. -/
  stackFits : List String → Bool

/-- Why a run of the native program gives no result. -/
inductive Stop where
  /-- A panic, which aborts the whole process. -/
  | panic
  /-- The step budget of the model is used up. -/
  | outOfFuel
  deriving DecidableEq

/-- `unwrap` and `expect`. -/
def unwrap {α : Type} : Option α → Except Stop α
  | some a => .ok a
  | none => .error .panic

/-- `str::from_utf8`. -/
def strFromUtf8 (bytes : Bytes) : Option String :=
  String.fromUTF8? ⟨bytes.toArray⟩

theorem strFromUtf8_utf8 (text : String) : strFromUtf8 (utf8 text) = some text := by
  have hbytes : (⟨(utf8 text).toArray⟩ : ByteArray) = text.toUTF8 := by
    simp [utf8]
  rw [strFromUtf8, hbytes]
  exact dif_pos text.isValidUTF8

/-- `from_slice` at `Vec<Value>`. -/
def Platform.fromSliceVec (P : Platform) (bytes : Bytes) : Option (List Value) :=
  match P.fromSlice bytes with
  | some (.array items) => some items
  | _ => none

/-! ## `result.rs` -/

/-- `vm_panic`. -/
def vmPanic : Result := (1, .text "vm panic")

/-- `wasm_trap`. -/
def wasmTrap (kind : TrapKind) : Result :=
  (1, .text ("WebAssembly Trap: " ++ kind.debug))

/-- `contract_not_found`. -/
def contractNotFound : Result := (2, .text "Contract not found")

/-- `to_bytes`. -/
def toBytes (P : Platform) (result : Result) : Bytes :=
  leBytes 4 result.1 ++ P.toVec result.2

/-- `from_bytes`.  `split_at(4)` panics on fewer than four bytes. -/
def fromBytes (P : Platform) (bytes : Bytes) : Except Stop Result :=
  if bytes.length = 0 then .ok vmPanic
  else if bytes.length < 4 then .error .panic
  else (unwrap (P.fromSlice (bytes.drop 4))).map fun value =>
    (leNat (bytes.take 4), value)

end Ellipticoind.Ports
