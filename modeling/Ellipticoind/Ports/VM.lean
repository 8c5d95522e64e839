import Ellipticoind.Ports.Memory
import Ellipticoind.Ports.Values

/-!
# The virtual machine

`vm/mod.rs`, `vm/gas.rs`, `vm/memory.rs`, `vm/externals.rs` and `vm/call.rs`.
A `VM` is one frame: a module instance, the transaction and environment it
runs for, its gas, and the `Memory` and `Storage` it shares with every other
frame of the transaction.

The guest calls the host and the host calls the guest back (`__malloc`, and a
nested `VM::call`), so the functions below take the invocation of an export as
an argument and `runGuest` ties the knot.  `runGuest` counts its steps down
from a budget; a run that does not end in time is `Stop.outOfFuel`.

`VM.trace` is not in the source.  It records the operations on the shared
state, the entries of it read, the host functions entered and the starts and ends
of nested frames, in the order in which they happen, and no definition reads it.
-/

namespace Ellipticoind.Ports

open Ellipticoind.Verified.LittleEndian

/-! ## `gas_costs.rs` and the host function indices of `externals.rs` -/

def INSTRUCTION : Nat := 1
def GET_BYTE_MEMORY : Nat := 200
def SET_BYTE_MEMORY : Nat := 5000
def GET_BYTE_STORAGE : Nat := 10
def SET_BYTE_STORAGE : Nat := 500

@[match_pattern] def CONTRACT_ADDRESS_FUNC_INDEX : Nat := 0
@[match_pattern] def SENDER_FUNC_INDEX : Nat := 1
@[match_pattern] def BLOCK_HASH_FUNC_INDEX : Nat := 2
@[match_pattern] def BLOCK_NUMBER_FUNC_INDEX : Nat := 3
@[match_pattern] def BLOCK_WINNER_FUNC_INDEX : Nat := 4
@[match_pattern] def CALLER_FUNC_INDEX : Nat := 5
@[match_pattern] def GET_MEMORY_FUNC_INDEX : Nat := 6
@[match_pattern] def SET_MEMORY_FUNC_INDEX : Nat := 7
@[match_pattern] def GET_STORAGE_FUNC_INDEX : Nat := 8
@[match_pattern] def SET_STORAGE_FUNC_INDEX : Nat := 9
@[match_pattern] def THROW_FUNC_INDEX : Nat := 10
@[match_pattern] def CALL_FUNC_INDEX : Nat := 11
@[match_pattern] def LOG_WRITE : Nat := 12

/-! ## Frames -/

/-- The arm in which `VM::call` returned. -/
inductive CallEnd where
  /-- The function returned a pointer: both states were committed. -/
  | returned (result : Result)
  /-- The function trapped: both states were rolled back. -/
  | trapped (kind : TrapKind)
  /-- Writing an argument trapped: the call returned at once. -/
  | argumentTrapped (kind : TrapKind)
  /-- Writing an argument gave no pointer: the call returned at once. -/
  | argumentPanic

/-- The result `VM::call` makes of it. -/
def CallEnd.result : CallEnd → Result
  | .returned result => result
  | .trapped kind => wasmTrap kind
  | .argumentTrapped kind => wasmTrap kind
  | .argumentPanic => vmPanic

/-- The call ended in a WebAssembly trap. -/
def CallEnd.isTrap : CallEnd → Bool
  | .trapped _ => true
  | .argumentTrapped _ => true
  | _ => false

/-- One entry of a run's record. -/
inductive Event where
  /-- `invoke_index` was entered. -/
  | host (index : Nat)
  | setMemory (key value : Bytes)
  | setStorage (key value : Bytes)
  /-- An entry of the memory was read. -/
  | getMemory (key : Bytes)
  /-- An entry of the storage was read. -/
  | getStorage (key : Bytes)
  /-- Both states were committed. -/
  | commit
  /-- Both states were rolled back. -/
  | rollback
  /-- A nested frame was started for the contract at this address. -/
  | called (contractAddress : Bytes)
  /-- A nested frame ended. -/
  | frameEnd (callEnd : CallEnd)

/-- `VM`. -/
structure VM (P : Platform) where
  moduleInstance : Instance P.Globals
  memory : Memory
  storage : Storage
  transaction : Transaction
  gas : Option Nat
  env : Env
  /-- The record of the run so far. -/
  trace : List Event

/-- A computation of one frame. -/
abbrev Run (P : Platform) (α : Type) := StateT (VM P) (Except Stop) α

/-- The invocation of an export of the frame's own instance. -/
abbrev Invoke (P : Platform) :=
  String → List RuntimeValue → Run P (Except InvokeError (Option RuntimeValue))

variable {P : Platform}

namespace VM

def panic {α : Type} : Run P α := throw .panic

/-- A field of the frame, or what can be computed from its fields. -/
def read {α : Type} (field : VM P → α) : Run P α := do return field (← get)

def emit (event : Event) : Run P Unit :=
  modify fun vm => { vm with trace := vm.trace ++ [event] }

/-! ### `gas.rs` -/

def useGas (amount : Nat) : Run P (Except TrapKind Unit) := fun vm =>
  match vm.gas with
  | some gas =>
      if gas < amount then .ok (.error .outOfGas, vm)
      else .ok (.ok (), { vm with gas := some (gas - amount) })
  | none => .ok (.ok (), vm)

/-- A `u32` multiplication. -/
def mulU32 (a b : Nat) : Run P Nat :=
  if P.overflowChecks ∧ 2 ^ 32 ≤ a * b then panic else pure (a * b % 2 ^ 32)

/-- The price of `length` bytes: `length as u32 * cost`. -/
def bytesCost (length cost : Nat) : Run P Nat := mulU32 (length % 2 ^ 32) cost

/-! ### `memory.rs` of the VM -/

/-- An `i32` addition. -/
def addI32 (a b : I32) : Run P I32 :=
  if P.overflowChecks ∧ a.saddOverflow b then panic else pure (a + b)

/-- `length as usize` of an `i32`: a negative one is sign-extended to 64
bits. -/
def asUsize (length : I32) : Nat := (length.signExtend 64).toNat

def readMemory (pointer length : I32) : Run P Bytes := do
  match ← read fun vm => vm.moduleInstance.memory with
  | .absent => panic
  | .memory bytes =>
      if pointer.toNat + asUsize length ≤ bytes.length then
        pure ((bytes.drop pointer.toNat).take (asUsize length))
      else panic
  | .other => pure []

/-- `copy_from_slice` panics when the lengths differ. -/
def readI32 (ptr : I32) : Run P I32 := do
  let slice ← readMemory ptr 4
  if slice.length = 4 then pure (BitVec.ofNat 32 (leNat slice)) else panic

def readPointer (ptr : I32) : Run P Bytes := do
  let length ← readI32 ptr
  let offset ← addI32 ptr 4
  readMemory offset length

/-- A module whose `memory` export is no memory has the bytes written into a
fresh memory of 256 pages, which is dropped. -/
def writeMemory (pointer : I32) (value : Bytes) : Run P Unit := do
  match ← read fun vm => vm.moduleInstance.memory with
  | .absent => panic
  | .memory bytes =>
      if pointer.toNat + value.length ≤ bytes.length then
        modify fun vm => { vm with
          moduleInstance := { vm.moduleInstance with
            memory := .memory (bytes.take pointer.toNat ++ value ++
              bytes.drop (pointer.toNat + value.length)) } }
      else panic
  | .other =>
      if pointer.toNat + value.length ≤ 256 * 65536 then pure () else panic

/-- Every failure of the guest's allocator is reported as `OutOfGas`. -/
def malloc (invoke : Invoke P) (size : Nat) : Run P (Except TrapKind I32) := do
  match ← invoke "__malloc" [.i32 (BitVec.ofNat 32 size)] with
  | .ok (some (.i32 value)) => pure (.ok value)
  | .error _ => pure (.error .outOfGas)
  | .ok _ => panic

def writePointer (invoke : Invoke P) (vec : Bytes) :
    Run P (Except TrapKind (Option RuntimeValue)) := do
  let vecWithLength := leBytes 4 vec.length ++ vec
  match ← malloc invoke vecWithLength.length with
  | .ok vecPointer =>
      writeMemory vecPointer vecWithLength
      pure (.ok (some (.i32 vecPointer)))
  | .error error => pure (.error error)

/-! ### `externals.rs`: the environment -/

def blockNumber (vm : VM P) : Bytes :=
  P.toVec (.integer vm.env.blockNumber)

def caller (vm : VM P) : Bytes := vm.env.caller.getD []

def namespacedKey (vm : VM P) (key : Bytes) : Bytes :=
  rightPadVec vm.transaction.contractAddress 64 0 ++ key

/-! ### `externals.rs`: the two states

`Memory::get` and its like at the frame's own states, with the entries of the
record that they leave. -/

def memoryGet (key : Bytes) : Run P Bytes := do
  emit (.getMemory key)
  unwrap (← read fun vm => vm.memory.get key)

def storageGet (key : Bytes) : Run P Bytes := do
  emit (.getStorage key)
  unwrap (← read fun vm => vm.storage.get key)

def memorySet (key value : Bytes) : Run P Unit :=
  modify fun vm => { vm with
    memory := vm.memory.set key value
    trace := vm.trace ++ [.setMemory key value] }

def storageSet (key value : Bytes) : Run P Unit :=
  modify fun vm => { vm with
    storage := vm.storage.set key value
    trace := vm.trace ++ [.setStorage key value] }

/-- `self.memory.commit()` and `self.storage.commit()`. -/
def commit : Run P Unit :=
  modify fun vm => { vm with
    memory := vm.memory.commit
    storage := vm.storage.commit
    trace := vm.trace ++ [.commit] }

/-- `self.memory.rollback()` and `self.storage.rollback()`. -/
def rollback : Run P Unit :=
  modify fun vm => { vm with
    memory := vm.memory.rollback
    storage := vm.storage.rollback
    trace := vm.trace ++ [.rollback] }

/-- `get_memory` and `get_storage`: read the key, look it up, pay by the
byte. -/
def getState (lookup : Bytes → Run P Bytes) (cost : Nat) (keyPointer : I32) :
    Run P (Except TrapKind Bytes) := do
  let key ← readPointer keyPointer
  let value ← lookup (← read fun vm => vm.namespacedKey key)
  let amount ← bytesCost value.length cost
  match ← useGas amount with
  | .error trap => pure (.error trap)
  | .ok () => pure (.ok value)

/-- `set_memory` and `set_storage`: read key and value, pay by the byte,
write. -/
def setState (write : Bytes → Bytes → Run P Unit) (cost : Nat)
    (keyPointer valuePointer : I32) :
    Run P (Except TrapKind (Option RuntimeValue)) := do
  let key ← readPointer keyPointer
  let value ← readPointer valuePointer
  let amount ← bytesCost value.length cost
  match ← useGas amount with
  | .error trap => pure (.error trap)
  | .ok () =>
      write (← read fun vm => vm.namespacedKey key) value
      pure (.ok none)

def getMemory (keyPointer : I32) : Run P (Except TrapKind Bytes) :=
  getState memoryGet GET_BYTE_MEMORY keyPointer

def setMemory (keyPointer valuePointer : I32) :
    Run P (Except TrapKind (Option RuntimeValue)) :=
  setState memorySet SET_BYTE_MEMORY keyPointer valuePointer

def getStorage (keyPointer : I32) : Run P (Except TrapKind Bytes) :=
  getState storageGet GET_BYTE_STORAGE keyPointer

def setStorage (keyPointer valuePointer : I32) :
    Run P (Except TrapKind (Option RuntimeValue)) :=
  setState storageSet SET_BYTE_STORAGE keyPointer valuePointer

/-- `log`.  The line goes to the standard output. -/
def log (logLevelPointer logMessagePointer : I32) :
    Run P (Except TrapKind (Option RuntimeValue)) := do
  let _ ← readPointer logLevelPointer
  let message ← readPointer logMessagePointer
  let _ ← unwrap (strFromUtf8 message)
  pure (.ok none)

/-! ### `call.rs` -/

/-- The loop over the arguments: each one is written into the guest's memory,
and the first failure ends the call. -/
def writeArguments (invoke : Invoke P) :
    List Value → Run P (Except CallEnd (List RuntimeValue))
  | [] => pure (.ok [])
  | arg :: rest => do
      match ← writePointer invoke (P.toVec arg) with
      | .ok (some argPointer) =>
          match ← writeArguments invoke rest with
          | .ok runtimeValues => pure (.ok (argPointer :: runtimeValues))
          | .error callEnd => pure (.error callEnd)
      | .ok none => pure (.error .argumentPanic)
      | .error trap => pure (.error (.argumentTrapped trap))

/-- `VM::call`, as the arm in which it returns; the gas returned beside the
result is the frame's own at that time. -/
def call (invoke : Invoke P) (func : String) (arguments : List Value) :
    Run P CallEnd := do
  match ← writeArguments invoke arguments with
  | .error callEnd => pure callEnd
  | .ok runtimeValues =>
      match ← invoke func runtimeValues with
      | .ok (some (.i32 value)) =>
          commit
          let bytes ← readPointer value
          let result ← fromBytes P bytes
          pure (.returned result)
      | .error (.trap trap) =>
          rollback
          pure (.trapped trap)
      | .error .error => panic
      | .ok _ => panic

/-! ### `externals.rs`: nested calls -/

/-- The frame `external_call` builds for the callee, at the caller `vm`. -/
def calleeFrame (vm : VM P) (moduleInstance : Instance P.Globals)
    (contractAddress : Bytes) (functionName : String) : VM P where
  moduleInstance := moduleInstance
  memory := vm.memory
  storage := vm.storage
  transaction := { vm.transaction with
    contractAddress := contractAddress
    function := functionName }
  gas := vm.gas
  env := { vm.env with caller := some vm.transaction.contractAddress }
  trace := vm.trace ++ [.called contractAddress]

/-- The callee's `VM::call` in its own frame.  The states are the caller's
own, lent to the callee; the gas left is returned. -/
def nestedCall (invoke : Invoke P) (moduleInstance : Instance P.Globals)
    (contractAddress : Bytes) (functionName : String) (arguments : List Value) :
    Run P (CallEnd × Option Nat) := fun vm => do
  let (callEnd, callee) ← call invoke functionName arguments
    (vm.calleeFrame moduleInstance contractAddress functionName)
  pure ((callEnd, callee.gas), { vm with
    memory := callee.memory
    storage := callee.storage
    trace := callee.trace ++ [.frameEnd callEnd] })

/-- `self.gas.unwrap() - gas_left.expect("no gas left")`, in `u32`. -/
def gasUsed (gasLeft : Option Nat) : Run P Nat := do
  let gas ← unwrap (← read VM.gas)
  let left ← unwrap gasLeft
  if left ≤ gas then pure (gas - left)
  else if P.overflowChecks then panic
  else pure (gas + 2 ^ 32 - left)

/-- `external_call`.  `newModuleInstance` is the function of that name. -/
def externalCall (newModuleInstance : Bytes → Except Stop (Instance P.Globals))
    (invoke : Invoke P)
    (contractAddressPointer functionNamePointer argumentsPointer : I32) :
    Run P (Except TrapKind Bytes) := do
  let contractAddress ← readPointer contractAddressPointer
  let functionNameBytes ← readPointer functionNamePointer
  let functionName ← unwrap (strFromUtf8 functionNameBytes)
  let argumentsBytes ← readPointer argumentsPointer
  let arguments ← unwrap (P.fromSliceVec argumentsBytes)
  let code ← storageGet (rightPadVec contractAddress 64 0)
  if code.length = 0 then
    let gasLimit ← read fun vm => vm.transaction.gasLimit
    pure (.ok (P.toVec (.array
      [ .array [.integer contractNotFound.1, contractNotFound.2]
      , .integer (gasLimit % 2 ^ 32 : Nat) ])))
  else
    let moduleInstance ← newModuleInstance code
    let (callEnd, gasLeft) ←
      nestedCall invoke moduleInstance contractAddress functionName arguments
    let used ← gasUsed gasLeft
    match ← useGas used with
    | .error trap => pure (.error trap)
    | .ok () => pure (.ok (toBytes P callEnd.result))

/-- `RuntimeArgs::nth`. -/
def nth (args : List I32) (index : Nat) : Run P I32 := unwrap args[index]?

/-- The bytes a host function answers, as a pointer; its trap is the guest's. -/
def answer (invoke : Invoke P) :
    Except TrapKind Bytes → Run P (Except TrapKind (Option RuntimeValue))
  | .error trap => pure (.error trap)
  | .ok bytes => writePointer invoke bytes

/-- `invoke_index`, with what `args.nth` does. -/
def invokeIndexWith (newModuleInstance : Bytes → Except Stop (Instance P.Globals))
    (invoke : Invoke P) (index : Nat) (arg : Nat → Run P I32) :
    Run P (Except TrapKind (Option RuntimeValue)) := do
  emit (.host index)
  match index with
  | CONTRACT_ADDRESS_FUNC_INDEX => do
      writePointer invoke (← read fun vm => vm.transaction.contractAddress)
  | SENDER_FUNC_INDEX => do
      writePointer invoke (← read fun vm => vm.transaction.sender)
  | BLOCK_HASH_FUNC_INDEX => do
      writePointer invoke (← read fun vm => vm.env.blockHash)
  | BLOCK_NUMBER_FUNC_INDEX => do writePointer invoke (← read blockNumber)
  | BLOCK_WINNER_FUNC_INDEX => do
      writePointer invoke (← read fun vm => vm.env.blockWinner)
  | CALLER_FUNC_INDEX => do writePointer invoke (← read caller)
  | GET_MEMORY_FUNC_INDEX => do answer invoke (← getMemory (← arg 0))
  | SET_MEMORY_FUNC_INDEX => do setMemory (← arg 0) (← arg 1)
  | GET_STORAGE_FUNC_INDEX => do answer invoke (← getStorage (← arg 0))
  | SET_STORAGE_FUNC_INDEX => do setStorage (← arg 0) (← arg 1)
  | THROW_FUNC_INDEX => pure (.ok none)
  | CALL_FUNC_INDEX => do
      answer invoke (← externalCall newModuleInstance invoke
        (← arg 0) (← arg 1) (← arg 2))
  | LOG_WRITE => do log (← arg 0) (← arg 1)
  | _ => panic

/-- `invoke_index`. -/
def invokeIndex (newModuleInstance : Bytes → Except Stop (Instance P.Globals))
    (invoke : Invoke P) (index : Nat) (args : List I32) :
    Run P (Except TrapKind (Option RuntimeValue)) :=
  invokeIndexWith newModuleInstance invoke index (nth args)

end VM

/-! ## Running the guest -/

/-- `run_start(&mut NopExternals)`: the start function runs unmetered, and a
host call in it fails. -/
def runStart (P : Platform) : Nat → P.Act → Instance P.Globals →
    Except Stop (Instance P.Globals)
  | 0, _, _ => .error .outOfFuel
  | fuel + 1, act, inst =>
      match P.step act inst with
      | .instruction act' inst' => runStart P fuel act' inst'
      | .finished _ => .ok inst
      | .host _ _ _ => .error .panic
      | .trap _ => .error .panic

/-- `new_module_instance`. -/
def newModuleInstance (P : Platform) (fuel : Nat) (code : Bytes) :
    Except Stop (Instance P.Globals) :=
  match P.load code with
  | none => .error .panic
  | some (inst, none) => .ok inst
  | some (inst, some act) => runStart P fuel act inst

/-- `invoke_export` on the frame's instance, with `guest` to run what it
starts. -/
def invokeExport (guest : P.Act → Run P (Except TrapKind (Option RuntimeValue))) :
    Invoke P := fun name args => do
  match P.invokeExport (← VM.read VM.moduleInstance) name args with
  | .error failure => pure (.error failure)
  | .ok act =>
      match ← guest act with
      | .ok value => pure (.ok value)
      | .error trap => pure (.error (.trap trap))

/-- An export is entered, the first of these on the native stack.  An overflow of the
stack aborts the process, as a panic does. -/
def VM.enter (names : List String) : Run P Unit :=
  if P.stackFits names then pure () else VM.panic

/-- `invoke_export`, above what is on the native stack. -/
def invokeWithin (P : Platform)
    (guest : List String → P.Act → Run P (Except TrapKind (Option RuntimeValue)))
    (stack : List String) : Invoke P := fun name args => do
  VM.enter (name :: stack)
  invokeExport (guest (name :: stack)) name args

/-- The interpreter loop: each instruction is paid for before it takes effect,
and a host function's trap is the guest's.  What the host calls back runs on the same
native stack. -/
def runGuest (P : Platform) :
    Nat → List String → P.Act → Run P (Except TrapKind (Option RuntimeValue))
  | 0, _, _ => throw .outOfFuel
  | fuel + 1, stack, act => do
      match P.step act (← VM.read VM.moduleInstance) with
      | .instruction act' inst =>
          match ← VM.useGas INSTRUCTION with
          | .error trap => pure (.error trap)
          | .ok () =>
              modify fun vm => { vm with moduleInstance := inst }
              runGuest P fuel stack act'
      | .host index args resume =>
          match ← VM.invokeIndex (newModuleInstance P fuel)
              (invokeWithin P (runGuest P fuel) stack) index args with
          | .error trap => pure (.error trap)
          | .ok value => runGuest P fuel stack (resume value)
      | .finished value => pure (.ok value)
      | .trap kind => pure (.error kind)

/-- `invoke_export` with the interpreter at the given budget, above what is on the native
stack. -/
def invoke (P : Platform) (fuel : Nat) (stack : List String) : Invoke P :=
  invokeWithin P (runGuest P fuel) stack

end Ellipticoind.Ports
