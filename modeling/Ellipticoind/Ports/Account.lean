import Ellipticoind.Ports.Processor
import Ellipticoind.Verified.Account

/-!
# The virtual machine, with an account

The functions of the virtual machine and of the transaction processor once more, with an
account of what they execute and of what they rely on.  The account is there after a
panic, too, and after a run whose budget of steps is used up, so that what is said of it
holds of every run at every moment.  `outcome_runTransactions` says that the
functions are the same.

An entry is made for each instruction that is paid for, and for each value that the host
takes from somewhere else: a module, an exported function, a pointer, bytes to decode, an
entry of the state.

## Main results

* `run_runGuest` — the interpreter loop is the same.
* `outcome_runTransactions` — so is a block.
-/

namespace Ellipticoind.Ports

open Ellipticoind.Verified.Account
open Ellipticoind.Verified.LittleEndian

variable {P : Platform}

/-! ## Entries -/

/-- One entry of the account. -/
inductive Mark where
  /-- An instruction was paid for and executed. -/
  | metered
  /-- A module was instantiated; its start function ran unpaid, on that budget of
  steps. -/
  | start (code : Bytes) (fuel : Nat)
  /-- The bytes at a pointer were read. -/
  | pointer (memory : MemoryExport) (ptr : I32)
  /-- That many bytes were written at a pointer of the guest's allocator. -/
  | allocation (memory : MemoryExport) (ptr : I32) (length : Nat)
  /-- An exported function gave a value that is no pointer. -/
  | noPointer (value : Option RuntimeValue)
  /-- The called function could not be invoked. -/
  | noExport (func : String)
  /-- Bytes were decoded as a result. -/
  | result (bytes : Bytes)
  /-- Bytes were decoded as a text. -/
  | text (bytes : Bytes)
  /-- Bytes were decoded as a list of arguments. -/
  | arguments (bytes : Bytes)
  /-- An entry of the state was looked up. -/
  | entry (value : Option Bytes)
  /-- The price of some bytes was computed. -/
  | price (length cost : Nat)
  /-- The gas a callee has used was computed. -/
  | gasUsed (gas gasLeft : Option Nat)
  /-- An argument of a host function was taken. -/
  | argument (args : List I32) (index : Nat)
  /-- The imported function is none of the host's. -/
  | noHost (index : Nat)
  /-- An exported function was invoked, the native stack holding these. -/
  | stack (names : List String)
  /-- The budget of steps was used up. -/
  | outOfFuel

/-- A computation of one frame, with its account. -/
abbrev Metered (P : Platform) (α : Type) := Logged (VM P) Stop Mark α

/-- The invocation of an export, with its account. -/
abbrev MeteredInvoke (P : Platform) :=
  String → List RuntimeValue → Metered P (Except InvokeError (Option RuntimeValue))

/-- The invocation without the account. -/
def MeteredInvoke.forget (invoke : MeteredInvoke P) : Invoke P := fun name args =>
  (invoke name args).run

namespace Metered

open Logged (quiet asked note)

/-! ### `memory.rs` and `gas.rs` of the VM -/

def readPointer (ptr : I32) : Metered P Bytes :=
  asked (fun vm => .pointer vm.moduleInstance.memory ptr) (VM.readPointer ptr)

def writeMemory (pointer : I32) (value : Bytes) : Metered P Unit :=
  asked (fun vm => .allocation vm.moduleInstance.memory pointer value.length)
    (VM.writeMemory pointer value)

def bytesCost (length cost : Nat) : Metered P Nat :=
  asked (fun _ => .price length cost) (VM.bytesCost length cost)

def malloc (invoke : MeteredInvoke P) (size : Nat) : Metered P (Except TrapKind I32) := do
  match ← invoke "__malloc" [.i32 (BitVec.ofNat 32 size)] with
  | .ok (some (.i32 value)) => pure (.ok value)
  | .error _ => pure (.error .outOfGas)
  | .ok value => asked (fun _ => .noPointer value) VM.panic

def writePointer (invoke : MeteredInvoke P) (vec : Bytes) :
    Metered P (Except TrapKind (Option RuntimeValue)) := do
  let vecWithLength := leBytes 4 vec.length ++ vec
  match ← malloc invoke vecWithLength.length with
  | .ok vecPointer =>
      writeMemory vecPointer vecWithLength
      pure (.ok (some (.i32 vecPointer)))
  | .error error => pure (.error error)

/-! ### `call.rs` -/

def writeArguments (invoke : MeteredInvoke P) :
    List Value → Metered P (Except CallEnd (List RuntimeValue))
  | [] => pure (.ok [])
  | arg :: rest => do
      match ← writePointer invoke (P.toVec arg) with
      | .ok (some argPointer) =>
          match ← writeArguments invoke rest with
          | .ok runtimeValues => pure (.ok (argPointer :: runtimeValues))
          | .error callEnd => pure (.error callEnd)
      | .ok none => pure (.error .argumentPanic)
      | .error trap => pure (.error (.argumentTrapped trap))

/-- `VM::call`. -/
def call (invoke : MeteredInvoke P) (func : String) (arguments : List Value) :
    Metered P CallEnd := do
  match ← writeArguments invoke arguments with
  | .error callEnd => pure callEnd
  | .ok runtimeValues =>
      match ← invoke func runtimeValues with
      | .ok (some (.i32 value)) =>
          quiet VM.commit
          let bytes ← readPointer value
          let result ← asked (fun _ => .result bytes) (liftM (fromBytes P bytes))
          pure (.returned result)
      | .error (.trap trap) =>
          quiet VM.rollback
          pure (.trapped trap)
      | .error .error => asked (fun _ => .noExport func) VM.panic
      | .ok value => asked (fun _ => .noPointer value) VM.panic

/-! ### `externals.rs` -/

def memoryGet (key : Bytes) : Metered P Bytes :=
  asked (fun vm => .entry (vm.memory.get key)) (VM.memoryGet key)

def storageGet (key : Bytes) : Metered P Bytes :=
  asked (fun vm => .entry (vm.storage.get key)) (VM.storageGet key)

/-- `get_memory` and `get_storage`. -/
def getState (lookup : Bytes → Metered P Bytes) (cost : Nat) (keyPointer : I32) :
    Metered P (Except TrapKind Bytes) := do
  let key ← readPointer keyPointer
  let value ← lookup (← quiet (VM.read fun vm => vm.namespacedKey key))
  let amount ← bytesCost value.length cost
  match ← quiet (VM.useGas amount) with
  | .error trap => pure (.error trap)
  | .ok () => pure (.ok value)

/-- `set_memory` and `set_storage`. -/
def setState (write : Bytes → Bytes → Run P Unit) (cost : Nat)
    (keyPointer valuePointer : I32) :
    Metered P (Except TrapKind (Option RuntimeValue)) := do
  let key ← readPointer keyPointer
  let value ← readPointer valuePointer
  let amount ← bytesCost value.length cost
  match ← quiet (VM.useGas amount) with
  | .error trap => pure (.error trap)
  | .ok () =>
      quiet (do write (← VM.read fun vm => vm.namespacedKey key) value)
      pure (.ok none)

def strFromUtf8 (bytes : Bytes) : Metered P String :=
  asked (fun _ => .text bytes) (liftM (unwrap (Ports.strFromUtf8 bytes)))

def log (logLevelPointer logMessagePointer : I32) :
    Metered P (Except TrapKind (Option RuntimeValue)) := do
  let _ ← readPointer logLevelPointer
  let message ← readPointer logMessagePointer
  let _ ← strFromUtf8 message
  pure (.ok none)

/-- The callee's `VM::call` in its own frame: its account goes on in the caller's. -/
def nestedCall (invoke : MeteredInvoke P) (moduleInstance : Instance P.Globals)
    (contractAddress : Bytes) (functionName : String) (arguments : List Value) :
    Metered P (CallEnd × Option Nat) := fun vm =>
  let (result, entries) := call invoke functionName arguments
    (vm.calleeFrame moduleInstance contractAddress functionName)
  (result.map fun (callEnd, callee) => ((callEnd, callee.gas), { vm with
    memory := callee.memory
    storage := callee.storage
    trace := callee.trace ++ [.frameEnd callEnd] }), entries)

def gasUsed (gasLeft : Option Nat) : Metered P Nat :=
  asked (fun vm => .gasUsed vm.gas gasLeft) (VM.gasUsed gasLeft)

/-- `external_call`. -/
def externalCall (newModuleInstance : Bytes → Metered P (Instance P.Globals))
    (invoke : MeteredInvoke P)
    (contractAddressPointer functionNamePointer argumentsPointer : I32) :
    Metered P (Except TrapKind Bytes) := do
  let contractAddress ← readPointer contractAddressPointer
  let functionNameBytes ← readPointer functionNamePointer
  let functionName ← strFromUtf8 functionNameBytes
  let argumentsBytes ← readPointer argumentsPointer
  let arguments ← asked (fun _ => .arguments argumentsBytes)
    (liftM (unwrap (P.fromSliceVec argumentsBytes)))
  let code ← storageGet (rightPadVec contractAddress 64 0)
  if code.length = 0 then
    let gasLimit ← quiet (VM.read fun vm => vm.transaction.gasLimit)
    pure (.ok (P.toVec (.array
      [ .array [.integer contractNotFound.1, contractNotFound.2]
      , .integer (gasLimit % 2 ^ 32 : Nat) ])))
  else
    let moduleInstance ← newModuleInstance code
    let (callEnd, gasLeft) ←
      nestedCall invoke moduleInstance contractAddress functionName arguments
    let used ← gasUsed gasLeft
    match ← quiet (VM.useGas used) with
    | .error trap => pure (.error trap)
    | .ok () => pure (.ok (toBytes P callEnd.result))

/-- `RuntimeArgs::nth`. -/
def nth (args : List I32) (index : Nat) : Metered P I32 :=
  asked (fun _ => .argument args index) (VM.nth args index)

def answer (invoke : MeteredInvoke P) :
    Except TrapKind Bytes → Metered P (Except TrapKind (Option RuntimeValue))
  | .error trap => pure (.error trap)
  | .ok bytes => writePointer invoke bytes

/-- `invoke_index`. -/
def invokeIndex (newModuleInstance : Bytes → Metered P (Instance P.Globals))
    (invoke : MeteredInvoke P) (index : Nat) (args : List I32) :
    Metered P (Except TrapKind (Option RuntimeValue)) := do
  quiet (VM.emit (.host index))
  match index with
  | CONTRACT_ADDRESS_FUNC_INDEX => do
      writePointer invoke (← quiet (VM.read fun vm => vm.transaction.contractAddress))
  | SENDER_FUNC_INDEX => do
      writePointer invoke (← quiet (VM.read fun vm => vm.transaction.sender))
  | BLOCK_HASH_FUNC_INDEX => do
      writePointer invoke (← quiet (VM.read fun vm => vm.env.blockHash))
  | BLOCK_NUMBER_FUNC_INDEX => do writePointer invoke (← quiet (VM.read VM.blockNumber))
  | BLOCK_WINNER_FUNC_INDEX => do
      writePointer invoke (← quiet (VM.read fun vm => vm.env.blockWinner))
  | CALLER_FUNC_INDEX => do writePointer invoke (← quiet (VM.read VM.caller))
  | GET_MEMORY_FUNC_INDEX => do
      answer invoke (← getState memoryGet GET_BYTE_MEMORY (← nth args 0))
  | SET_MEMORY_FUNC_INDEX => do
      setState VM.memorySet SET_BYTE_MEMORY (← nth args 0) (← nth args 1)
  | GET_STORAGE_FUNC_INDEX => do
      answer invoke (← getState storageGet GET_BYTE_STORAGE (← nth args 0))
  | SET_STORAGE_FUNC_INDEX => do
      setState VM.storageSet SET_BYTE_STORAGE (← nth args 0) (← nth args 1)
  | THROW_FUNC_INDEX => pure (.ok none)
  | CALL_FUNC_INDEX => do
      answer invoke (← externalCall newModuleInstance invoke
        (← nth args 0) (← nth args 1) (← nth args 2))
  | LOG_WRITE => do log (← nth args 0) (← nth args 1)
  | _ => asked (fun _ => .noHost index) VM.panic

/-! ### Running the guest -/

/-- `new_module_instance`. -/
def newModuleInstance (P : Platform) (fuel : Nat) (code : Bytes) :
    Metered P (Instance P.Globals) :=
  asked (fun _ => .start code fuel) (liftM (Ports.newModuleInstance P fuel code))

def invokeExport (guest : P.Act → Metered P (Except TrapKind (Option RuntimeValue))) :
    MeteredInvoke P := fun name args => do
  match P.invokeExport (← quiet (VM.read VM.moduleInstance)) name args with
  | .error failure => pure (.error failure)
  | .ok act =>
      match ← guest act with
      | .ok value => pure (.ok value)
      | .error trap => pure (.error (.trap trap))

def enter (names : List String) : Metered P Unit :=
  asked (fun _ => .stack names) (VM.enter names)

/-- `invoke_export`, above what is on the native stack. -/
def invokeWithin (P : Platform)
    (guest : List String → P.Act → Metered P (Except TrapKind (Option RuntimeValue)))
    (stack : List String) : MeteredInvoke P := fun name args => do
  enter (name :: stack)
  invokeExport (guest (name :: stack)) name args

/-- `use_gas` before an instruction: if it can be paid for, it is executed. -/
def payInstruction : Metered P (Except TrapKind Unit) := do
  match ← quiet (VM.useGas INSTRUCTION) with
  | .error trap => pure (.error trap)
  | .ok () =>
      note .metered
      pure (.ok ())

/-- The interpreter loop. -/
def runGuest (P : Platform) :
    Nat → List String → P.Act → Metered P (Except TrapKind (Option RuntimeValue))
  | 0, _, _ => asked (fun _ => .outOfFuel) (throw .outOfFuel)
  | fuel + 1, stack, act => do
      match P.step act (← quiet (VM.read VM.moduleInstance)) with
      | .instruction act' inst =>
          match ← payInstruction with
          | .error trap => pure (.error trap)
          | .ok () =>
              quiet (modify fun vm => { vm with moduleInstance := inst })
              runGuest P fuel stack act'
      | .host index args resume =>
          match ← invokeIndex (newModuleInstance P fuel)
              (invokeWithin P (runGuest P fuel) stack) index args with
          | .error trap => pure (.error trap)
          | .ok value => runGuest P fuel stack (resume value)
      | .finished value => pure (.ok value)
      | .trap kind => pure (.error kind)

def invoke (P : Platform) (fuel : Nat) (stack : List String) : MeteredInvoke P :=
  invokeWithin P (runGuest P fuel) stack

/-! ### `transaction.rs` -/

/-- A computation of the processor, with its account. -/
abbrev Accounted (α : Type) := Logged Unit Stop Mark α

/-- `Transaction::run`, with what the source forgets. -/
def execute (P : Platform) (fuel : Nat) (t : Transaction) (memory : Memory)
    (storage : Storage) (env : Env) : Accounted Executed := do
  let value := storage.get (rightPadVec t.contractAddress 64 0)
  let code ← asked (fun _ => .entry value) (liftM (unwrap value))
  if code.length = 0 then
    return {
      memoryChangeset := memory.changeset
      storageChangeset := storage.changeset
      ending := .contractNotFound
      gasLeft := some (t.gasLimit % 2 ^ 32)
      trace := [] }
  let inst ← asked (fun _ => .start code fuel) (liftM (Ports.newModuleInstance P fuel code))
  let (callEnd, vm) ← Logged.startedOn (t.frame inst memory storage env)
    (call (invoke P fuel []) t.function t.arguments)
  return {
    memoryChangeset := vm.memory.changeset
    storageChangeset := vm.storage.changeset
    ending := .called callEnd
    gasLeft := vm.gas
    trace := vm.trace }

/-! ### `system_contracts.rs` -/

/-- `run_constuctor`. -/
def runConstructor (P : Platform) (fuel : Nat) (t : Transaction) (memory : Memory)
    (storage : Storage) (env : Env) (contractName : String) (arguments : List Value) :
    Accounted Outcome := do
  let constructor : Transaction := {
    function := "constructor"
    arguments := arguments
    sender := t.sender
    nonce := t.nonce
    gasLimit := t.gasLimit
    contractAddress := t.sender ++ utf8 contractName }
  let e ← execute P fuel constructor memory storage env
  return {
    memoryChangeset := e.memoryChangeset
    storageChangeset := e.storageChangeset
    result := e.ending.result
    trace := e.trace }

/-- `create_contract`. -/
def createContract (P : Platform) (fuel : Nat) (t : Transaction) (memory : Memory)
    (storage : Storage) (env : Env) : Accounted Outcome :=
  match t.arguments with
  | [.text contractName, .bytes code, .array arguments] =>
      let address := rightPadVec (t.sender ++ utf8 contractName) 64 0
      runConstructor P fuel t memory (storage.set address code).commit env
        contractName arguments
  | _ => pure SystemContracts.ignored

/-- `system_contracts::run`. -/
def runSystemContract (P : Platform) (fuel : Nat) (t : Transaction) (memory : Memory)
    (storage : Storage) (env : Env) : Accounted Outcome :=
  if t.function = "create_contract" then createContract P fuel t memory storage env
  else pure SystemContracts.ignored

/-- `transfer`. -/
def transfer (P : Platform) (fuel : Nat) (t : Transaction) (redis : Redis)
    (rocksdb : RocksDB) (memoryChangeset storageChangeset : Changeset) (env : Env)
    (amount : Nat) (sender winner : Bytes) : Accounted Outcome := do
  let memory := Memory.new redis memoryChangeset
  let storage := Storage.new redis rocksdb storageChangeset
  let transaction := SystemContracts.transferTransaction t amount sender winner
  let value := storage.get (rightPadVec transaction.contractAddress 64 0)
  let code ← asked (fun _ => .entry value) (liftM (unwrap value))
  let inst ← asked (fun _ => .start code fuel) (liftM (Ports.newModuleInstance P fuel code))
  let (callEnd, vm) ← Logged.startedOn
    { transaction.frame inst memory storage env with gas := none }
    (call (invoke P fuel []) "transfer" transaction.arguments)
  return {
    memoryChangeset := vm.memory.changeset
    storageChangeset := vm.storage.changeset
    result := callEnd.result
    trace := vm.trace }

/-! ### `main.rs` -/

/-- The part of `run_transaction` before the block's changesets are extended. -/
def runOutcome (P : Platform) (fuel : Nat) (redis : Redis) (rocksdb : RocksDB)
    (t : Transaction) (env : Env) (memoryChangeset storageChangeset : Changeset) :
    Accounted Outcome := do
  let memory := Memory.new redis memoryChangeset
  let storage := Storage.new redis rocksdb storageChangeset
  if SystemContracts.isSystemContract t then
    runSystemContract P fuel t memory storage env
  else
    let e ← execute P fuel t memory storage env
    let gasLeft ← quiet (liftM (unwrap e.gasLeft))
    let gasUsed ← quiet (liftM (subU64 P t.gasLimit gasLeft))
    let gas ← transfer P fuel t redis rocksdb e.memoryChangeset ∅ env
      (gasUsed % 2 ^ 32) t.sender env.blockWinner
    return {
      memoryChangeset := gas.memoryChangeset
      storageChangeset := e.storageChangeset
      result := e.ending.result
      trace := e.trace ++ gas.trace }

/-- `run_transaction`, and the push that follows it. -/
def runTransaction (P : Platform) (fuel : Nat) (redis : Redis) (rocksdb : RocksDB)
    (env : Env) (b : Processed) (t : Transaction) : Accounted Processed := do
  let o ← runOutcome P fuel redis rocksdb t env b.memoryChangeset b.storageChangeset
  return {
    memoryChangeset := o.memoryChangeset ∪ b.memoryChangeset
    storageChangeset := o.storageChangeset ∪ b.storageChangeset
    transactions := b.transactions ++ [t.complete o.result]
    trace := b.trace ++ o.trace }

/-- The loop over a block's transactions. -/
def runTransactions (P : Platform) (fuel : Nat) (redis : Redis) (rocksdb : RocksDB)
    (env : Env) : Processed → List Transaction → Accounted Processed
  | b, [] => pure b
  | b, t :: rest => do
      let b' ← runTransaction P fuel redis rocksdb env b t
      runTransactions P fuel redis rocksdb env b' rest

/-! ## The account is of the same functions -/

@[simp] theorem run_readPointer (ptr : I32) :
    (readPointer ptr : Metered P Bytes).run = VM.readPointer ptr := rfl

@[simp] theorem run_nth (args : List I32) (index : Nat) :
    (nth args index : Metered P I32).run = VM.nth args index := rfl

theorem run_malloc (invoke : MeteredInvoke P) (size : Nat) :
    (malloc invoke size).run = VM.malloc invoke.forget size := by
  unfold malloc VM.malloc
  rw [Logged.run_bind]
  refine congrArg (Bind.bind _) (funext fun r => ?_)
  rcases r with failure | (_ | (value | value | value | value)) <;> rfl

theorem run_writePointer (invoke : MeteredInvoke P) (vec : Bytes) :
    (writePointer invoke vec).run = VM.writePointer invoke.forget vec := by
  unfold writePointer VM.writePointer
  dsimp only
  rw [Logged.run_bind, run_malloc]
  refine congrArg (Bind.bind _) (funext fun r => ?_)
  split
  · rw [Logged.run_bind]
    rfl
  · rfl

theorem run_writeArguments (invoke : MeteredInvoke P) (arguments : List Value) :
    (writeArguments invoke arguments).run = VM.writeArguments invoke.forget arguments := by
  induction arguments with
  | nil => rfl
  | cons arg rest ih =>
      unfold writeArguments VM.writeArguments
      rw [Logged.run_bind, run_writePointer]
      refine congrArg (Bind.bind _) (funext fun r => ?_)
      split
      · rw [Logged.run_bind, ih]
        refine congrArg (Bind.bind _) (funext fun r => ?_)
        split <;> rfl
      · rfl
      · rfl

theorem run_call (invoke : MeteredInvoke P) (func : String) (arguments : List Value) :
    (call invoke func arguments).run = VM.call invoke.forget func arguments := by
  unfold call VM.call
  rw [Logged.run_bind, run_writeArguments]
  refine congrArg (Bind.bind _) (funext fun r => ?_)
  split
  · rfl
  · rw [Logged.run_bind]
    refine congrArg (Bind.bind _) (funext fun r => ?_)
    rcases r with (trap | _) | (_ | (value | value | value | value)) <;>
      simp only [Logged.run_bind, Logged.run_quiet, Logged.run_asked, Logged.run_pure,
        run_readPointer]

theorem run_nestedCall (invoke : MeteredInvoke P) (inst : Instance P.Globals)
    (address : Bytes) (name : String) (arguments : List Value) :
    (nestedCall invoke inst address name arguments).run =
      VM.nestedCall invoke.forget inst address name arguments := by
  funext vm
  have hcall := congrFun (run_call invoke name arguments) (vm.calleeFrame inst address name)
  show (Metered.call invoke name arguments _).1.map _ = VM.nestedCall _ _ _ _ _ vm
  unfold VM.nestedCall
  rw [← hcall]
  show Except.map _ (Metered.call invoke name arguments _).1 =
    Except.bind (Metered.call invoke name arguments _).1 _
  cases (call invoke name arguments (vm.calleeFrame inst address name)).1 <;> rfl

theorem run_getState {lookup : Bytes → Metered P Bytes} {lookup' : Bytes → Run P Bytes}
    (hlookup : ∀ key, (lookup key).run = lookup' key) (cost : Nat) (keyPointer : I32) :
    (getState lookup cost keyPointer).run = VM.getState lookup' cost keyPointer := by
  unfold getState VM.getState
  simp only [Logged.run_bind, Logged.run_quiet, hlookup]
  refine congrArg (Bind.bind _) (funext fun key => congrArg (Bind.bind _)
    (funext fun key' => congrArg (Bind.bind _) (funext fun value =>
      congrArg (Bind.bind _) (funext fun amount => congrArg (Bind.bind _)
        (funext fun r => ?_)))))
  rcases r with trap | _ <;> rfl

theorem run_setState (write : Bytes → Bytes → Run P Unit) (cost : Nat)
    (keyPointer valuePointer : I32) :
    (setState write cost keyPointer valuePointer).run =
      VM.setState write cost keyPointer valuePointer := by
  unfold setState VM.setState
  simp only [Logged.run_bind, Logged.run_quiet]
  refine congrArg (Bind.bind _) (funext fun key => congrArg (Bind.bind _)
    (funext fun value => congrArg (Bind.bind _) (funext fun amount =>
      congrArg (Bind.bind _) (funext fun r => ?_))))
  rcases r with trap | _
  · rfl
  · simp only [Logged.run_bind, Logged.run_quiet, Logged.run_pure, bind_assoc]

theorem run_log (level message : I32) :
    (log level message : Metered P _).run = VM.log level message := by
  unfold log VM.log
  simp only [Logged.run_bind]
  rfl

theorem run_externalCall
    {newModuleInstance : Bytes → Metered P (Instance P.Globals)}
    {newModuleInstance' : Bytes → Except Stop (Instance P.Globals)}
    (hnew : ∀ code, (newModuleInstance code).run = liftM (newModuleInstance' code))
    (invoke : MeteredInvoke P) (a f g : I32) :
    (externalCall newModuleInstance invoke a f g).run =
      VM.externalCall newModuleInstance' invoke.forget a f g := by
  unfold externalCall VM.externalCall
  simp only [Logged.run_bind]
  refine congrArg (Bind.bind _) (funext fun address => congrArg (Bind.bind _)
    (funext fun nameBytes => congrArg (Bind.bind _) (funext fun name =>
      congrArg (Bind.bind _) (funext fun argumentsBytes => congrArg (Bind.bind _)
        (funext fun arguments => congrArg (Bind.bind _) (funext fun code => ?_))))))
  split
  · rw [Logged.run_bind]
    rfl
  · simp only [Logged.run_bind, Logged.run_quiet, hnew, run_nestedCall]
    refine congrArg (Bind.bind _) (funext fun inst => congrArg (Bind.bind _)
      (funext fun r => ?_))
    refine congrArg (Bind.bind _) (funext fun used => congrArg (Bind.bind _)
      (funext fun r => ?_))
    split <;> rfl

theorem run_answer (invoke : MeteredInvoke P) (r : Except TrapKind Bytes) :
    (answer invoke r).run = VM.answer invoke.forget r := by
  cases r with
  | error trap => rfl
  | ok bytes => exact run_writePointer invoke bytes

theorem run_invokeIndex
    {newModuleInstance : Bytes → Metered P (Instance P.Globals)}
    {newModuleInstance' : Bytes → Except Stop (Instance P.Globals)}
    (hnew : ∀ code, (newModuleInstance code).run = liftM (newModuleInstance' code))
    (invoke : MeteredInvoke P) (index : Nat) (args : List I32) :
    (invokeIndex newModuleInstance invoke index args).run =
      VM.invokeIndex newModuleInstance' invoke.forget index args := by
  have hmemory : ∀ cost keyPointer, (getState memoryGet cost keyPointer : Metered P _).run =
      VM.getState VM.memoryGet cost keyPointer := run_getState fun _ => rfl
  have hstorage : ∀ cost keyPointer, (getState storageGet cost keyPointer : Metered P _).run =
      VM.getState VM.storageGet cost keyPointer := run_getState fun _ => rfl
  unfold invokeIndex VM.invokeIndex VM.invokeIndexWith
  unfold VM.getMemory VM.getStorage VM.setMemory VM.setStorage
  rw [Logged.run_bind]
  refine congrArg (Bind.bind _) (funext fun _ => ?_)
  split <;>
    simp only [Logged.run_bind, Logged.run_quiet, Logged.run_asked, Logged.run_pure,
      run_writePointer, run_answer, run_externalCall hnew, run_nth, hmemory, hstorage,
      run_setState, run_log]

theorem run_newModuleInstance (fuel : Nat) (code : Bytes) :
    (newModuleInstance P fuel code).run = liftM (Ports.newModuleInstance P fuel code) := rfl

theorem forget_invokeExport
    (guest : P.Act → Metered P (Except TrapKind (Option RuntimeValue))) :
    (invokeExport guest).forget = Ports.invokeExport fun act => (guest act).run := by
  funext name args
  unfold MeteredInvoke.forget invokeExport Ports.invokeExport
  rw [Logged.run_bind]
  refine congrArg (Bind.bind _) (funext fun inst => ?_)
  cases P.invokeExport inst name args with
  | error failure => rfl
  | ok act =>
      dsimp only
      rw [Logged.run_bind]
      refine congrArg (Bind.bind _) (funext fun r => ?_)
      cases r <;> rfl

theorem forget_invokeWithin
    (guest : List String → P.Act → Metered P (Except TrapKind (Option RuntimeValue)))
    (stack : List String) :
    (invokeWithin P guest stack).forget =
      Ports.invokeWithin P (fun stack act => (guest stack act).run) stack := by
  funext name args
  show (invokeWithin P guest stack name args).run = _
  unfold invokeWithin Ports.invokeWithin
  rw [Logged.run_bind, ← forget_invokeExport]
  rfl

theorem run_payInstruction :
    (payInstruction : Metered P (Except TrapKind Unit)).run = VM.useGas INSTRUCTION := by
  unfold payInstruction
  rw [Logged.run_bind]
  refine (congrArg (Bind.bind _) (funext fun r => ?_)).trans (bind_pure _)
  rcases r with trap | _ <;> rfl

/-- The interpreter loop is the same.  The induction is on the budget, as every other
one about it. -/
theorem run_runGuest (fuel : Nat) (stack : List String) (act : P.Act) :
    (runGuest P fuel stack act).run = Ports.runGuest P fuel stack act := by
  induction fuel generalizing stack act with
  | zero => rfl
  | succ fuel ih =>
      have hinvoke : (invokeWithin P (runGuest P fuel) stack).forget =
          Ports.invokeWithin P (Ports.runGuest P fuel) stack := by
        rw [forget_invokeWithin, funext fun stack => funext (ih stack)]
      unfold runGuest Ports.runGuest
      rw [Logged.run_bind]
      refine congrArg (Bind.bind _) (funext fun inst => ?_)
      cases P.step act inst with
      | instruction act' inst' =>
          dsimp only
          rw [Logged.run_bind, run_payInstruction]
          refine congrArg (Bind.bind _) (funext fun r => ?_)
          rcases r with trap | _
          · rfl
          · dsimp only
            rw [Logged.run_bind, Logged.run_quiet, ih]
      | host index args resume =>
          dsimp only
          rw [Logged.run_bind, run_invokeIndex (run_newModuleInstance fuel), hinvoke]
          refine congrArg (Bind.bind _) (funext fun r => ?_)
          rcases r with trap | value
          · rfl
          · exact ih _ _
      | finished value => rfl
      | trap kind => rfl

theorem forget_invoke (fuel : Nat) (stack : List String) :
    (invoke P fuel stack).forget = Ports.invoke P fuel stack := by
  unfold invoke
  rw [forget_invokeWithin, funext fun stack => funext (run_runGuest fuel stack)]
  rfl

theorem outcome_execute (fuel : Nat) (t : Transaction) (memory : Memory) (storage : Storage)
    (env : Env) :
    (execute P fuel t memory storage env).outcome = t.execute P fuel memory storage env := by
  unfold execute Transaction.execute
  dsimp only
  rw [Logged.outcome_bind, Logged.outcome_asked]
  refine congrArg (Bind.bind _) (funext fun code => ?_)
  split
  · rfl
  · simp only [Logged.outcome_bind, Logged.outcome_asked, Logged.outcome_startedOn, run_call,
      forget_invoke]
    rfl

theorem outcome_createContract (fuel : Nat) (t : Transaction) (memory : Memory)
    (storage : Storage) (env : Env) :
    (createContract P fuel t memory storage env).outcome =
      SystemContracts.createContract P fuel t memory storage env := by
  by_cases hargs : ∃ name code arguments,
      t.arguments = [.text name, .bytes code, .array arguments]
  · obtain ⟨name, code, arguments, hargs⟩ := hargs
    unfold createContract SystemContracts.createContract
    unfold runConstructor SystemContracts.runConstructor
    simp only [hargs, Logged.outcome_bind, outcome_execute]
    rfl
  · have haccount : createContract P fuel t memory storage env =
        pure SystemContracts.ignored := by
      unfold createContract
      split
      · exact absurd ⟨_, _, _, ‹_›⟩ hargs
      · rfl
    have hsource : SystemContracts.createContract P fuel t memory storage env =
        .ok SystemContracts.ignored := by
      unfold SystemContracts.createContract
      split
      · exact absurd ⟨_, _, _, ‹_›⟩ hargs
      · rfl
    rw [haccount, hsource]
    rfl

theorem outcome_runSystemContract (fuel : Nat) (t : Transaction) (memory : Memory)
    (storage : Storage) (env : Env) :
    (runSystemContract P fuel t memory storage env).outcome =
      SystemContracts.run P fuel t memory storage env := by
  unfold runSystemContract SystemContracts.run
  split
  · exact outcome_createContract fuel t memory storage env
  · rfl

theorem outcome_transfer (fuel : Nat) (t : Transaction) (redis : Redis) (rocksdb : RocksDB)
    (memoryChangeset storageChangeset : Changeset) (env : Env) (amount : Nat)
    (sender winner : Bytes) :
    (transfer P fuel t redis rocksdb memoryChangeset storageChangeset env amount sender
        winner).outcome =
      SystemContracts.transfer P fuel t redis rocksdb memoryChangeset storageChangeset env
        amount sender winner := by
  unfold transfer SystemContracts.transfer
  simp only [Logged.outcome_bind, Logged.outcome_asked, Logged.outcome_startedOn, run_call,
    forget_invoke]
  rfl

theorem outcome_runOutcome (fuel : Nat) (redis : Redis) (rocksdb : RocksDB) (t : Transaction)
    (env : Env) (memoryChangeset storageChangeset : Changeset) :
    (runOutcome P fuel redis rocksdb t env memoryChangeset storageChangeset).outcome =
      Ports.runOutcome P fuel redis rocksdb t env memoryChangeset storageChangeset := by
  unfold runOutcome Ports.runOutcome
  dsimp only
  split
  · exact outcome_runSystemContract fuel t _ _ env
  · simp only [Logged.outcome_bind, Logged.outcome_quiet, outcome_execute, outcome_transfer]
    rfl

/-- The account of a block is of its processing. -/
theorem outcome_runTransactions (fuel : Nat) (redis : Redis) (rocksdb : RocksDB) (env : Env)
    (ts : List Transaction) (b : Processed) :
    (runTransactions P fuel redis rocksdb env b ts).outcome =
      ts.foldlM (Ports.runTransaction P fuel redis rocksdb env) b := by
  induction ts generalizing b with
  | nil => rfl
  | cons t rest ih =>
      rw [List.foldlM_cons]
      unfold runTransactions runTransaction Ports.runTransaction
      simp only [Logged.outcome_bind, outcome_runOutcome, ih]
      rfl

end Metered

end Ellipticoind.Ports
