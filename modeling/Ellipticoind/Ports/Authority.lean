import Ellipticoind.Ports.NestedCall
import Ellipticoind.Ports.Processor
import Ellipticoind.Verified.Account

/-!
# The authority that a contract sees

`external_call` rewrites copies of the caller's transaction and environment for its
callee, and the host functions of a frame read what it was given.

`Watched` is the interpreter with a log of sightings: at every step of the guest, in every
frame, the frame as it stands, with the addresses under which its own code and that of the
frames waiting for it were loaded.  The log is of everything that a run comes to, the steps
before a panic included.

## Main results

* `run_runGuest`, `outcome_execute` — without its log, `Watched` is the interpreter.
* `authority_right` — whoever a frame is told that it is, called by and run for, is so.
-/

namespace Ellipticoind.Ports

open Ellipticoind.Verified.Account
open Ellipticoind.Verified.LittleEndian
open Ellipticoind.Verified.StateRun

variable {P : Platform}

/-- A frame at one step of its guest. -/
structure Sighting (P : Platform) where
  /-- The addresses under which the code of the frame and then of the frames that wait for
  it was loaded, the frame's own first. -/
  loaded : List Bytes
  frame : VM P

/-- A computation of one frame, with its sightings. -/
abbrev Watched (P : Platform) (α : Type) := Logged (VM P) Stop (Sighting P) α

/-- The invocation of an export, with its sightings. -/
abbrev WatchedInvoke (P : Platform) :=
  String → List RuntimeValue → Watched P (Except InvokeError (Option RuntimeValue))

/-- The invocation without the sightings. -/
def WatchedInvoke.forget (invoke : WatchedInvoke P) : Invoke P := fun name args =>
  (invoke name args).run

namespace Watched

open Logged (quiet asked)

/-! ## The interpreter, watched -/

def malloc (invoke : WatchedInvoke P) (size : Nat) : Watched P (Except TrapKind I32) := do
  match ← invoke "__malloc" [.i32 (BitVec.ofNat 32 size)] with
  | .ok (some (.i32 value)) => pure (.ok value)
  | .error _ => pure (.error .outOfGas)
  | .ok _ => quiet VM.panic

def writePointer (invoke : WatchedInvoke P) (vec : Bytes) :
    Watched P (Except TrapKind (Option RuntimeValue)) := do
  let vecWithLength := leBytes 4 vec.length ++ vec
  match ← malloc invoke vecWithLength.length with
  | .ok vecPointer =>
      quiet (VM.writeMemory vecPointer vecWithLength)
      pure (.ok (some (.i32 vecPointer)))
  | .error error => pure (.error error)

def writeArguments (invoke : WatchedInvoke P) :
    List Value → Watched P (Except CallEnd (List RuntimeValue))
  | [] => pure (.ok [])
  | arg :: rest => do
      match ← writePointer invoke (P.toVec arg) with
      | .ok (some argPointer) =>
          match ← writeArguments invoke rest with
          | .ok runtimeValues => pure (.ok (argPointer :: runtimeValues))
          | .error callEnd => pure (.error callEnd)
      | .ok none => pure (.error .argumentPanic)
      | .error trap => pure (.error (.argumentTrapped trap))

/-- `VM::call`. -/
def call (invoke : WatchedInvoke P) (func : String) (arguments : List Value) :
    Watched P CallEnd := do
  match ← writeArguments invoke arguments with
  | .error callEnd => pure callEnd
  | .ok runtimeValues =>
      match ← invoke func runtimeValues with
      | .ok (some (.i32 value)) =>
          quiet VM.commit
          let bytes ← quiet (VM.readPointer value)
          let result ← quiet (liftM (fromBytes P bytes))
          pure (.returned result)
      | .error (.trap trap) =>
          quiet VM.rollback
          pure (.trapped trap)
      | .error .error => quiet VM.panic
      | .ok _ => quiet VM.panic

/-- The callee's `VM::call` in its own frame. -/
def nestedCall (invoke : WatchedInvoke P) (moduleInstance : Instance P.Globals)
    (contractAddress : Bytes) (functionName : String) (arguments : List Value) :
    Watched P (CallEnd × Option Nat) := fun vm =>
  let (result, sightings) := call invoke functionName arguments
    (vm.calleeFrame moduleInstance contractAddress functionName)
  (result.map fun (callEnd, callee) => ((callEnd, callee.gas), { vm with
    memory := callee.memory
    storage := callee.storage
    trace := callee.trace ++ [.frameEnd callEnd] }), sightings)

/-- `external_call`.  `calleeInvoke` is the invocation in a frame whose code was loaded
under the given address. -/
def externalCall (newModuleInstance : Bytes → Except Stop (Instance P.Globals))
    (calleeInvoke : Bytes → WatchedInvoke P)
    (contractAddressPointer functionNamePointer argumentsPointer : I32) :
    Watched P (Except TrapKind Bytes) := do
  let contractAddress ← quiet (VM.readPointer contractAddressPointer)
  let functionNameBytes ← quiet (VM.readPointer functionNamePointer)
  let functionName ← quiet (liftM (unwrap (strFromUtf8 functionNameBytes)))
  let argumentsBytes ← quiet (VM.readPointer argumentsPointer)
  let arguments ← quiet (liftM (unwrap (P.fromSliceVec argumentsBytes)))
  let code ← quiet (VM.storageGet (rightPadVec contractAddress 64 0))
  if code.length = 0 then
    let gasLimit ← quiet (VM.read fun vm => vm.transaction.gasLimit)
    pure (.ok (P.toVec (.array
      [ .array [.integer contractNotFound.1, contractNotFound.2]
      , .integer (gasLimit % 2 ^ 32 : Nat) ])))
  else
    let moduleInstance ← quiet (liftM (newModuleInstance code))
    let (callEnd, gasLeft) ← nestedCall (calleeInvoke contractAddress) moduleInstance
      contractAddress functionName arguments
    let used ← quiet (VM.gasUsed gasLeft)
    match ← quiet (VM.useGas used) with
    | .error trap => pure (.error trap)
    | .ok () => pure (.ok (toBytes P callEnd.result))

def answer (invoke : WatchedInvoke P) :
    Except TrapKind Bytes → Watched P (Except TrapKind (Option RuntimeValue))
  | .error trap => pure (.error trap)
  | .ok bytes => writePointer invoke bytes

/-- `invoke_index`. -/
def invokeIndex (newModuleInstance : Bytes → Except Stop (Instance P.Globals))
    (invoke : WatchedInvoke P) (calleeInvoke : Bytes → WatchedInvoke P) (index : Nat)
    (args : List I32) : Watched P (Except TrapKind (Option RuntimeValue)) := do
  quiet (VM.emit (.host index))
  match index with
  | CONTRACT_ADDRESS_FUNC_INDEX => do
      writePointer invoke (← quiet (VM.read fun vm => vm.transaction.contractAddress))
  | SENDER_FUNC_INDEX => do
      writePointer invoke (← quiet (VM.read fun vm => vm.transaction.sender))
  | BLOCK_HASH_FUNC_INDEX => do
      writePointer invoke (← quiet (VM.read fun vm => vm.env.blockHash))
  | BLOCK_NUMBER_FUNC_INDEX => do writePointer invoke (← quiet (VM.read VM.blockNumber))
  | BLOCK_WINNER_FUNC_INDEX => do
      writePointer invoke (← quiet (VM.read fun vm => vm.env.blockWinner))
  | CALLER_FUNC_INDEX => do writePointer invoke (← quiet (VM.read VM.caller))
  | GET_MEMORY_FUNC_INDEX => do
      answer invoke (← quiet (do VM.getMemory (← VM.nth args 0)))
  | SET_MEMORY_FUNC_INDEX => quiet (do VM.setMemory (← VM.nth args 0) (← VM.nth args 1))
  | GET_STORAGE_FUNC_INDEX => do
      answer invoke (← quiet (do VM.getStorage (← VM.nth args 0)))
  | SET_STORAGE_FUNC_INDEX => quiet (do VM.setStorage (← VM.nth args 0) (← VM.nth args 1))
  | THROW_FUNC_INDEX => pure (.ok none)
  | CALL_FUNC_INDEX => do
      answer invoke (← externalCall newModuleInstance calleeInvoke
        (← quiet (VM.nth args 0)) (← quiet (VM.nth args 1)) (← quiet (VM.nth args 2)))
  | LOG_WRITE => quiet (do VM.log (← VM.nth args 0) (← VM.nth args 1))
  | _ => quiet VM.panic

def invokeExport (guest : P.Act → Watched P (Except TrapKind (Option RuntimeValue))) :
    WatchedInvoke P := fun name args => do
  match P.invokeExport (← quiet (VM.read VM.moduleInstance)) name args with
  | .error failure => pure (.error failure)
  | .ok act =>
      match ← guest act with
      | .ok value => pure (.ok value)
      | .error trap => pure (.error (.trap trap))

/-- `invoke_export`, above what is on the native stack. -/
def invokeWithin (P : Platform)
    (guest : List String → P.Act → Watched P (Except TrapKind (Option RuntimeValue)))
    (stack : List String) : WatchedInvoke P := fun name args => do
  quiet (VM.enter (name :: stack))
  invokeExport (guest (name :: stack)) name args

/-- The interpreter loop: the frame is seen at each of its steps. -/
def runGuest (P : Platform) : Nat → List Bytes → List String → P.Act →
    Watched P (Except TrapKind (Option RuntimeValue))
  | 0, _, _, _ => quiet (throw .outOfFuel)
  | fuel + 1, loaded, stack, act => do
      match P.step act (← asked (fun vm => ⟨loaded, vm⟩) (VM.read VM.moduleInstance)) with
      | .instruction act' inst =>
          match ← quiet (VM.useGas INSTRUCTION) with
          | .error trap => pure (.error trap)
          | .ok () =>
              quiet (modify fun vm => { vm with moduleInstance := inst })
              runGuest P fuel loaded stack act'
      | .host index args resume =>
          match ← invokeIndex (newModuleInstance P fuel)
              (invokeWithin P (runGuest P fuel loaded) stack)
              (fun address => invokeWithin P (runGuest P fuel (address :: loaded)) stack)
              index args with
          | .error trap => pure (.error trap)
          | .ok value => runGuest P fuel loaded stack (resume value)
      | .finished value => pure (.ok value)
      | .trap kind => pure (.error kind)

/-- `invoke_export`, in a frame whose code was loaded under the first of the addresses. -/
def invoke (P : Platform) (fuel : Nat) (loaded : List Bytes) (stack : List String) :
    WatchedInvoke P :=
  invokeWithin P (runGuest P fuel loaded) stack

/-- `Transaction::run`, with what the source forgets. -/
def execute (P : Platform) (fuel : Nat) (t : Transaction) (memory : Memory)
    (storage : Storage) (env : Env) : Logged Unit Stop (Sighting P) Executed := do
  let code ← quiet (liftM (unwrap (storage.get (rightPadVec t.contractAddress 64 0))))
  if code.length = 0 then
    return {
      memoryChangeset := memory.changeset
      storageChangeset := storage.changeset
      ending := .contractNotFound
      gasLeft := some (t.gasLimit % 2 ^ 32)
      trace := [] }
  let inst ← quiet (liftM (newModuleInstance P fuel code))
  let (callEnd, vm) ← Logged.startedOn (t.frame inst memory storage env)
    (call (invoke P fuel [t.contractAddress] []) t.function t.arguments)
  return {
    memoryChangeset := vm.memory.changeset
    storageChangeset := vm.storage.changeset
    ending := .called callEnd
    gasLeft := vm.gas
    trace := vm.trace }

/-- `transfer`. -/
def transfer (P : Platform) (fuel : Nat) (t : Transaction) (redis : Redis)
    (rocksdb : RocksDB) (memoryChangeset storageChangeset : Changeset) (env : Env)
    (amount : Nat) (sender winner : Bytes) : Logged Unit Stop (Sighting P) Outcome := do
  let memory := Memory.new redis memoryChangeset
  let storage := Storage.new redis rocksdb storageChangeset
  let transaction := SystemContracts.transferTransaction t amount sender winner
  let code ← quiet (liftM (unwrap (storage.get
    (rightPadVec transaction.contractAddress 64 0))))
  let inst ← quiet (liftM (newModuleInstance P fuel code))
  let (callEnd, vm) ← Logged.startedOn
    { transaction.frame inst memory storage env with gas := none }
    (call (invoke P fuel [transaction.contractAddress] []) "transfer" transaction.arguments)
  return {
    memoryChangeset := vm.memory.changeset
    storageChangeset := vm.storage.changeset
    result := callEnd.result
    trace := vm.trace }

/-! ## Without its log it is the interpreter -/

theorem run_malloc (invoke : WatchedInvoke P) (size : Nat) :
    (malloc invoke size).run = VM.malloc invoke.forget size := by
  unfold malloc VM.malloc
  rw [Logged.run_bind]
  refine congrArg (Bind.bind _) (funext fun r => ?_)
  rcases r with failure | (_ | (value | value | value | value)) <;> rfl

theorem run_writePointer (invoke : WatchedInvoke P) (vec : Bytes) :
    (writePointer invoke vec).run = VM.writePointer invoke.forget vec := by
  unfold writePointer VM.writePointer
  dsimp only
  rw [Logged.run_bind, run_malloc]
  refine congrArg (Bind.bind _) (funext fun r => ?_)
  cases r with
  | error trap => rfl
  | ok pointer => exact Logged.run_bind _ _

theorem run_writeArguments (invoke : WatchedInvoke P) (arguments : List Value) :
    (writeArguments invoke arguments).run = VM.writeArguments invoke.forget arguments := by
  induction arguments with
  | nil => rfl
  | cons arg rest ih =>
      unfold writeArguments VM.writeArguments
      rw [Logged.run_bind, run_writePointer]
      refine congrArg (Bind.bind _) (funext fun r => ?_)
      rcases r with trap | (_ | argPointer)
      · rfl
      · rfl
      · dsimp only
        rw [Logged.run_bind, ih]
        refine congrArg (Bind.bind _) (funext fun r => ?_)
        cases r <;> rfl

theorem run_call (invoke : WatchedInvoke P) (func : String) (arguments : List Value) :
    (call invoke func arguments).run = VM.call invoke.forget func arguments := by
  unfold call VM.call
  rw [Logged.run_bind, run_writeArguments]
  refine congrArg (Bind.bind _) (funext fun r => ?_)
  cases r with
  | error callEnd => rfl
  | ok runtimeValues =>
      dsimp only
      rw [Logged.run_bind]
      refine congrArg (Bind.bind _) (funext fun r => ?_)
      rcases r with (trap | _) | (_ | (value | value | value | value)) <;>
        simp only [Logged.run_bind, Logged.run_quiet, Logged.run_pure]

theorem run_nestedCall (invoke : WatchedInvoke P) (inst : Instance P.Globals)
    (address : Bytes) (name : String) (arguments : List Value) :
    (nestedCall invoke inst address name arguments).run =
      VM.nestedCall invoke.forget inst address name arguments := by
  funext vm
  have hcall := congrFun (run_call invoke name arguments) (vm.calleeFrame inst address name)
  show (Watched.call invoke name arguments _).1.map _ = VM.nestedCall _ _ _ _ _ vm
  unfold VM.nestedCall
  rw [← hcall]
  show Except.map _ (Watched.call invoke name arguments _).1 =
    Except.bind (Watched.call invoke name arguments _).1 _
  cases (call invoke name arguments (vm.calleeFrame inst address name)).1 <;> rfl

theorem run_externalCall (new : Bytes → Except Stop (Instance P.Globals))
    {calleeInvoke : Bytes → WatchedInvoke P} {invoke : Invoke P}
    (hinvoke : ∀ address, (calleeInvoke address).forget = invoke) (a f g : I32) :
    (externalCall new calleeInvoke a f g).run = VM.externalCall new invoke a f g := by
  unfold externalCall VM.externalCall
  simp only [Logged.run_bind]
  refine congrArg (Bind.bind _) (funext fun address => congrArg (Bind.bind _)
    (funext fun nameBytes => congrArg (Bind.bind _) (funext fun name =>
      congrArg (Bind.bind _) (funext fun argumentsBytes => congrArg (Bind.bind _)
        (funext fun arguments => congrArg (Bind.bind _) (funext fun code => ?_))))))
  split
  · exact Logged.run_bind _ _
  · simp only [Logged.run_bind, Logged.run_quiet, run_nestedCall, hinvoke]
    refine congrArg (Bind.bind _) (funext fun inst => congrArg (Bind.bind _)
      (funext fun r => congrArg (Bind.bind _) (funext fun used =>
        congrArg (Bind.bind _) (funext fun paid => ?_))))
    rcases paid with trap | _ <;> rfl

theorem run_answer (invoke : WatchedInvoke P) (r : Except TrapKind Bytes) :
    (answer invoke r).run = VM.answer invoke.forget r := by
  cases r with
  | error trap => rfl
  | ok bytes => exact run_writePointer invoke bytes

theorem run_invokeIndex (new : Bytes → Except Stop (Instance P.Globals))
    (invoke : WatchedInvoke P) {calleeInvoke : Bytes → WatchedInvoke P}
    (hinvoke : ∀ address, (calleeInvoke address).forget = invoke.forget) (index : Nat)
    (args : List I32) :
    (invokeIndex new invoke calleeInvoke index args).run =
      VM.invokeIndex new invoke.forget index args := by
  unfold invokeIndex VM.invokeIndex VM.invokeIndexWith
  rw [Logged.run_bind]
  refine congrArg (Bind.bind _) (funext fun _ => ?_)
  split <;>
    simp only [Logged.run_bind, Logged.run_quiet, Logged.run_pure, bind_assoc,
      run_writePointer, run_answer, run_externalCall new hinvoke]

theorem forget_invokeExport
    (guest : P.Act → Watched P (Except TrapKind (Option RuntimeValue))) :
    (invokeExport guest).forget = Ports.invokeExport fun act => (guest act).run := by
  funext name args
  unfold WatchedInvoke.forget invokeExport Ports.invokeExport
  rw [Logged.run_bind]
  refine congrArg (Bind.bind _) (funext fun inst => ?_)
  cases P.invokeExport inst name args with
  | error failure => rfl
  | ok act =>
      dsimp only
      rw [Logged.run_bind]
      refine congrArg (Bind.bind _) (funext fun r => ?_)
      cases r <;> rfl

theorem forget_invokeWithin
    (guest : List String → P.Act → Watched P (Except TrapKind (Option RuntimeValue)))
    (stack : List String) :
    (invokeWithin P guest stack).forget =
      Ports.invokeWithin P (fun stack act => (guest stack act).run) stack := by
  funext name args
  show (invokeWithin P guest stack name args).run = _
  unfold invokeWithin Ports.invokeWithin
  rw [Logged.run_bind, Logged.run_quiet, ← forget_invokeExport]
  rfl

/-- The interpreter loop is the same, whatever addresses are kept beside it. -/
theorem run_runGuest (fuel : Nat) (loaded : List Bytes) (stack : List String)
    (act : P.Act) :
    (runGuest P fuel loaded stack act).run = Ports.runGuest P fuel stack act := by
  induction fuel generalizing loaded stack act with
  | zero => rfl
  | succ fuel ih =>
      have hinvoke : ∀ loaded, (invokeWithin P (runGuest P fuel loaded) stack).forget =
          Ports.invokeWithin P (Ports.runGuest P fuel) stack := fun loaded => by
        rw [forget_invokeWithin, funext fun stack => funext (ih loaded stack)]
      unfold runGuest Ports.runGuest
      rw [Logged.run_bind]
      refine congrArg (Bind.bind _) (funext fun inst => ?_)
      cases P.step act inst with
      | instruction act' inst' =>
          dsimp only
          rw [Logged.run_bind]
          refine congrArg (Bind.bind _) (funext fun r => ?_)
          rcases r with trap | _
          · rfl
          · dsimp only
            rw [Logged.run_bind, Logged.run_quiet, ih]
      | host index args resume =>
          dsimp only
          rw [Logged.run_bind, run_invokeIndex _ _ fun address =>
            (hinvoke (address :: loaded)).trans (hinvoke loaded).symm, hinvoke]
          refine congrArg (Bind.bind _) (funext fun r => ?_)
          rcases r with trap | value
          · rfl
          · exact ih _ _ _
      | finished value => rfl
      | trap kind => rfl

theorem forget_invoke (fuel : Nat) (loaded : List Bytes) (stack : List String) :
    (invoke P fuel loaded stack).forget = Ports.invoke P fuel stack := by
  unfold invoke
  rw [forget_invokeWithin, funext fun stack => funext (run_runGuest fuel loaded stack)]
  rfl

theorem outcome_execute (fuel : Nat) (t : Transaction) (memory : Memory) (storage : Storage)
    (env : Env) :
    (execute P fuel t memory storage env).outcome = t.execute P fuel memory storage env := by
  unfold execute Transaction.execute
  rw [Logged.outcome_bind, Logged.outcome_quiet]
  refine congrArg (Bind.bind _) (funext fun code => ?_)
  split
  · rfl
  · simp only [Logged.outcome_bind, Logged.outcome_quiet, Logged.outcome_startedOn, run_call,
      forget_invoke]
    rfl

theorem outcome_transfer (fuel : Nat) (t : Transaction) (redis : Redis) (rocksdb : RocksDB)
    (memoryChangeset storageChangeset : Changeset) (env : Env) (amount : Nat)
    (sender winner : Bytes) :
    (transfer P fuel t redis rocksdb memoryChangeset storageChangeset env amount sender
        winner).outcome =
      SystemContracts.transfer P fuel t redis rocksdb memoryChangeset storageChangeset env
        amount sender winner := by
  unfold transfer SystemContracts.transfer
  simp only [Logged.outcome_bind, Logged.outcome_quiet, Logged.outcome_startedOn, run_call,
    forget_invoke]
  rfl

end Watched

/-! ## What a frame is told -/

/-- What the host functions tell the frame is right, for a run of the transaction `t` in
the block of `env`. -/
structure Sighting.Right (t : Transaction) (env : Env) (s : Sighting P) : Prop where
  /-- `__sender` is the sender of the transaction. -/
  sender : s.frame.transaction.sender = t.sender
  /-- `__contract_address` is where the frame's code was loaded. -/
  contractAddress : s.loaded.head? = some s.frame.transaction.contractAddress
  /-- `__caller` is where the code of the frame that called it was loaded; the outermost
  frame has none. -/
  caller : VM.caller s.frame = s.loaded.tail.head?.getD []
  /-- The outermost frame is of the transaction's contract. -/
  outermost : s.loaded.getLast? = some t.contractAddress
  blockNumber : VM.blockNumber s.frame = P.toVec (.integer env.blockNumber)
  blockWinner : s.frame.env.blockWinner = env.blockWinner
  blockHash : s.frame.env.blockHash = env.blockHash

/-- What the six host functions of the environment have to answer, in a frame of the
transaction `t` in the block of `env` with these addresses. -/
def authority (P : Platform) (t : Transaction) (env : Env) (loaded : List Bytes) :
    List (Nat × Bytes) :=
  [ (CONTRACT_ADDRESS_FUNC_INDEX, loaded.headD [])
  , (SENDER_FUNC_INDEX, t.sender)
  , (BLOCK_HASH_FUNC_INDEX, env.blockHash)
  , (BLOCK_NUMBER_FUNC_INDEX, P.toVec (.integer env.blockNumber))
  , (BLOCK_WINNER_FUNC_INDEX, env.blockWinner)
  , (CALLER_FUNC_INDEX, loaded.tail.headD []) ]

/-- `invoke_index` hands the guest a pointer to those answers. -/
def Sighting.Told (t : Transaction) (env : Env) (s : Sighting P) : Prop :=
  ∀ told ∈ authority P t env s.loaded, ∀ new invoke args,
    VM.invokeIndex new invoke told.1 args s.frame =
      (do VM.emit (.host told.1); VM.writePointer invoke told.2) s.frame

/-- The frame's transaction and environment are still its own. -/
def SameAuthority (vm vm' : VM P) : Prop :=
  vm'.transaction = vm.transaction ∧ vm'.env = vm.env

/-- Nothing that runs in a frame, or in the frames below it, rewrites the frame's own
transaction or environment. -/
theorem frameRelation_sameAuthority : FrameRelation (SameAuthority (P := P)) where
  refl _ := ⟨rfl, rfl⟩
  trans hab hbc := ⟨hbc.1.trans hab.1, hbc.2.trans hab.2⟩
  useGas _ _ _ _ _ := ⟨rfl, rfl⟩
  moduleInstance _ _ := ⟨rfl, rfl⟩
  host _ _ := ⟨rfl, rfl⟩
  memoryGet _ _ := ⟨rfl, rfl⟩
  storageGet _ _ := ⟨rfl, rfl⟩
  memorySet _ _ _ := ⟨rfl, rfl⟩
  storageSet _ _ _ := ⟨rfl, rfl⟩
  commit _ := ⟨rfl, rfl⟩
  rollback _ := ⟨rfl, rfl⟩
  nested _ _ _ _ _ _ _ := ⟨rfl, rfl⟩

namespace Sighting

variable {t : Transaction} {env : Env} {loaded : List Bytes}

theorem Right.of_same {vm vm' : VM P} (hsame : SameAuthority vm vm')
    (h : Right t env ⟨loaded, vm⟩) : Right t env ⟨loaded, vm'⟩ := by
  obtain ⟨htransaction, henv⟩ := hsame
  have hcaller : VM.caller vm' = VM.caller vm := by
    unfold VM.caller
    rw [henv]
  have hnumber : VM.blockNumber vm' = VM.blockNumber vm := by
    unfold VM.blockNumber
    rw [henv]
  exact
    { sender := (congrArg _ htransaction).trans h.sender
      contractAddress := h.contractAddress.trans (congrArg _ (congrArg _ htransaction.symm))
      caller := hcaller.trans h.caller
      outermost := h.outermost
      blockNumber := hnumber.trans h.blockNumber
      blockWinner := (congrArg _ henv).trans h.blockWinner
      blockHash := (congrArg _ henv).trans h.blockHash }

/-- A host function that hands the guest bytes of its frame. -/
theorem writePointer_read (invoke : Invoke P) (index : Nat) (field : VM P → Bytes) (vm : VM P)
    (hfield : ∀ trace, field { vm with trace := trace } = field vm) :
    (do VM.emit (.host index); VM.writePointer invoke (← VM.read field) :
        Run P (Except TrapKind (Option RuntimeValue))) vm =
      (do VM.emit (.host index); VM.writePointer invoke (field vm)) vm := by
  have hemit : VM.emit (.host index) vm =
      .ok ((), { vm with trace := vm.trace ++ [.host index] }) := rfl
  have hread : VM.read field { vm with trace := vm.trace ++ [.host index] } =
      .ok (field vm, { vm with trace := vm.trace ++ [.host index] }) := by
    rw [← hfield (vm.trace ++ [.host index])]
    rfl
  rw [bind_of_ok hemit, bind_of_ok hread, bind_of_ok hemit]

theorem Right.told {s : Sighting P} (h : s.Right t env) : s.Told t env := by
  obtain ⟨loaded, vm⟩ := s
  have hself : loaded.headD [] = vm.transaction.contractAddress := by
    rw [List.headD_eq_head?_getD, h.contractAddress]
    rfl
  have hcaller : loaded.tail.headD [] = VM.caller vm := by
    rw [List.headD_eq_head?_getD, h.caller]
  intro told htold new invoke args
  unfold authority at htold
  rw [hself, hcaller, ← h.sender, ← h.blockHash, ← h.blockNumber, ← h.blockWinner] at htold
  simp only [List.mem_cons, List.not_mem_nil, or_false] at htold
  rcases htold with rfl | rfl | rfl | rfl | rfl | rfl
  all_goals
    dsimp only
    unfold VM.invokeIndex VM.invokeIndexWith
    exact writePointer_read invoke _ _ vm fun _ => rfl

/-- The outermost frame. -/
theorem right_top {vm : VM P} (hcaller : vm.env.caller = none) :
    Right vm.transaction vm.env ⟨[vm.transaction.contractAddress], vm⟩ where
  sender := rfl
  contractAddress := rfl
  caller := by
    unfold VM.caller
    rw [hcaller]
    rfl
  outermost := rfl
  blockNumber := rfl
  blockWinner := rfl
  blockHash := rfl

/-- A callee's frame: it is called by the frame that is there. -/
theorem Right.calleeFrame {vm : VM P} (h : Right t env ⟨loaded, vm⟩)
    (inst : Instance P.Globals) (address : Bytes) (name : String) :
    Right t env ⟨address :: loaded, vm.calleeFrame inst address name⟩ where
  sender := h.sender
  contractAddress := rfl
  caller := by
    have hhead : loaded.head? = some vm.transaction.contractAddress := h.contractAddress
    rw [List.tail_cons, hhead]
    rfl
  outermost := by
    have hlast : loaded.getLast? = some t.contractAddress := h.outermost
    rw [List.getLast?_cons, hlast]
    rfl
  blockNumber := h.blockNumber
  blockWinner := h.blockWinner
  blockHash := h.blockHash

end Sighting

/-! ## At every moment -/

namespace Watched

open Logged (quiet asked)

variable {t : Transaction} {env : Env} {loaded : List Bytes}

/-- In a frame whose sightings are right, every sighting of the computation is right, and
so the frame is left. -/
abbrev Sees (t : Transaction) (env : Env) (loaded : List Bytes) {α : Type}
    (x : Watched P α) : Prop :=
  Observes (fun vm => Sighting.Right t env ⟨loaded, vm⟩) (Sighting.Right t env) x

theorem sees_quiet {α : Type} {x : Run P α} (h : Guarantee SameAuthority x) :
    Sees t env loaded (quiet x) :=
  Observes.quiet fun vm a vm' hrun hright => hright.of_same (h vm a vm' hrun)

theorem sees_lift {α : Type} (x : Except Stop α) :
    Sees t env loaded (quiet (liftM x) : Watched P α) :=
  sees_quiet (Guarantee.lift frameRelation_sameAuthority.refl x)

theorem sees_panic {α : Type} : Sees t env loaded (quiet VM.panic : Watched P α) :=
  sees_quiet (Guarantee.throw _)

/-- Every export of the frame's own instance is invoked with right sightings. -/
abbrev InvokeSees (t : Transaction) (env : Env) (loaded : List Bytes)
    (invoke : WatchedInvoke P) : Prop :=
  ∀ name args, Sees t env loaded (invoke name args)

variable {invoke : WatchedInvoke P}

theorem sees_writePointer (h : InvokeSees t env loaded invoke) (vec : Bytes) :
    Sees t env loaded (writePointer invoke vec) := by
  unfold writePointer malloc
  refine Observes.bind (Observes.bind (h _ _) fun r => ?_) fun r => ?_
  · rcases r with failure | (_ | (value | value | value | value))
    · exact Observes.pure _
    · exact sees_panic
    · exact Observes.pure _
    · exact sees_panic
    · exact sees_panic
    · exact sees_panic
  · cases r with
    | error trap => exact Observes.pure _
    | ok pointer =>
        exact Observes.bind
          (sees_quiet (frameRelation_sameAuthority.guarantee_writeMemory _ _))
          fun _ => Observes.pure _

theorem sees_writeArguments (h : InvokeSees t env loaded invoke) (arguments : List Value) :
    Sees t env loaded (writeArguments invoke arguments) := by
  induction arguments with
  | nil => exact Observes.pure _
  | cons arg rest ih =>
      unfold writeArguments
      refine Observes.bind (sees_writePointer h _) fun r => ?_
      rcases r with trap | (_ | argPointer)
      · exact Observes.pure _
      · exact Observes.pure _
      · refine Observes.bind ih fun r => ?_
        cases r <;> exact Observes.pure _

theorem sees_call (h : InvokeSees t env loaded invoke) (func : String)
    (arguments : List Value) : Sees t env loaded (call invoke func arguments) := by
  have hframe := frameRelation_sameAuthority (P := P)
  unfold call
  refine Observes.bind (sees_writeArguments h arguments) fun r => ?_
  cases r with
  | error callEnd => exact Observes.pure _
  | ok runtimeValues =>
      refine Observes.bind (h _ _) fun r => ?_
      rcases r with (trap | _) | (_ | (value | value | value | value))
      · exact Observes.bind (sees_quiet (Guarantee.modify hframe.rollback)) fun _ =>
          Observes.pure _
      · exact sees_panic
      · exact sees_panic
      · exact Observes.bind (sees_quiet (Guarantee.modify hframe.commit)) fun _ =>
          Observes.bind (sees_quiet (hframe.guarantee_readPointer _)) fun bytes =>
            Observes.bind (sees_lift _) fun result => Observes.pure _
      · exact sees_panic
      · exact sees_panic
      · exact sees_panic

/-- The callee's sightings are of its own frame; the caller goes on in its own. -/
theorem sees_nestedCall {address : Bytes} (h : InvokeSees t env (address :: loaded) invoke)
    (inst : Instance P.Globals) (name : String) (arguments : List Value) :
    Sees t env loaded (nestedCall invoke inst address name arguments) := by
  intro vm hright
  obtain ⟨hgood, _⟩ := sees_call h name arguments _ (hright.calleeFrame inst address name)
  refine ⟨hgood, fun r vm' hrun => hright.of_same ?_⟩
  rw [run_nestedCall] at hrun
  unfold VM.nestedCall at hrun
  obtain ⟨⟨callEnd, callee⟩, _, hrun⟩ := except_bind_eq_ok.mp hrun
  cases hrun
  exact ⟨rfl, rfl⟩

theorem sees_externalCall (new : Bytes → Except Stop (Instance P.Globals))
    {calleeInvoke : Bytes → WatchedInvoke P}
    (h : ∀ address, InvokeSees t env (address :: loaded) (calleeInvoke address))
    (a f g : I32) : Sees t env loaded (externalCall new calleeInvoke a f g) := by
  have hframe := frameRelation_sameAuthority (P := P)
  have hpointer : ∀ ptr, Sees t env loaded (quiet (VM.readPointer ptr) : Watched P Bytes) :=
    fun ptr => sees_quiet (hframe.guarantee_readPointer ptr)
  unfold externalCall
  refine Observes.bind (hpointer a) fun address => Observes.bind (hpointer f)
    fun nameBytes => Observes.bind (sees_lift _) fun name => Observes.bind (hpointer g)
      fun argumentsBytes => Observes.bind (sees_lift _) fun arguments =>
        Observes.bind (sees_quiet (hframe.guarantee_storageGet _)) fun code => ?_
  split
  · exact Observes.bind (sees_quiet (hframe.guarantee_read _)) fun _ => Observes.pure _
  · refine Observes.bind (sees_lift _) fun inst =>
      Observes.bind (sees_nestedCall (h address) inst name arguments) fun r =>
        Observes.bind (sees_quiet ?_) fun used =>
          Observes.bind (sees_quiet (hframe.guarantee_useGas _)) fun paid => ?_
    · intro vm used vm' hrun
      rw [gasUsed_state hrun]
      exact hframe.refl vm
    · cases paid <;> exact Observes.pure _

theorem sees_answer (h : InvokeSees t env loaded invoke) (r : Except TrapKind Bytes) :
    Sees t env loaded (answer invoke r) := by
  cases r with
  | error trap => exact Observes.pure _
  | ok bytes => exact sees_writePointer h bytes

theorem sees_invokeIndex (new : Bytes → Except Stop (Instance P.Globals))
    (h : InvokeSees t env loaded invoke) {calleeInvoke : Bytes → WatchedInvoke P}
    (hcallee : ∀ address, InvokeSees t env (address :: loaded) (calleeInvoke address))
    (index : Nat) (args : List I32) :
    Sees t env loaded (invokeIndex new invoke calleeInvoke index args) := by
  have hframe := frameRelation_sameAuthority (P := P)
  have hnth : ∀ index, Guarantee SameAuthority (VM.nth args index : Run P I32) :=
    hframe.guarantee_nth args
  have hfield : ∀ field : VM P → Bytes, Sees t env loaded (do
      writePointer invoke (← quiet (VM.read field))) := fun field =>
    Observes.bind (sees_quiet (hframe.guarantee_read field)) fun bytes =>
      sees_writePointer h bytes
  have hone : ∀ {α : Type} (f : I32 → Run P α), (∀ a, Guarantee SameAuthority (f a)) →
      Guarantee SameAuthority (VM.nth args 0 >>= f) := fun f hf =>
    Guarantee.bind hframe.trans (hnth 0) hf
  have htwo : ∀ {α : Type} (f : I32 → I32 → Run P α),
      (∀ a b, Guarantee SameAuthority (f a b)) →
      Guarantee SameAuthority (VM.nth args 0 >>= fun a => VM.nth args 1 >>= f a) :=
    fun f hf => hone _ fun a => Guarantee.bind hframe.trans (hnth 1) (hf a)
  unfold invokeIndex
  refine Observes.bind (sees_quiet (Guarantee.modify fun vm => hframe.host vm index))
    fun _ => ?_
  split
  · exact hfield _
  · exact hfield _
  · exact hfield _
  · exact hfield _
  · exact hfield _
  · exact hfield _
  · exact Observes.bind (sees_quiet (hone _ fun key =>
      hframe.guarantee_getState hframe.guarantee_memoryGet _ key)) fun r => sees_answer h r
  · exact sees_quiet (htwo _ fun key value =>
      hframe.guarantee_setState hframe.guarantee_memorySet _ key value)
  · exact Observes.bind (sees_quiet (hone _ fun key =>
      hframe.guarantee_getState hframe.guarantee_storageGet _ key)) fun r => sees_answer h r
  · exact sees_quiet (htwo _ fun key value =>
      hframe.guarantee_setState hframe.guarantee_storageSet _ key value)
  · exact Observes.pure _
  · exact Observes.bind (sees_quiet (hnth 0)) fun a => Observes.bind (sees_quiet (hnth 1))
      fun f => Observes.bind (sees_quiet (hnth 2)) fun g =>
        Observes.bind (sees_externalCall new hcallee a f g) fun r => sees_answer h r
  · refine sees_quiet (htwo _ fun level message => ?_)
    exact Guarantee.bind hframe.trans (hframe.guarantee_readPointer _) fun _ =>
      Guarantee.bind hframe.trans (hframe.guarantee_readPointer _) fun _ =>
        Guarantee.bind hframe.trans (Guarantee.lift hframe.refl _) fun _ =>
          Guarantee.pure hframe.refl _
  · exact sees_panic

theorem sees_invokeExport
    {guest : P.Act → Watched P (Except TrapKind (Option RuntimeValue))}
    (h : ∀ act, Sees t env loaded (guest act)) :
    InvokeSees t env loaded (invokeExport guest) := by
  intro name args
  unfold invokeExport
  refine Observes.bind (sees_quiet (frameRelation_sameAuthority.guarantee_read _))
    fun inst => ?_
  cases P.invokeExport inst name args with
  | error failure => exact Observes.pure _
  | ok act =>
      refine Observes.bind (h act) fun r => ?_
      cases r <;> exact Observes.pure _

theorem sees_invokeWithin
    {guest : List String → P.Act → Watched P (Except TrapKind (Option RuntimeValue))}
    (h : ∀ stack act, Sees t env loaded (guest stack act)) (stack : List String) :
    InvokeSees t env loaded (invokeWithin P guest stack) := by
  intro name args
  unfold invokeWithin
  exact Observes.bind (sees_quiet (frameRelation_sameAuthority.guarantee_enter _))
    fun _ => sees_invokeExport (h _) name args

/-- Every sighting of a guest that starts in a right frame is right.  The induction is on
the budget; a callee runs on what its caller has left of it, with its own address before
the others. -/
theorem sees_runGuest (fuel : Nat) (loaded : List Bytes) (stack : List String)
    (act : P.Act) : Sees t env loaded (runGuest P fuel loaded stack act) := by
  have hframe := frameRelation_sameAuthority (P := P)
  induction fuel generalizing loaded stack act with
  | zero => exact sees_quiet (Guarantee.throw _)
  | succ fuel ih =>
      unfold runGuest
      have hsighting : Sees t env loaded (asked (fun vm => ⟨loaded, vm⟩)
          (VM.read VM.moduleInstance) : Watched P (Instance P.Globals)) := by
        refine Observes.asked (fun vm hright => hright) fun vm a vm' hrun hright => ?_
        exact hright.of_same (hframe.guarantee_read VM.moduleInstance vm a vm' hrun)
      refine Observes.bind hsighting fun inst => ?_
      cases P.step act inst with
      | instruction act' inst' =>
          refine Observes.bind (sees_quiet (hframe.guarantee_useGas _)) fun r => ?_
          rcases r with trap | _
          · exact Observes.pure _
          · exact Observes.bind
              (sees_quiet (Guarantee.modify fun vm => hframe.moduleInstance vm inst'))
              fun _ => ih loaded stack act'
      | host index args resume =>
          refine Observes.bind (sees_invokeIndex _ (sees_invokeWithin (ih loaded) stack)
            (fun address => sees_invokeWithin (ih (address :: loaded)) stack) index args)
            fun r => ?_
          rcases r with trap | value
          · exact Observes.pure _
          · exact ih loaded stack _
      | finished value => exact Observes.pure _
      | trap kind => exact Observes.pure _

/-- Every sighting of a call in an outermost frame is right. -/
theorem right_of_call {fuel : Nat} (vm : VM P) (hcaller : vm.env.caller = none)
    {func : String} {arguments : List Value} {s : Sighting P}
    (hs : s ∈ (call (Watched.invoke P fuel [vm.transaction.contractAddress] []) func
      arguments vm).2) :
    s.Right vm.transaction vm.env :=
  (sees_call (sees_invokeWithin (sees_runGuest fuel _) []) func arguments vm
    (Sighting.right_top hcaller)).1 s hs

/-- What comes before the call sees nothing. -/
theorem observes_lift {good : Sighting P → Prop} {α : Type} (x : Except Stop α) :
    Observes (fun _ : Unit => True) good (quiet (liftM x) : Logged Unit Stop (Sighting P) α) :=
  Observes.quiet (Guarantee.lift (fun _ => id) x)

/-- So is every sighting of a transaction's run. -/
theorem right_of_execute {fuel : Nat} {memory : Memory} {storage : Storage}
    (hcaller : env.caller = none) :
    Observes (fun _ => True) (Sighting.Right t env) (execute P fuel t memory storage env) := by
  unfold execute
  refine Observes.bind (observes_lift _) fun code => ?_
  split
  · exact Observes.pure _
  · refine Observes.bind (observes_lift _) fun inst => Observes.bind ?_ fun r => Observes.pure _
    exact Observes.startedOn fun s hs =>
      right_of_call (t.frame inst memory storage env) hcaller hs

/-- And of a gas payment's, for the transaction that is made up for it. -/
theorem right_of_transfer {fuel : Nat} {redis : Redis} {rocksdb : RocksDB}
    {memoryChangeset storageChangeset : Changeset} {amount : Nat} {sender winner : Bytes}
    (hcaller : env.caller = none) :
    Observes (fun _ => True)
      (Sighting.Right (SystemContracts.transferTransaction t amount sender winner) env)
      (transfer P fuel t redis rocksdb memoryChangeset storageChangeset env amount sender
        winner) := by
  unfold transfer
  refine Observes.bind (observes_lift _) fun code => Observes.bind (observes_lift _) fun inst =>
    Observes.bind ?_ fun r => Observes.pure _
  exact Observes.startedOn fun s hs => right_of_call
    { (SystemContracts.transferTransaction t amount sender winner).frame inst
      (Memory.new redis memoryChangeset) (Storage.new redis rocksdb storageChangeset) env with
        gas := none } hcaller hs

end Watched

/-- **The authority that a contract sees is right.**  In every frame of a transaction's call
tree and at every step of its guest, however deep it is, whatever calls have returned or
trapped before it and whether or not the run ends, the sender is the transaction's, the
contract's address is the one under which the frame's code was loaded, the caller is the
contract of the frame below and the block is the one of the environment; and that is what
`invoke_index` answers there.  The same holds for the call of the base token that pays for
the gas. -/
theorem authority_right (P : Platform) (fuel : Nat) (t : Transaction) (env : Env)
    (hcaller : env.caller = none) :
    (∀ memory storage,
      (Watched.execute P fuel t memory storage env).outcome =
          t.execute P fuel memory storage env ∧
        ∀ s ∈ (Watched.execute P fuel t memory storage env ()).2,
          s.Right t env ∧ s.Told t env) ∧
    ∀ redis rocksdb memoryChangeset storageChangeset amount sender winner,
      (Watched.transfer P fuel t redis rocksdb memoryChangeset storageChangeset env amount
            sender winner).outcome =
          SystemContracts.transfer P fuel t redis rocksdb memoryChangeset storageChangeset env
            amount sender winner ∧
        ∀ s ∈ (Watched.transfer P fuel t redis rocksdb memoryChangeset storageChangeset env
            amount sender winner ()).2,
          s.Right (SystemContracts.transferTransaction t amount sender winner) env ∧
            s.Told (SystemContracts.transferTransaction t amount sender winner) env := by
  constructor
  · intro memory storage
    exact ⟨Watched.outcome_execute fuel t memory storage env,
      fun s hs => have hright := (Watched.right_of_execute hcaller () trivial).1 s hs
        ⟨hright, hright.told⟩⟩
  · intro redis rocksdb memoryChangeset storageChangeset amount sender winner
    exact ⟨Watched.outcome_transfer fuel t redis rocksdb _ _ env amount sender winner,
      fun s hs => have hright := (Watched.right_of_transfer hcaller () trivial).1 s hs
        ⟨hright, hright.told⟩⟩

open Script in
/-- `A` calls `B`, which takes two steps; `A` then allocates room for the answer, and traps. -/
theorem authority_right_at_nested_call :
    (Watched.execute callThenTrapPlatform 10 (callA "f") (Memory.new ∅ ∅)
        (Storage.new ∅ ∅ (deployed [([65], [1]), ([66], [2])])) firstBlock ()).2.map
          (fun s => s.loaded) = [[[65]], [[66], [65]], [[66], [65]], [[65]], [[65]]] ∧
      ∀ s ∈ (Watched.execute callThenTrapPlatform 10 (callA "f") (Memory.new ∅ ∅)
        (Storage.new ∅ ∅ (deployed [([65], [1]), ([66], [2])])) firstBlock ()).2,
        s.Right (callA "f") firstBlock ∧ s.Told (callA "f") firstBlock :=
  ⟨by rfl, ((authority_right callThenTrapPlatform 10 (callA "f") firstBlock rfl).1 _ _).2⟩

end Ellipticoind.Ports
