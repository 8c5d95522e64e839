import Ellipticoind.Ports.Budget
import Ellipticoind.Ports.Metering

/-!
# What the host demands of a contract

A contract hands the host pointers, bytes, texts and modules, and the host unwraps what
it makes of them.  `Mark.Met` is the check that each such value has to pass, in terms of
the value alone; the account of a run has them in the order in which they come up.  A nested
call recurses in the host, so the exports that are being invoked are one of these values: the
native stack has to have room for them.

## Main results

* `Metered.accountRule_checked` — a run stops exactly at a value that does not pass.
* `processes_iff` — a block is processed to its end exactly if every value passes.
-/

namespace Ellipticoind.Ports

open Ellipticoind.Verified.Account
open Ellipticoind.Verified.LittleEndian
open Ellipticoind.Verified.StateRun

variable {P : Platform}

/-! ## The checks -/

/-- The start function ends, and calls no host function. -/
def StartEnds (P : Platform) : Nat → P.Act → Instance P.Globals → Prop
  | 0, _, _ => False
  | fuel + 1, act, inst =>
      match P.step act inst with
      | .instruction act' inst' => StartEnds P fuel act' inst'
      | .finished _ => True
      | .host _ _ _ => False
      | .trap _ => False

/-- The code is a module that can be instantiated, and its start function ends. -/
def Starts (P : Platform) (fuel : Nat) (code : Bytes) : Prop :=
  match P.load code with
  | none => False
  | some (_, none) => True
  | some (inst, some act) => StartEnds P fuel act inst

/-- The length at a pointer. -/
def lengthAt (bytes : Bytes) (ptr : I32) : I32 :=
  BitVec.ofNat 32 (leNat ((bytes.drop ptr.toNat).take 4))

/-- A pointer at a length and that many bytes, inside the exported memory. -/
def Readable (P : Platform) : MemoryExport → I32 → Prop
  | .absent, _ => False
  | .memory bytes, ptr =>
      ptr.toNat + 4 ≤ bytes.length ∧ ¬(P.overflowChecks ∧ ptr.saddOverflow 4) ∧
        (ptr + 4).toNat + VM.asUsize (lengthAt bytes ptr) ≤ bytes.length
  | .other, _ => False

/-- A pointer at room for that many bytes. -/
def Writable : MemoryExport → I32 → Nat → Prop
  | .absent, _, _ => False
  | .memory bytes, ptr, length => ptr.toNat + length ≤ bytes.length
  | .other, ptr, length => ptr.toNat + length ≤ 256 * 65536

/-- The bytes of a result: none, or a return code and a value after it. -/
def Decodable (P : Platform) (bytes : Bytes) : Prop :=
  bytes.length = 0 ∨ 4 ≤ bytes.length ∧ (P.fromSlice (bytes.drop 4)).isSome

/-- The caller is metered, and the callee has left no more than it was given. -/
def Payable (P : Platform) : Option Nat → Option Nat → Prop
  | some gas, some gasLeft => gasLeft ≤ gas ∨ P.overflowChecks = false
  | _, _ => False

/-- The check that an entry of the account has to pass. -/
def Mark.Met (P : Platform) : Mark → Prop
  | .metered => True
  | .start code fuel => Starts P fuel code
  | .pointer memory ptr => Readable P memory ptr
  | .allocation memory ptr length => Writable memory ptr length
  | .noPointer _ => False
  | .noExport _ => False
  | .result bytes => Decodable P bytes
  | .text bytes => (strFromUtf8 bytes).isSome
  | .arguments bytes => (P.fromSliceVec bytes).isSome
  | .entry value => value.isSome
  | .price length cost => ¬(P.overflowChecks ∧ 2 ^ 32 ≤ length % 2 ^ 32 * cost)
  | .gasUsed gas gasLeft => Payable P gas gasLeft
  | .argument args index => index < args.length
  | .noHost _ => False
  | .outOfFuel => False
  | .stack names => P.stackFits names

/-! ## Each partial operation has a result exactly if its check is passed -/

theorem ok_iff_of_ok {ε α : Type} {x : Except ε α} {a : α} {check : Prop} (h : x = .ok a)
    (hcheck : check) : (∃ r, x = .ok r) ↔ check :=
  ⟨fun _ => hcheck, fun _ => ⟨a, h⟩⟩

theorem ok_iff_of_error {ε α : Type} {x : Except ε α} {e : ε} {check : Prop}
    (h : x = .error e) (hcheck : ¬check) : (∃ r, x = .ok r) ↔ check := by
  constructor
  · rintro ⟨r, hr⟩
    cases h.symm.trans hr
  · exact fun hpass => absurd hpass hcheck

theorem unwrap_ok_iff {α : Type} (value : Option α) :
    (∃ a, unwrap value = .ok a) ↔ value.isSome := by
  cases value with
  | none => exact ok_iff_of_error rfl Bool.false_ne_true
  | some a => exact ok_iff_of_ok rfl rfl

theorem fromBytes_ok_iff (bytes : Bytes) :
    (∃ result, fromBytes P bytes = .ok result) ↔ Decodable P bytes := by
  unfold fromBytes Decodable
  by_cases hempty : bytes.length = 0
  · rw [if_pos hempty]
    exact ok_iff_of_ok rfl (.inl hempty)
  · rw [if_neg hempty, or_iff_right hempty]
    by_cases hshort : bytes.length < 4
    · rw [if_pos hshort]
      exact ok_iff_of_error rfl fun hpass => absurd hpass.1 (Nat.not_le.mpr hshort)
    · rw [if_neg hshort, and_iff_right (Nat.not_lt.mp hshort), ← unwrap_ok_iff]
      cases unwrap (P.fromSlice (bytes.drop 4)) <;> simp [Except.map]

theorem runStart_ok_iff (fuel : Nat) (act : P.Act) (inst : Instance P.Globals) :
    (∃ inst', runStart P fuel act inst = .ok inst') ↔ StartEnds P fuel act inst := by
  induction fuel generalizing act inst with
  | zero => exact ok_iff_of_error rfl not_false
  | succ fuel ih =>
      unfold runStart StartEnds
      cases P.step act inst with
      | instruction act' inst' => exact ih act' inst'
      | finished value => exact ok_iff_of_ok rfl trivial
      | host index args resume => exact ok_iff_of_error rfl not_false
      | trap kind => exact ok_iff_of_error rfl not_false

theorem newModuleInstance_ok_iff (fuel : Nat) (code : Bytes) :
    (∃ inst, newModuleInstance P fuel code = .ok inst) ↔ Starts P fuel code := by
  unfold newModuleInstance Starts
  rcases P.load code with _ | ⟨inst, _ | act⟩
  · exact ok_iff_of_error rfl not_false
  · exact ok_iff_of_ok rfl trivial
  · exact runStart_ok_iff fuel act inst

/-- The length is read first, then the bytes after it. -/
theorem readPointer_memory {vm : VM P} {bytes : Bytes}
    (h : vm.moduleInstance.memory = .memory bytes) (ptr : I32) :
    (∃ r, VM.readPointer ptr vm = .ok r) ↔ Readable P (.memory bytes) ptr := by
  show (∃ r, Except.bind (VM.readI32 ptr vm) (fun p => Except.bind (VM.addI32 ptr 4 p.2)
    fun q => VM.readMemory q.1 p.1 q.2) = .ok r) ↔ _ ∧ _ ∧ _
  rw [readI32_memory h]
  by_cases hfits : ptr.toNat + 4 ≤ bytes.length
  · rw [if_pos hfits, and_iff_right hfits]
    dsimp only [Except.bind]
    rw [addI32_eq]
    by_cases hadds : P.overflowChecks ∧ ptr.saddOverflow 4
    · rw [if_pos hadds]
      exact ok_iff_of_error rfl fun hpass => hpass.1 hadds
    · rw [if_neg hadds, and_iff_right hadds]
      dsimp only
      rw [readMemory_memory h]
      split
      · exact ok_iff_of_ok rfl ‹_›
      · exact ok_iff_of_error rfl ‹_›
  · rw [if_neg hfits]
    exact ok_iff_of_error rfl fun hpass => hfits hpass.1

theorem readPointer_ok_iff (ptr : I32) (vm : VM P) :
    (∃ r, VM.readPointer ptr vm = .ok r) ↔ Readable P vm.moduleInstance.memory ptr := by
  cases hmemory : vm.moduleInstance.memory with
  | memory bytes => exact readPointer_memory hmemory ptr
  | absent =>
      unfold VM.readPointer VM.readI32 VM.readMemory
      rw [bind_assoc, bind_assoc, read_bind, hmemory]
      exact ok_iff_of_error rfl not_false
  | other =>
      unfold VM.readPointer VM.readI32 VM.readMemory
      rw [bind_assoc, bind_assoc, read_bind, hmemory]
      exact ok_iff_of_error rfl not_false

theorem writeMemory_ok_iff (pointer : I32) (value : Bytes) (vm : VM P) :
    (∃ r, VM.writeMemory pointer value vm = .ok r) ↔
      Writable vm.moduleInstance.memory pointer value.length := by
  unfold VM.writeMemory
  rw [read_bind]
  cases vm.moduleInstance.memory with
  | absent => exact ok_iff_of_error rfl not_false
  | memory bytes =>
      dsimp only [Writable]
      split
      · exact ok_iff_of_ok rfl ‹_›
      · exact ok_iff_of_error rfl ‹_›
  | other =>
      dsimp only [Writable]
      split
      · exact ok_iff_of_ok rfl ‹_›
      · exact ok_iff_of_error rfl ‹_›

theorem bytesCost_ok_iff (length cost : Nat) (vm : VM P) :
    (∃ r, VM.bytesCost length cost vm = .ok r) ↔
      ¬(P.overflowChecks ∧ 2 ^ 32 ≤ length % 2 ^ 32 * cost) := by
  unfold VM.bytesCost VM.mulU32
  split
  · exact ok_iff_of_error rfl fun hpass => hpass ‹_›
  · exact ok_iff_of_ok rfl ‹_›

theorem gasUsed_ok_iff (gasLeft : Option Nat) (vm : VM P) :
    (∃ r, VM.gasUsed gasLeft vm = .ok r) ↔ Payable P vm.gas gasLeft := by
  show (∃ r, Except.bind ((liftM (unwrap vm.gas) : Run P Nat) vm) (fun p =>
    (do
      let left ← unwrap gasLeft
      if left ≤ p.1 then pure (p.1 - left)
      else if P.overflowChecks then VM.panic
      else pure (p.1 + 2 ^ 32 - left) : Run P Nat) p.2) = .ok r) ↔ _
  rcases vm.gas with _ | gas <;> rcases gasLeft with _ | left
  · exact ok_iff_of_error rfl not_false
  · exact ok_iff_of_error rfl not_false
  · exact ok_iff_of_error rfl not_false
  · show (∃ r, (if left ≤ gas then pure (gas - left)
      else if P.overflowChecks then VM.panic
      else pure (gas + 2 ^ 32 - left) : Run P Nat) vm = .ok r) ↔
        left ≤ gas ∨ P.overflowChecks = false
    by_cases hle : left ≤ gas
    · rw [if_pos hle]
      exact ok_iff_of_ok rfl (.inl hle)
    · rw [if_neg hle, or_iff_right hle]
      cases P.overflowChecks with
      | true => exact ok_iff_of_error rfl (by decide)
      | false => exact ok_iff_of_ok rfl rfl

theorem nth_ok_iff (args : List I32) (index : Nat) (vm : VM P) :
    (∃ r, VM.nth args index vm = .ok r) ↔ index < args.length := by
  unfold VM.nth
  rw [exists_lift_eq_ok, unwrap_ok_iff]
  simp

theorem enter_ok_iff (names : List String) (vm : VM P) :
    (∃ r, VM.enter names vm = .ok r) ↔ P.stackFits names := by
  unfold VM.enter
  split
  · exact ok_iff_of_ok rfl ‹_›
  · exact ok_iff_of_error rfl ‹_›

/-! ## A run stops at a value that does not pass -/

namespace Metered

open Logged (quiet asked note)

/-- The computation stops exactly where a check is not passed. -/
abbrev Checked {α : Type} (x : Metered P α) : Prop := Decides (Mark.Met P) x

theorem checked_useGas (amount : Nat) :
    Checked (quiet (VM.useGas amount) : Metered P (Except TrapKind Unit)) := by
  refine Decides.quiet fun vm => ?_
  unfold VM.useGas
  split
  · split
    · exact ⟨_, rfl⟩
    · exact ⟨_, rfl⟩
  · exact ⟨_, rfl⟩

theorem checked_payInstruction :
    Checked (payInstruction : Metered P (Except TrapKind Unit)) := by
  unfold payInstruction
  refine Decides.bind (checked_useGas _) fun r => ?_
  split
  · exact Decides.pure _
  · exact Decides.bind (Decides.note trivial) fun _ => Decides.pure _

/-- A nested call stops where the call in its frame does. -/
theorem checked_nestedCall {invoke : MeteredInvoke P} {name : String}
    {arguments : List Value} (hcall : Checked (call invoke name arguments))
    (inst : Instance P.Globals) (address : Bytes) :
    Checked (nestedCall invoke inst address name arguments) := by
  intro vm
  refine Iff.trans ?_ (hcall (vm.calleeFrame inst address name))
  show (∃ r, (call invoke name arguments (vm.calleeFrame inst address name)).1.map _ =
    .ok r) ↔ _
  cases (call invoke name arguments (vm.calleeFrame inst address name)).1 <;>
    simp [Except.map]

theorem checked_settle {β : Type} {invoke : MeteredInvoke P} (inst : Instance P.Globals)
    (address : Bytes) {name : String} {arguments : List Value}
    {f : CallEnd × Option Nat → Except TrapKind Unit → Metered P β}
    (hcall : Checked (call invoke name arguments))
    (hpure : ∀ r paid, ∃ b, f r paid = Pure.pure b) :
    Checked (nestedCall invoke inst address name arguments >>= fun r =>
      gasUsed r.2 >>= fun used => quiet (VM.useGas used) >>= f r) := by
  refine Decides.bind (checked_nestedCall hcall inst address) fun r =>
    Decides.bind (Decides.asked (gasUsed_ok_iff r.2)) fun used =>
      Decides.bind (checked_useGas used) fun paid => ?_
  obtain ⟨b, hb⟩ := hpure r paid
  rw [hb]
  exact Decides.pure b

/-- A guest's run, nested calls of any depth included, stops exactly where a check is
not passed. -/
theorem accountRule_checked : AccountRule (P := P) Checked where
  pure := Decides.pure
  bind := Decides.bind
  read _ := Decides.quiet fun _ => ⟨_, rfl⟩
  payment length cost _ hf := Decides.bind (Decides.asked (bytesCost_ok_iff length cost))
    fun amount => Decides.bind (checked_useGas amount) hf
  payInstruction := checked_payInstruction
  moduleInstance _ := Decides.quiet fun _ => ⟨_, rfl⟩
  host _ := Decides.quiet fun _ => ⟨_, rfl⟩
  commit := Decides.quiet fun _ => ⟨_, rfl⟩
  rollback := Decides.quiet fun _ => ⟨_, rfl⟩
  readPointer ptr := Decides.asked (readPointer_ok_iff ptr)
  writeMemory pointer value := Decides.asked (writeMemory_ok_iff pointer value)
  nth args index := Decides.asked (nth_ok_iff args index)
  memoryGet _ := Decides.asked fun _ => exists_lift_eq_ok.trans (unwrap_ok_iff _)
  storageGet _ := Decides.asked fun _ => exists_lift_eq_ok.trans (unwrap_ok_iff _)
  memorySet _ _ := Decides.quiet fun _ => ⟨_, rfl⟩
  storageSet _ _ := Decides.quiet fun _ => ⟨_, rfl⟩
  text _ := Decides.lift (unwrap_ok_iff _)
  arguments _ := Decides.lift (unwrap_ok_iff _)
  result bytes := Decides.lift (fromBytes_ok_iff bytes)
  newModuleInstance fuel code := Decides.lift (newModuleInstance_ok_iff fuel code)
  enter names := Decides.asked (enter_ok_iff names)
  noPointer _ := Decides.asked fun _ => ok_iff_of_error rfl not_false
  noExport _ := Decides.asked fun _ => ok_iff_of_error rfl not_false
  noHost _ := Decides.asked fun _ => ok_iff_of_error rfl not_false
  outOfFuel := Decides.asked fun _ => ok_iff_of_error rfl not_false
  settle inst address _ _ := checked_settle inst address

theorem checked_call (fuel : Nat) (func : String) (arguments : List Value) :
    Checked (call (invoke P fuel []) func arguments) :=
  accountRule_checked.callOn fuel [] func arguments

/-! ### Transactions -/

/-- A transaction's own call leaves no more gas than it was given. -/
theorem gasLeft_execute {fuel : Nat} {t : Transaction} {memory : Memory} {storage : Storage}
    {env : Env} {e : Executed} (h : t.execute P fuel memory storage env = .ok e) :
    ∃ gasLeft, e.gasLeft = some gasLeft ∧ gasLeft ≤ t.gasLimit % 2 ^ 32 := by
  unfold Transaction.execute at h
  obtain ⟨code, -, h⟩ := except_bind_eq_ok.mp h
  split at h
  · cases h
    exact ⟨_, rfl, le_rfl⟩
  · obtain ⟨inst, -, h⟩ := except_bind_eq_ok.mp h
    obtain ⟨⟨callEnd, vm⟩, hcall, h⟩ := except_bind_eq_ok.mp h
    cases h
    exact frameRelation_shrinks.guarantee_call
      (frameRelation_shrinks.guarantee_invoke fuel []) _ _ _ _ _ hcall _ rfl

theorem decides_execute (fuel : Nat) (t : Transaction) (memory : Memory) (storage : Storage)
    (env : Env) : Decides (Mark.Met P) (execute P fuel t memory storage env) := by
  unfold execute
  refine Decides.bind (Decides.lift (unwrap_ok_iff _)) fun code => ?_
  split
  · exact Decides.pure _
  · exact Decides.bind (Decides.lift (newModuleInstance_ok_iff fuel code)) fun inst =>
      Decides.bind (fun _ => DecidesAt.startedOn (checked_call fuel _ _ _))
        fun r => Decides.pure _

theorem decides_transfer (fuel : Nat) (t : Transaction) (redis : Redis) (rocksdb : RocksDB)
    (memoryChangeset storageChangeset : Changeset) (env : Env) (amount : Nat)
    (sender winner : Bytes) :
    Decides (Mark.Met P) (transfer P fuel t redis rocksdb memoryChangeset storageChangeset
      env amount sender winner) := by
  unfold transfer
  exact Decides.bind (Decides.lift (unwrap_ok_iff _)) fun code =>
    Decides.bind (Decides.lift (newModuleInstance_ok_iff fuel code)) fun inst =>
      Decides.bind (fun _ => DecidesAt.startedOn (checked_call fuel _ _ _))
        fun r => Decides.pure _

theorem decides_runSystemContract (fuel : Nat) (t : Transaction) (memory : Memory)
    (storage : Storage) (env : Env) :
    Decides (Mark.Met P) (runSystemContract P fuel t memory storage env) := by
  unfold runSystemContract createContract
  split
  · split
    · exact Decides.bind (decides_execute fuel _ _ _ _) fun e => Decides.pure _
    · exact Decides.pure _
  · exact Decides.pure _

/-- The gas that is left is there, and no more than the limit: neither `unwrap` nor the
subtraction can fail. -/
theorem decides_runOutcome (fuel : Nat) (redis : Redis) (rocksdb : RocksDB) (t : Transaction)
    (env : Env) (memoryChangeset storageChangeset : Changeset) :
    Decides (Mark.Met P)
      (runOutcome P fuel redis rocksdb t env memoryChangeset storageChangeset) := by
  rintro ⟨⟩
  unfold runOutcome
  dsimp only
  split
  · exact decides_runSystemContract fuel t _ _ env ()
  · refine (decides_execute fuel t _ _ env ()).bind fun e _ hrun => ?_
    have hexecute : t.execute P fuel (Memory.new redis memoryChangeset)
        (Storage.new redis rocksdb storageChangeset) env = .ok e := by
      rw [← outcome_execute]
      show Except.map Prod.fst (Logged.run _ _) = _
      rw [hrun]
      rfl
    obtain ⟨gasLeft, hgas, hle⟩ := gasLeft_execute hexecute
    have hsub : subU64 P t.gasLimit gasLeft = .ok (t.gasLimit - gasLeft) :=
      if_pos (hle.trans (Nat.mod_le _ _))
    rw [hgas]
    refine (Decides.quiet (fun _ => ⟨_, rfl⟩) ()).bind fun a _ hleft => ?_
    cases hleft
    rw [hsub]
    exact Decides.bind (Decides.quiet fun _ => ⟨_, rfl⟩)
      (fun used => Decides.bind (decides_transfer fuel t redis rocksdb _ _ env _ _ _)
        fun gas => Decides.pure _) ()

/-- A block, transaction by transaction. -/
theorem decides_runTransactions (fuel : Nat) (redis : Redis) (rocksdb : RocksDB) (env : Env)
    (ts : List Transaction) (b : Processed) :
    Decides (Mark.Met P) (runTransactions P fuel redis rocksdb env b ts) := by
  induction ts generalizing b with
  | nil => exact Decides.pure _
  | cons t rest ih =>
      unfold runTransactions runTransaction
      exact Decides.bind (Decides.bind (decides_runOutcome fuel redis rocksdb t env _ _)
        fun o => Decides.pure _) fun b' => ih b'

end Metered

/-! ## Blocks -/

/-- The contract gave no result of its own: it is not there, it trapped, or it could not
take its arguments. -/
def TransactionEnd.Failed (ending : TransactionEnd) : Prop :=
  ∀ result, ending ≠ .called (.returned result)

/-- The call that a transaction is about: its own, or that of the constructor of the
contract it creates. -/
inductive Calls (P : Platform) (fuel : Nat) (memory : Memory) (storage : Storage) (env : Env)
    (t : Transaction) (e : Executed) : Prop
  | own (user : SystemContracts.isSystemContract t = false)
      (executed : t.execute P fuel memory storage env = .ok e)
  | constructor (contractName : String) (code : Bytes) (arguments : List Value)
      (system : SystemContracts.isSystemContract t = true)
      (function : t.function = "create_contract")
      (args : t.arguments = [.text contractName, .bytes code, .array arguments])
      (executed : Transaction.execute P fuel
        { function := "constructor"
          arguments := arguments
          sender := t.sender
          nonce := t.nonce
          gasLimit := t.gasLimit
          contractAddress := t.sender ++ utf8 contractName }
        memory (storage.set (rightPadVec (t.sender ++ utf8 contractName) 64 0) code).commit
        env = .ok e)

/-- The transactions are processed one after the other to the last: each is completed,
and one whose contract failed is completed with the return code of an error. -/
inductive Completes (P : Platform) (fuel : Nat) (redis : Redis) (rocksdb : RocksDB)
    (env : Env) : Processed → List Transaction → Processed → Prop
  | nil (b : Processed) : Completes P fuel redis rocksdb env b [] b
  | cons {b b₁ b' : Processed} {t : Transaction} {rest : List Transaction} (result : Result)
      (run : runTransaction P fuel redis rocksdb env b t = .ok b₁)
      (completed : b₁.transactions = b.transactions ++ [t.complete result])
      (reported : ∀ e, Calls P fuel (Memory.new redis b.memoryChangeset)
        (Storage.new redis rocksdb b.storageChangeset) env t e → e.ending.Failed →
          result.1 ≠ 0)
      (tail : Completes P fuel redis rocksdb env b₁ rest b') :
      Completes P fuel redis rocksdb env b (t :: rest) b'

theorem TransactionEnd.Failed.code_ne_zero {ending : TransactionEnd} (h : ending.Failed) :
    ending.result.1 ≠ 0 := by
  cases ending with
  | contractNotFound => decide
  | called callEnd =>
      cases callEnd with
      | returned result => exact absurd rfl (h result)
      | trapped kind => exact Nat.one_ne_zero
      | argumentTrapped kind => exact Nat.one_ne_zero
      | argumentPanic => exact Nat.one_ne_zero

/-- A transaction's result is that of the call it is about. -/
theorem result_of_calls {fuel : Nat} {redis : Redis} {rocksdb : RocksDB} {t : Transaction}
    {env : Env} {memoryChangeset storageChangeset : Changeset} {o : Outcome} {e : Executed}
    (h : runOutcome P fuel redis rocksdb t env memoryChangeset storageChangeset = .ok o)
    (hcalls : Calls P fuel (Memory.new redis memoryChangeset)
      (Storage.new redis rocksdb storageChangeset) env t e) :
    o.result = e.ending.result := by
  unfold runOutcome at h
  dsimp only at h
  cases hcalls with
  | own user executed =>
      rw [user, if_neg Bool.false_ne_true] at h
      obtain ⟨e', he', h⟩ := except_bind_eq_ok.mp h
      cases he'.symm.trans executed
      obtain ⟨gasLeft, -, h⟩ := except_bind_eq_ok.mp h
      obtain ⟨used, -, h⟩ := except_bind_eq_ok.mp h
      obtain ⟨gas, -, h⟩ := except_bind_eq_ok.mp h
      cases h
      rfl
  | constructor contractName code arguments system function args executed =>
      rw [system, if_pos rfl, SystemContracts.run, if_pos function,
        SystemContracts.createContract] at h
      simp only [args] at h
      obtain ⟨e', he', h⟩ := except_bind_eq_ok.mp h
      cases he'.symm.trans executed
      cases h
      rfl

theorem completes_iff {fuel : Nat} {redis : Redis} {rocksdb : RocksDB} {env : Env}
    {b b' : Processed} {ts : List Transaction} :
    Completes P fuel redis rocksdb env b ts b' ↔
      ts.foldlM (runTransaction P fuel redis rocksdb env) b = .ok b' := by
  constructor
  · intro h
    induction h with
    | nil => rfl
    | cons result run completed reported tail ih =>
        rw [List.foldlM_cons]
        exact except_bind_eq_ok.mpr ⟨_, run, ih⟩
  · intro h
    induction ts generalizing b with
    | nil =>
        cases h
        exact .nil _
    | cons t rest ih =>
        rw [List.foldlM_cons] at h
        obtain ⟨b₁, hrun, hrest⟩ := except_bind_eq_ok.mp h
        obtain ⟨o, ho, hb₁⟩ := except_bind_eq_ok.mp hrun
        cases hb₁
        refine .cons o.result hrun rfl (fun e hcalls hfailed => ?_) (ih hrest)
        rw [result_of_calls ho hcalls]
        exact hfailed.code_ne_zero

/-- **When no contract aborts the processor.**  The transactions of a block are all
processed, each completed in its turn and reported if its contract fails, with one outcome
on every large enough budget of steps, exactly if on some budget every value that the
contracts hand to the host passes the host's check, and the exports nested in one another
fit the native stack. -/
theorem processes_iff (redis : Redis) (rocksdb : RocksDB) (env : Env) (b : Processed)
    (ts : List Transaction) :
    (∃ fuel b', ∀ fuel' ≥ fuel, Completes P fuel' redis rocksdb env b ts b') ↔
      ∃ fuel, ∀ mark ∈ (Metered.runTransactions P fuel redis rocksdb env b ts ()).2,
        mark.Met P := by
  refine exists_congr fun fuel => ?_
  have hdecides := Metered.decides_runTransactions (P := P) fuel redis rocksdb env ts b ()
  refine Iff.trans ?_ hdecides
  have hresult : (∃ r, (Metered.runTransactions P fuel redis rocksdb env b ts ()).1 = .ok r) ↔
      ∃ b', ts.foldlM (runTransaction P fuel redis rocksdb env) b = .ok b' := by
    rw [← Metered.outcome_runTransactions]
    show _ ↔ ∃ b', (Metered.runTransactions P fuel redis rocksdb env b ts ()).1.map Prod.fst =
      .ok b'
    cases (Metered.runTransactions P fuel redis rocksdb env b ts ()).1 <;> simp [Except.map]
  rw [hresult]
  refine exists_congr fun b' => ⟨fun hcompletes => ?_, fun hrun fuel' hle => ?_⟩
  · exact completes_iff.mp (hcompletes fuel le_rfl)
  · exact completes_iff.mpr (foldlM_of_le hle hrun)

/-! ## A function that is not exported -/

namespace Script

/-- A contract at the address `A`, whose exports are `f` and `g`. -/
def atA : Processed := { Processed.empty with storageChangeset := deployed [([65], [1])] }

end Script

open Script in
/-- A call of another function aborts the processor. -/
theorem missing_export_aborts :
    ¬ ∀ (P : Platform) (redis : Redis) (rocksdb : RocksDB) (env : Env) (b : Processed)
      (ts : List Transaction),
      ∃ fuel b', ∀ fuel' ≥ fuel, Completes P fuel' redis rocksdb env b ts b' := by
  intro h
  obtain ⟨fuel, b', hcompletes⟩ := h callThenTrapPlatform ∅ ∅ firstBlock atA [callA "nothing"]
  have hpanic : [callA "nothing"].foldlM
      (runTransaction callThenTrapPlatform fuel ∅ ∅ firstBlock) atA = .error .panic := rfl
  cases hpanic.symm.trans (completes_iff.mp (hcompletes fuel le_rfl))

end Ellipticoind.Ports
