import Ellipticoind.Ports.Account

/-!
# Properties of every accounted run

`AccountRule C` says what a property of accounted computations has to allow: sequencing,
one clause for each primitive action, and one that carries it from a callee's call to the
caller, its payment included.  Every such property holds of every
guest's run, nested calls of any depth included.

It is for accounts what `FrameRelation` is for the states of a frame.

The walk through the functions is made once, for `GuardedRule C`.  There the property may
leave out the results that an `OutOfGas` trap gives, for the trap goes up to the end of the
frame: `C excluded x` is about the runs of `x` whose result is not `excluded`.
-/

namespace Ellipticoind.Ports

open Ellipticoind.Verified.Account
open Ellipticoind.Verified.StateRun
open Logged (quiet asked note)

variable {P : Platform}

/-! ## The results of an `OutOfGas` trap -/

/-- The trap of a host function or of a guest. -/
def OutOfGas {α : Type} (r : Except TrapKind α) : Prop := r = .error .outOfGas

/-- The trap of an exported function. -/
def InvokeOutOfGas (r : Except InvokeError (Option RuntimeValue)) : Prop :=
  r = .error (.trap .outOfGas)

/-- The call ended in the trap, of its function or of the guest's allocator. -/
def CallEnd.isOutOfGas : CallEnd → Bool
  | .trapped .outOfGas => true
  | .argumentTrapped .outOfGas => true
  | _ => false

/-- The outermost call ended in an `OutOfGas` trap. -/
def TransactionEnd.isOutOfGas : TransactionEnd → Bool
  | .contractNotFound => false
  | .called callEnd => callEnd.isOutOfGas

/-- The trap of the allocator, at an argument. -/
def ArgumentOutOfGas (r : Except CallEnd (List RuntimeValue)) : Prop :=
  r = .error (.argumentTrapped .outOfGas)

/-- No result is left out. -/
def Never {α : Type} (_ : α) : Prop := False

/-- Every result is one of those. -/
def Gives {α : Type} (F : α → Prop) (x : Metered P α) : Prop :=
  ∀ vm a vm', x.run vm = .ok (a, vm') → F a

/-- What `external_call` answers for a contract that has no code. -/
def Metered.notFound : Metered P (Except TrapKind Bytes) := do
  let gasLimit ← quiet (VM.read fun vm => vm.transaction.gasLimit)
  pure (.ok (P.toVec (.array
    [ .array [.integer contractNotFound.1, contractNotFound.2]
    , .integer (gasLimit % 2 ^ 32 : Nat) ])))

theorem gives_pure {α : Type} {F : α → Prop} {a : α} (h : F a) :
    Gives F (Pure.pure a : Metered P α) := by
  intro vm b vm' hrun
  cases hrun
  exact h

/-! ## A nested call and its payment -/

namespace Metered

/-- The frame of a nested call, and its caller after it. -/
theorem nestedCall_run {invoke : MeteredInvoke P} {inst : Instance P.Globals}
    {address : Bytes} {name : String} {arguments : List Value} {vm vm' : VM P}
    {callEnd : CallEnd} {left : Option Nat} :
    (nestedCall invoke inst address name arguments).run vm = .ok ((callEnd, left), vm') ↔
      ∃ callee, (call invoke name arguments).run (vm.calleeFrame inst address name) =
          .ok (callEnd, callee) ∧ left = callee.gas ∧ vm' = { vm with
        memory := callee.memory
        storage := callee.storage
        trace := callee.trace ++ [.frameEnd callEnd] } := by
  show (call invoke name arguments (vm.calleeFrame inst address name)).1.map _ = _ ↔
    ∃ callee, (call invoke name arguments (vm.calleeFrame inst address name)).1 = _ ∧ _
  cases (call invoke name arguments (vm.calleeFrame inst address name)).1 with
  | error stop =>
      constructor
      · exact nofun
      · rintro ⟨_, hrun, _⟩
        cases hrun
  | ok p =>
      constructor
      · intro hrun
        cases hrun
        exact ⟨p.2, rfl, rfl, rfl⟩
      · rintro ⟨callee, hrun, rfl, rfl⟩
        cases hrun
        rfl

/-- The payment for a callee leaves the caller with what the callee had left. -/
theorem run_settle {β : Type} {f : Except TrapKind Unit → Metered P β} {vm : VM P} {n m : Nat}
    (hn : vm.gas = some n) (hle : m ≤ n) :
    (gasUsed (some m) >>= fun used => quiet (VM.useGas used) >>= f).run vm =
      (f (.ok ())).run { vm with gas := some m } := by
  rw [Logged.run_bind]
  refine (bind_of_ok (gasUsed_eq hn hle)).trans ?_
  rw [Logged.run_bind]
  refine (bind_of_ok (useGas_paid hn (Nat.sub_le n m))).trans ?_
  rw [Nat.sub_sub_self hle]

end Metered

/-! ## The two rules -/

/-- What a property of accounted computations that leaves out some results has to allow. -/
structure GuardedRule (C : ∀ {α : Type}, (α → Prop) → Metered P α → Prop) : Prop where
  pure : ∀ {α : Type} {F : α → Prop} (a : α), C F (Pure.pure a : Metered P α)
  /-- What is left out of the first part goes on to what is left out of both. -/
  bind : ∀ {α β : Type} {F : α → Prop} {G : β → Prop} {x : Metered P α}
    {f : α → Metered P β}, C F x → (∀ a, F a → Gives G (f a)) → (∀ a, C G (f a)) →
      C G (x >>= f)
  /-- A field that says nothing of the gas. -/
  read : ∀ {α : Type} (field : VM P → α),
    (∀ vm gas limit, field { vm with
      gas := gas
      transaction := { vm.transaction with gasLimit := limit } } = field vm) →
    C Never (quiet (VM.read field))
  /-- The price of some bytes, and its payment. -/
  payment : ∀ {α : Type} {F : α → Prop} (length cost : Nat)
    {f : Except TrapKind Unit → Metered P α},
    Gives F (f (.error .outOfGas)) → (∀ r, C F (f r)) →
      C F (Metered.bytesCost length cost >>= fun amount => quiet (VM.useGas amount) >>= f)
  /-- `use_gas` before an instruction. -/
  payInstruction : C OutOfGas Metered.payInstruction
  moduleInstance : ∀ inst,
    C Never (quiet (modify fun vm => { vm with moduleInstance := inst }))
  host : ∀ index, C Never (quiet (VM.emit (.host index)))
  commit : C Never (quiet VM.commit)
  rollback : C Never (quiet VM.rollback)
  readPointer : ∀ ptr, C Never (Metered.readPointer ptr)
  writeMemory : ∀ pointer value, C Never (Metered.writeMemory pointer value)
  nth : ∀ args index, C Never (Metered.nth args index)
  memoryGet : ∀ key, C Never (Metered.memoryGet key)
  storageGet : ∀ key, C Never (Metered.storageGet key)
  memorySet : ∀ key value, C Never
    (quiet (VM.read (fun vm => vm.namespacedKey key) >>= fun k => VM.memorySet k value))
  storageSet : ∀ key value, C Never
    (quiet (VM.read (fun vm => vm.namespacedKey key) >>= fun k => VM.storageSet k value))
  text : ∀ bytes, C Never (Metered.strFromUtf8 bytes)
  result : ∀ bytes, C Never (asked (fun _ => .result bytes) (liftM (fromBytes P bytes)))
  newModuleInstance : ∀ fuel code, C Never (Metered.newModuleInstance P fuel code)
  enter : ∀ names, C Never (Metered.enter names)
  /-- The host gives up. -/
  noPointer : ∀ {α : Type} {F : α → Prop} value,
    C F (asked (fun _ => .noPointer value) VM.panic : Metered P α)
  noExport : ∀ {α : Type} {F : α → Prop} func,
    C F (asked (fun _ => .noExport func) VM.panic : Metered P α)
  noHost : ∀ {α : Type} {F : α → Prop} index,
    C F (asked (fun _ => .noHost index) VM.panic : Metered P α)
  outOfFuel : ∀ {α : Type} {F : α → Prop},
    C F (asked (fun _ => .outOfFuel) (throw .outOfFuel) : Metered P α)
  /-- The arguments and the code of a callee. -/
  findCode : ∀ {F : Except TrapKind Bytes → Prop} (bytes address : Bytes)
    {f : List Value → Bytes → Metered P (Except TrapKind Bytes)},
    (∀ arguments code, C F (f arguments code)) →
      C F (asked (fun _ => .arguments bytes) (liftM (unwrap (P.fromSliceVec bytes))) >>=
        fun arguments => Metered.storageGet address >>= fun code =>
          if code.length = 0 then Metered.notFound else f arguments code)
  /-- A nested call, and the caller's payment for it. -/
  settle : ∀ {β : Type} {F : β → Prop} {invoke : MeteredInvoke P}
    (inst : Instance P.Globals) (address : Bytes) (name : String) (arguments : List Value)
    {f : CallEnd × Option Nat → Except TrapKind Unit → Metered P β},
    C (fun callEnd => callEnd.isOutOfGas = true) (Metered.call invoke name arguments) →
      (∀ callEnd paid, ∃ b, ∀ left, f (callEnd, left) paid = Pure.pure b) →
        C F (Metered.nestedCall invoke inst address name arguments >>= fun r =>
          Metered.gasUsed r.2 >>= fun used => quiet (VM.useGas used) >>= f r)

/-- What a property of accounted computations has to allow. -/
structure AccountRule (C : ∀ {α : Type}, Metered P α → Prop) : Prop where
  pure : ∀ {α : Type} (a : α), C (Pure.pure a : Metered P α)
  bind : ∀ {α β : Type} {x : Metered P α} {f : α → Metered P β},
    C x → (∀ a, C (f a)) → C (x >>= f)
  read : ∀ {α : Type} (field : VM P → α), C (quiet (VM.read field))
  /-- The price of some bytes, and its payment. -/
  payment : ∀ {α : Type} (length cost : Nat) {f : Except TrapKind Unit → Metered P α},
    (∀ r, C (f r)) →
      C (Metered.bytesCost length cost >>= fun amount => quiet (VM.useGas amount) >>= f)
  /-- `use_gas` before an instruction. -/
  payInstruction : C Metered.payInstruction
  moduleInstance : ∀ inst, C (quiet (modify fun vm => { vm with moduleInstance := inst }))
  host : ∀ index, C (quiet (VM.emit (.host index)))
  commit : C (quiet VM.commit)
  rollback : C (quiet VM.rollback)
  readPointer : ∀ ptr, C (Metered.readPointer ptr)
  writeMemory : ∀ pointer value, C (Metered.writeMemory pointer value)
  nth : ∀ args index, C (Metered.nth args index)
  memoryGet : ∀ key, C (Metered.memoryGet key)
  storageGet : ∀ key, C (Metered.storageGet key)
  memorySet : ∀ key value,
    C (quiet (VM.read (fun vm => vm.namespacedKey key) >>= fun k => VM.memorySet k value))
  storageSet : ∀ key value,
    C (quiet (VM.read (fun vm => vm.namespacedKey key) >>= fun k => VM.storageSet k value))
  text : ∀ bytes, C (Metered.strFromUtf8 bytes)
  arguments : ∀ bytes,
    C (asked (fun _ => .arguments bytes) (liftM (unwrap (P.fromSliceVec bytes))))
  result : ∀ bytes, C (asked (fun _ => .result bytes) (liftM (fromBytes P bytes)))
  newModuleInstance : ∀ fuel code, C (Metered.newModuleInstance P fuel code)
  enter : ∀ names, C (Metered.enter names)
  /-- The host gives up. -/
  noPointer : ∀ {α : Type} value, C (asked (fun _ => .noPointer value) VM.panic : Metered P α)
  noExport : ∀ {α : Type} func, C (asked (fun _ => .noExport func) VM.panic : Metered P α)
  noHost : ∀ {α : Type} index, C (asked (fun _ => .noHost index) VM.panic : Metered P α)
  outOfFuel : ∀ {α : Type}, C (asked (fun _ => .outOfFuel) (throw .outOfFuel) : Metered P α)
  /-- A nested call, and the caller's payment for it. -/
  settle : ∀ {β : Type} {invoke : MeteredInvoke P} (inst : Instance P.Globals)
    (address : Bytes) (name : String) (arguments : List Value)
    {f : CallEnd × Option Nat → Except TrapKind Unit → Metered P β},
    C (Metered.call invoke name arguments) → (∀ r paid, ∃ b, f r paid = Pure.pure b) →
      C (Metered.nestedCall invoke inst address name arguments >>= fun r =>
        Metered.gasUsed r.2 >>= fun used => quiet (VM.useGas used) >>= f r)

/-- A property of all results allows to leave some out. -/
theorem AccountRule.guarded {C : ∀ {α : Type}, Metered P α → Prop} (h : AccountRule C) :
    GuardedRule fun {_} _ x => C x where
  pure := h.pure
  bind hx _ hf := h.bind hx hf
  read field _ := h.read field
  payment length cost _ _ hf := h.payment length cost hf
  payInstruction := h.payInstruction
  moduleInstance := h.moduleInstance
  host := h.host
  commit := h.commit
  rollback := h.rollback
  readPointer := h.readPointer
  writeMemory := h.writeMemory
  nth := h.nth
  memoryGet := h.memoryGet
  storageGet := h.storageGet
  memorySet := h.memorySet
  storageSet := h.storageSet
  text := h.text
  result := h.result
  newModuleInstance := h.newModuleInstance
  enter := h.enter
  noPointer := h.noPointer
  noExport := h.noExport
  noHost := h.noHost
  outOfFuel := h.outOfFuel
  findCode bytes address f hf := by
    refine h.bind (h.arguments bytes) fun arguments => h.bind (h.storageGet address)
      fun code => ?_
    split
    · exact h.bind (h.read _) fun gasLimit => h.pure _
    · exact hf arguments code
  settle inst address name arguments f hcall hpure :=
    h.settle inst address name arguments hcall fun r paid =>
      (hpure r.1 paid).imp fun _ hb => hb r.2

/-! ## The walk -/

namespace GuardedRule

variable {C : ∀ {α : Type}, (α → Prop) → Metered P α → Prop} (h : GuardedRule C)

include h

/-- Nothing is left out of the first part. -/
theorem seq {α β : Type} {G : β → Prop} {x : Metered P α} {f : α → Metered P β}
    (hx : C Never x) (hf : ∀ a, C G (f a)) : C G (x >>= f) :=
  h.bind hx (fun _ => False.elim) hf

section

variable {invoke : MeteredInvoke P}
  (hinvoke : ∀ name args, C InvokeOutOfGas (invoke name args))

include hinvoke

theorem malloc (size : Nat) : C OutOfGas (Metered.malloc invoke size) := by
  unfold Metered.malloc
  refine h.bind (hinvoke _ _) ?_ fun r => ?_
  · rintro _ rfl
    exact gives_pure rfl
  · split
    · exact h.pure _
    · exact h.pure _
    · exact h.noPointer _

theorem writePointer (vec : Bytes) : C OutOfGas (Metered.writePointer invoke vec) := by
  unfold Metered.writePointer
  refine h.bind (h.malloc hinvoke _) ?_ fun r => ?_
  · rintro _ rfl
    exact gives_pure rfl
  · split
    · exact h.seq (h.writeMemory _ _) fun _ => h.pure _
    · exact h.pure _

theorem writeArguments (arguments : List Value) :
    C ArgumentOutOfGas (Metered.writeArguments invoke arguments) := by
  induction arguments with
  | nil => exact h.pure _
  | cons arg rest ih =>
      unfold Metered.writeArguments
      refine h.bind (h.writePointer hinvoke _) ?_ fun r => ?_
      · rintro _ rfl
        exact gives_pure rfl
      · split
        · refine h.bind ih ?_ fun r => ?_
          · rintro _ rfl
            exact gives_pure rfl
          · split
            · exact h.pure _
            · exact h.pure _
        · exact h.pure _
        · exact h.pure _

/-- Of a call: its arguments, the invocation, and the result. -/
theorem call (func : String) (arguments : List Value) :
    C (fun callEnd => callEnd.isOutOfGas = true) (Metered.call invoke func arguments) := by
  unfold Metered.call
  refine h.bind (h.writeArguments hinvoke arguments) ?_ fun r => ?_
  · rintro _ rfl
    exact gives_pure rfl
  · split
    · exact h.pure _
    · refine h.bind (hinvoke _ _) ?_ fun r => ?_
      · rintro _ rfl vm callEnd vm' hrun
        cases hrun
        rfl
      · split
        · exact h.seq h.commit fun _ => h.seq (h.readPointer _) fun bytes =>
            h.seq (h.result bytes) fun _ => h.pure _
        · exact h.seq h.rollback fun _ => h.pure _
        · exact h.noExport _
        · exact h.noPointer _

omit hinvoke in
theorem getState {lookup : Bytes → Metered P Bytes}
    (hlookup : ∀ key, C Never (lookup key)) (cost : Nat) (keyPointer : I32) :
    C OutOfGas (Metered.getState lookup cost keyPointer) := by
  unfold Metered.getState
  refine h.seq (h.readPointer _) fun key => h.seq (h.read _ fun _ _ _ => rfl) fun key' =>
    h.seq (hlookup _) fun value => h.payment _ _ (gives_pure rfl) fun r => ?_
  split
  · exact h.pure _
  · exact h.pure _

omit hinvoke in
theorem setState {write : Bytes → Bytes → Run P Unit}
    (hwrite : ∀ key value, C Never
      (quiet (VM.read (fun vm => vm.namespacedKey key) >>= fun k => write k value)))
    (cost : Nat) (keyPointer valuePointer : I32) :
    C OutOfGas (Metered.setState write cost keyPointer valuePointer) := by
  unfold Metered.setState
  refine h.seq (h.readPointer _) fun key => h.seq (h.readPointer _) fun value =>
    h.payment _ _ (gives_pure rfl) fun r => ?_
  split
  · exact h.pure _
  · exact h.seq (hwrite key value) fun _ => h.pure _

omit hinvoke in
theorem log (level message : I32) : C OutOfGas (Metered.log level message) := by
  unfold Metered.log
  exact h.seq (h.readPointer _) fun _ => h.seq (h.readPointer _) fun bytes =>
    h.seq (h.text bytes) fun _ => h.pure _

/-- Of a nested call: what the caller hands over, the callee, and the payment. -/
theorem externalCall {newModuleInstance : Bytes → Metered P (Instance P.Globals)}
    (hnew : ∀ code, C Never (newModuleInstance code)) (a f g : I32) :
    C OutOfGas (Metered.externalCall newModuleInstance invoke a f g) := by
  unfold Metered.externalCall
  refine h.seq (h.readPointer _) fun address => h.seq (h.readPointer _) fun nameBytes =>
    h.seq (h.text nameBytes) fun name => h.seq (h.readPointer _) fun argumentsBytes =>
      h.findCode argumentsBytes _ fun arguments code => ?_
  refine h.seq (hnew code) fun inst =>
    h.settle inst address name arguments (h.call hinvoke name arguments)
      fun callEnd paid => ?_
  cases paid with
  | error trap => exact ⟨.error trap, fun _ => rfl⟩
  | ok _ => exact ⟨.ok (toBytes P callEnd.result), fun _ => rfl⟩

theorem answer (r : Except TrapKind Bytes) : C OutOfGas (Metered.answer invoke r) := by
  cases r with
  | error trap => exact h.pure _
  | ok bytes => exact h.writePointer hinvoke bytes

/-- What a host function answers; its trap is the guest's. -/
theorem answered {x : Metered P (Except TrapKind Bytes)} (hx : C OutOfGas x) :
    C OutOfGas (x >>= Metered.answer invoke) := by
  refine h.bind hx ?_ (h.answer hinvoke)
  rintro _ rfl
  exact gives_pure rfl

theorem invokeIndex {newModuleInstance : Bytes → Metered P (Instance P.Globals)}
    (hnew : ∀ code, C Never (newModuleInstance code)) (index : Nat) (args : List I32) :
    C OutOfGas (Metered.invokeIndex newModuleInstance invoke index args) := by
  have hfield : ∀ field : VM P → Bytes, (∀ vm gas limit, field { vm with
        gas := gas
        transaction := { vm.transaction with gasLimit := limit } } = field vm) →
      C OutOfGas (do Metered.writePointer invoke (← quiet (VM.read field))) :=
    fun field hfield => h.seq (h.read field hfield) fun bytes => h.writePointer hinvoke bytes
  unfold Metered.invokeIndex
  refine h.seq (h.host index) fun _ => ?_
  split
  · exact hfield _ fun _ _ _ => rfl
  · exact hfield _ fun _ _ _ => rfl
  · exact hfield _ fun _ _ _ => rfl
  · exact hfield _ fun _ _ _ => rfl
  · exact hfield _ fun _ _ _ => rfl
  · exact hfield _ fun _ _ _ => rfl
  · exact h.seq (h.nth _ _) fun key => h.answered hinvoke (h.getState h.memoryGet _ _)
  · exact h.seq (h.nth _ _) fun key => h.seq (h.nth _ _) fun value =>
      h.setState h.memorySet _ _ _
  · exact h.seq (h.nth _ _) fun key => h.answered hinvoke (h.getState h.storageGet _ _)
  · exact h.seq (h.nth _ _) fun key => h.seq (h.nth _ _) fun value =>
      h.setState h.storageSet _ _ _
  · exact h.pure _
  · exact h.seq (h.nth _ _) fun a => h.seq (h.nth _ _) fun f => h.seq (h.nth _ _) fun g =>
      h.answered hinvoke (h.externalCall hinvoke hnew a f g)
  · exact h.seq (h.nth _ _) fun level => h.seq (h.nth _ _) fun message =>
      h.log level message
  · exact h.noHost _

end

theorem invokeExport {guest : P.Act → Metered P (Except TrapKind (Option RuntimeValue))}
    (hguest : ∀ act, C OutOfGas (guest act)) (name : String) (args : List RuntimeValue) :
    C InvokeOutOfGas (Metered.invokeExport guest name args) := by
  unfold Metered.invokeExport
  refine h.seq (h.read _ fun _ _ _ => rfl) fun inst => ?_
  split
  · exact h.pure _
  · refine h.bind (hguest _) ?_ fun r => ?_
    · rintro _ rfl
      exact gives_pure rfl
    · split
      · exact h.pure _
      · exact h.pure _

/-- Of an invocation with what is on the native stack. -/
theorem invokeWithin
    {guest : List String → P.Act → Metered P (Except TrapKind (Option RuntimeValue))}
    (hguest : ∀ stack act, C OutOfGas (guest stack act)) (stack : List String)
    (name : String) (args : List RuntimeValue) :
    C InvokeOutOfGas (Metered.invokeWithin P guest stack name args) := by
  unfold Metered.invokeWithin
  exact h.seq (h.enter _) fun _ => h.invokeExport (hguest _) name args

/-- The property holds of every guest's run.  The induction is on the budget. -/
theorem runGuest (fuel : Nat) (stack : List String) (act : P.Act) :
    C OutOfGas (Metered.runGuest P fuel stack act) := by
  induction fuel generalizing stack act with
  | zero => exact h.outOfFuel
  | succ fuel ih =>
      unfold Metered.runGuest
      refine h.seq (h.read _ fun _ _ _ => rfl) fun inst => ?_
      split
      · refine h.bind h.payInstruction ?_ fun r => ?_
        · rintro _ rfl
          exact gives_pure rfl
        · split
          · exact h.pure _
          · exact h.seq (h.moduleInstance _) fun _ => ih _ _
      · refine h.bind (h.invokeIndex (h.invokeWithin ih stack) (h.newModuleInstance fuel) _ _)
          ?_ fun r => ?_
        · rintro _ rfl
          exact gives_pure rfl
        · split
          · exact h.pure _
          · exact ih _ _
      · exact h.pure _
      · exact h.pure _

theorem invoke (fuel : Nat) (stack : List String) (name : String) (args : List RuntimeValue) :
    C InvokeOutOfGas (Metered.invoke P fuel stack name args) :=
  h.invokeWithin (h.runGuest fuel) stack name args

/-- Of a call with the interpreter's own invocation. -/
theorem callOn (fuel : Nat) (stack : List String) (func : String) (arguments : List Value) :
    C (fun callEnd => callEnd.isOutOfGas = true)
      (Metered.call (Metered.invoke P fuel stack) func arguments) :=
  h.call (h.invoke fuel stack) func arguments

end GuardedRule

/-- Of a call with the interpreter's own invocation. -/
theorem AccountRule.callOn {C : ∀ {α : Type}, Metered P α → Prop} (h : AccountRule C)
    (fuel : Nat) (stack : List String) (func : String) (arguments : List Value) :
    C (Metered.call (Metered.invoke P fuel stack) func arguments) :=
  h.guarded.callOn fuel stack func arguments

end Ellipticoind.Ports
