import Ellipticoind.Ports.AccountRun

/-!
# The instructions that a transaction executes

The interpreter asks `use_gas` before each instruction, except in a start function:
`new_module_instance` runs it with `NopExternals`, which charges nothing.  So the
account has instructions that were paid for, and start functions.

## Main results

* `paid_within_gas` — the instructions that are paid for are within the gas.
* `instructions_within_gas` — so are all, if start functions execute none.
-/

namespace Ellipticoind.Ports

open Ellipticoind.Verified.Account
open Ellipticoind.Verified.StateRun

variable {P : Platform}

/-! ## Counting -/

/-- The instructions a start function executes before it ends, fails or runs out of
budget. -/
def startLength (P : Platform) : Nat → P.Act → Instance P.Globals → Nat
  | 0, _, _ => 0
  | fuel + 1, act, inst =>
      match P.step act inst with
      | .instruction act' inst' => startLength P fuel act' inst' + 1
      | _ => 0

/-- Those of a module's start function, if it has one. -/
def startInstructions (P : Platform) (fuel : Nat) (code : Bytes) : Nat :=
  match P.load code with
  | some (inst, some act) => startLength P fuel act inst
  | _ => 0

/-- The instructions that are paid for. -/
def Mark.paid : Mark → Nat
  | .metered => 1
  | _ => 0

/-- All instructions. -/
def Mark.executed (P : Platform) : Mark → Nat
  | .metered => 1
  | .start code fuel => startInstructions P fuel code
  | _ => 0

namespace Metered

open Logged (quiet asked note)

/-! ## What is paid for is within the gas -/

/-- No operation of a frame raises its gas. -/
theorem frameRelation_shrinks : FrameRelation (Shrinks (VM.gas (P := P))) where
  refl _ n hn := ⟨n, hn, le_rfl⟩
  trans h₁ h₂ n hn := by
    obtain ⟨m, hm, hle⟩ := h₁ n hn
    obtain ⟨k, hk, hle'⟩ := h₂ m hm
    exact ⟨k, hk, hle'.trans hle⟩
  useGas vm gas amount hgas _ n hn := by
    cases hgas.symm.trans hn
    exact ⟨gas - amount, rfl, Nat.sub_le _ _⟩
  moduleInstance _ _ n hn := ⟨n, hn, le_rfl⟩
  host _ _ n hn := ⟨n, hn, le_rfl⟩
  memoryGet _ _ n hn := ⟨n, hn, le_rfl⟩
  storageGet _ _ n hn := ⟨n, hn, le_rfl⟩
  memorySet _ _ _ n hn := ⟨n, hn, le_rfl⟩
  storageSet _ _ _ n hn := ⟨n, hn, le_rfl⟩
  commit _ n hn := ⟨n, hn, le_rfl⟩
  rollback _ n hn := ⟨n, hn, le_rfl⟩
  nested _ _ _ _ _ _ _ n hn := ⟨n, hn, le_rfl⟩

/-- The paid instructions of the computation are within the frame's gas. -/
abbrev InGas {α : Type} (x : Metered P α) : Prop := Within Mark.paid VM.gas x

/-- Entries that are no paid instructions. -/
theorem inGas_asked {α : Type} {entry : VM P → Mark} {x : Run P α}
    (hcost : ∀ vm, (entry vm).paid = 0) (h : Guarantee (Shrinks VM.gas) x) :
    InGas (asked entry x) :=
  Within.asked hcost h

theorem payInstruction_eq {vm : VM P} {n : Nat} (hn : vm.gas = some n) :
    payInstruction vm =
      if n < 1 then (.ok (.error .outOfGas, vm), [])
      else (.ok (.ok (), { vm with gas := some (n - 1) }), [.metered]) := by
  show Logged.sequence _ _ _ = _
  unfold Logged.sequence quiet VM.useGas INSTRUCTION
  rw [hn]
  by_cases hlt : n < 1
  · simp only [if_pos hlt]
    rfl
  · simp only [if_neg hlt]
    rfl

theorem inGas_payInstruction : InGas (payInstruction : Metered P (Except TrapKind Unit)) := by
  constructor
  · intro vm n hn
    rw [payInstruction_eq hn]
    by_cases hlt : n < 1
    · rw [if_pos hlt]
      exact Nat.zero_le n
    · rw [if_neg hlt]
      exact Nat.not_lt.mp hlt
  · intro vm n r vm' hn hrun
    have hrun' : (payInstruction vm).1 = .ok (r, vm') := hrun
    rw [payInstruction_eq hn] at hrun' ⊢
    by_cases hlt : n < 1
    · rw [if_pos hlt] at hrun' ⊢
      cases hrun'
      exact ⟨n, hn, (Nat.zero_add n).le⟩
    · rw [if_neg hlt] at hrun' ⊢
      cases hrun'
      exact ⟨n - 1, rfl, by simp [Mark.paid]; omega⟩

/-- A callee has its caller's gas to spend, and says how much is left; the caller has
yet to pay. -/
theorem nestedCall_spends {invoke : MeteredInvoke P} {inst : Instance P.Globals}
    {address : Bytes} {name : String} {arguments : List Value}
    (hcall : InGas (call invoke name arguments)) (vm : VM P) (n : Nat)
    (hn : vm.gas = some n) :
    total Mark.paid (nestedCall invoke inst address name arguments vm).2 ≤ n ∧
      ∀ callEnd left vm', (nestedCall invoke inst address name arguments).run vm =
          .ok ((callEnd, left), vm') →
        vm'.gas = some n ∧ ∃ m, left = some m ∧
          total Mark.paid (nestedCall invoke inst address name arguments vm).2 + m ≤ n := by
  refine ⟨hcall.spent (vm.calleeFrame inst address name) n hn, ?_⟩
  intro callEnd left vm' hrun
  obtain ⟨callee, hcallee, rfl, rfl⟩ := nestedCall_run.mp hrun
  obtain ⟨m, hm, hle⟩ := hcall.left (vm.calleeFrame inst address name) n _ _ hn hcallee
  exact ⟨hn, m, hm, hle⟩

theorem costless_gasUsed (gasLeft : Option Nat) :
    Costless Mark.paid (gasUsed gasLeft : Metered P Nat) := by
  refine Costless.asked ?_ _
  exact fun _ => rfl

/-- The payment for a callee covers what it spent. -/
theorem inGas_settle {β : Type} {invoke : MeteredInvoke P} {inst : Instance P.Globals}
    {address : Bytes} {name : String} {arguments : List Value}
    {f : CallEnd × Option Nat → Except TrapKind Unit → Metered P β}
    (hcall : InGas (call invoke name arguments))
    (hpure : ∀ r paid, ∃ b, f r paid = Pure.pure b) :
    InGas (nestedCall invoke inst address name arguments >>= fun r =>
      gasUsed r.2 >>= fun used => quiet (VM.useGas used) >>= f r) := by
  refine Within.settle (fun vm n hn => (nestedCall_spends hcall vm n hn).1)
    (fun r => Costless.bind (costless_gasUsed r.2) fun used =>
      Costless.bind (Costless.quiet _) fun paid => ?_) ?_
  · obtain ⟨b, hb⟩ := hpure r paid
    rw [hb]
    exact Costless.pure b
  · rintro vm n ⟨callEnd, left⟩ vm₁ r vm₂ hn hnested hrest
    obtain ⟨hn₁, m, rfl, hle⟩ := (nestedCall_spends hcall vm n hn).2 _ _ _ hnested
    have hmn : m ≤ n := le_trans (Nat.le_add_left m _) hle
    obtain ⟨b, hb⟩ := hpure (callEnd, some m) (.ok ())
    have hend := (run_settle (f := f (callEnd, some m)) hn₁ hmn).symm.trans hrest
    rw [hb, Logged.run_pure] at hend
    cases pure_eq_ok.mp hend
    exact ⟨m, rfl, hle⟩

/-- What a guest's run pays for, nested calls of any depth included, is within the gas of
its frame. -/
theorem accountRule_inGas : AccountRule (P := P) InGas where
  pure := Within.pure
  bind := Within.bind
  read field := Within.quiet (frameRelation_shrinks.guarantee_read field)
  payment length cost _ hf := Within.bind
    (inGas_asked (fun _ => rfl) (frameRelation_shrinks.guarantee_bytesCost length cost))
    fun amount => Within.bind
      (Within.quiet (frameRelation_shrinks.guarantee_useGas amount)) hf
  payInstruction := inGas_payInstruction
  moduleInstance inst := Within.quiet (Guarantee.modify fun vm =>
    frameRelation_shrinks.moduleInstance vm inst)
  host index := Within.quiet (Guarantee.modify fun vm => frameRelation_shrinks.host vm index)
  commit := Within.quiet (Guarantee.modify frameRelation_shrinks.commit)
  rollback := Within.quiet (Guarantee.modify frameRelation_shrinks.rollback)
  readPointer ptr := inGas_asked (fun _ => rfl) (frameRelation_shrinks.guarantee_readPointer ptr)
  writeMemory pointer value := inGas_asked (fun _ => rfl)
    (frameRelation_shrinks.guarantee_writeMemory pointer value)
  nth args index := inGas_asked (fun _ => rfl) (frameRelation_shrinks.guarantee_nth args index)
  memoryGet key := inGas_asked (fun _ => rfl) (frameRelation_shrinks.guarantee_memoryGet key)
  storageGet key := inGas_asked (fun _ => rfl) (frameRelation_shrinks.guarantee_storageGet key)
  memorySet key value := Within.quiet (FrameRelation.guarantee_namespaced
    frameRelation_shrinks.guarantee_memorySet key value)
  storageSet key value := Within.quiet (FrameRelation.guarantee_namespaced
    frameRelation_shrinks.guarantee_storageSet key value)
  text _ := inGas_asked (fun _ => rfl) (Guarantee.lift frameRelation_shrinks.refl _)
  arguments _ := inGas_asked (fun _ => rfl) (Guarantee.lift frameRelation_shrinks.refl _)
  result _ := inGas_asked (fun _ => rfl) (Guarantee.lift frameRelation_shrinks.refl _)
  newModuleInstance _ _ := inGas_asked (fun _ => rfl)
    (Guarantee.lift frameRelation_shrinks.refl _)
  enter names := inGas_asked (fun _ => rfl) (frameRelation_shrinks.guarantee_enter names)
  noPointer _ := inGas_asked (fun _ => rfl) (Guarantee.throw _)
  noExport _ := inGas_asked (fun _ => rfl) (Guarantee.throw _)
  noHost _ := inGas_asked (fun _ => rfl) (Guarantee.throw _)
  outOfFuel := inGas_asked (fun _ => rfl) (Guarantee.throw _)
  settle _ _ _ _ := inGas_settle

end Metered

/-! ## Transactions -/

/-- The instructions that are paid for are within the gas the transaction starts
with. -/
theorem paid_within_gas (fuel : Nat) (t : Transaction) (memory : Memory) (storage : Storage)
    (env : Env) :
    total Mark.paid (Metered.execute P fuel t memory storage env ()).2 ≤
      t.gasLimit % 2 ^ 32 := by
  have hspends : Spends Mark.paid (0 + (0 + (t.gasLimit % 2 ^ 32 + 0)))
      (Metered.execute P fuel t memory storage env) := by
    unfold Metered.execute
    refine Spends.bind (Spends.asked rfl) fun code => ?_
    split
    · exact Nat.zero_le _
    · refine Spends.bind (Spends.asked rfl) fun inst => Spends.bind (Spends.startedOn ?_)
        fun r => Spends.pure _
      exact (Metered.accountRule_inGas.callOn fuel [] t.function t.arguments).spent
        (t.frame inst memory storage env) _ rfl
  simpa [Spends] using hspends

/-- The module's start function, if it has one, executes no instruction. -/
def StartsIdle (P : Platform) (code : Bytes) : Prop :=
  ∀ inst act, P.load code = some (inst, some act) →
    ∀ act' inst', P.step act inst ≠ .instruction act' inst'

theorem startInstructions_of_idle {code : Bytes} (h : StartsIdle P code) (fuel : Nat) :
    startInstructions P fuel code = 0 := by
  unfold startInstructions
  split
  · rename_i inst act hload
    cases fuel with
    | zero => rfl
    | succ fuel =>
        unfold startLength
        split
        · rename_i act' inst' hstep
          exact absurd hstep (h inst act hload act' inst')
        · rfl
  · rfl

/-- Where start functions are idle, every instruction is paid for. -/
theorem executed_eq_paid {entries : List Mark}
    (h : ∀ code fuel, .start code fuel ∈ entries → StartsIdle P code) :
    total (Mark.executed P) entries = total Mark.paid entries := by
  refine total_congr fun mark hmark => ?_
  cases mark with
  | metered => rfl
  | start code fuel => exact startInstructions_of_idle (h code fuel hmark) fuel
  | _ => rfl

/-- **When a transaction runs on its gas.**  Whatever the contracts do and however their
calls nest, a transaction executes no more instructions than the gas it starts with,
at any moment of its run and whether it ends or not, if no module that is instantiated
for it has a start function that executes an instruction. -/
theorem instructions_within_gas {fuel : Nat} {t : Transaction} {memory : Memory}
    {storage : Storage} {env : Env}
    (hidle : ∀ code fuel', .start code fuel' ∈
      (Metered.execute P fuel t memory storage env ()).2 → StartsIdle P code) :
    total (Mark.executed P) (Metered.execute P fuel t memory storage env ()).2 ≤
      t.gasLimit % 2 ^ 32 := by
  rw [executed_eq_paid hidle]
  exact paid_within_gas fuel t memory storage env

/-! ## A start function -/

namespace Script

/-- The contracts of a platform, each with a start function of some instructions. -/
def withStart (P : Platform) (start : P.Act) : Platform where
  __ := P
  load code := (P.load code).map fun loaded => (loaded.1, some start)

/-- A contract whose function answers at once. -/
def answering : Contract where
  exports := [("f", [.answer 0])]
  memory := slot [0, 0, 0, 0, 0xf6]

/-- Its start function executes three instructions. -/
def startPlatform : Platform :=
  withStart (platform [([1], answering)])
    ([.instruction, .instruction, .instruction, .answer 0], none)

/-- A transaction that can pay for two. -/
def poorCall : Transaction := { callA "f" with gasLimit := 2 }

/-- The stores' view of a contract at the address `A`. -/
def answeringStorage : Storage := Storage.new ∅ ∅ (deployed [([65], [1])])

end Script

open Script in
/-- Three instructions are executed on a gas of two. -/
theorem start_function_unmetered :
    ¬ ∀ (P : Platform) (fuel : Nat) (t : Transaction) (memory : Memory) (storage : Storage)
      (env : Env),
      total (Mark.executed P) (Metered.execute P fuel t memory storage env ()).2 ≤
        t.gasLimit % 2 ^ 32 := by
  intro h
  have hrun : total (Mark.executed startPlatform) (Metered.execute startPlatform 10 poorCall
      (Memory.new ∅ ∅) answeringStorage firstBlock ()).2 = 3 := by rfl
  have hle := h startPlatform 10 poorCall (Memory.new ∅ ∅) answeringStorage firstBlock
  rw [hrun] at hle
  exact absurd hle (by decide)

open Script in
/-- Without the start function the same transaction is within its gas. -/
theorem instructions_within_gas_at_poorCall :
    total (Mark.executed (platform [([1], answering)]))
        (Metered.execute (platform [([1], answering)]) 10 poorCall (Memory.new ∅ ∅)
          answeringStorage firstBlock ()).2 ≤ 2 % 2 ^ 32 := by
  refine instructions_within_gas fun code fuel' _ inst act hload => ?_
  obtain ⟨contract, _, hloaded⟩ := Option.map_eq_some_iff.mp hload
  cases hloaded

end Ellipticoind.Ports
