import Ellipticoind.Ports.BytePrice
import Ellipticoind.Ports.Metering
import Ellipticoind.Ports.NestedCall

/-!
# What a transaction is charged

The account of a transaction has an entry for each instruction paid for and one for each
price of some bytes.  `charged` takes them in turn from one counter, which starts at the
gas limit's low 32 bits: a cost is charged if the counter holds it.

The frames of a transaction have a counter each.  That they leave what the one counter
leaves is the law of conservation below.

## Main results

* `accountRule_counted` — every frame's counter goes as the account does.
* `charged_exactly` — so the sender is charged the sum of the costs charged.
-/

namespace Ellipticoind.Ports

open Ellipticoind.Verified.Account
open Ellipticoind.Verified.StateRun

variable {P : Platform}

/-! ## The costs charged -/

/-- The cost that an entry asks `use_gas` for. -/
def Mark.cost : Mark → Nat
  | .metered => INSTRUCTION
  | .price length cost => wrappedPrice length cost
  | _ => 0

/-- What a counter is charged for an entry: its cost, if it holds that much. -/
def Mark.charge (gas : Nat) (mark : Mark) : Nat :=
  if mark.cost ≤ gas then mark.cost else 0

/-- A counter after an entry. -/
def Mark.pay (gas : Nat) (mark : Mark) : Nat := gas - mark.charge gas

/-- The sum of the costs charged to a counter. -/
def charged : Nat → List Mark → Nat
  | _, [] => 0
  | gas, mark :: rest => mark.charge gas + charged (mark.pay gas) rest

theorem Mark.charge_le (gas : Nat) (mark : Mark) : mark.charge gas ≤ gas := by
  unfold Mark.charge
  split
  · assumption
  · exact Nat.zero_le gas

theorem Mark.pay_of_free {mark : Mark} (h : mark.cost = 0) (gas : Nat) :
    mark.pay gas = gas := by
  simp [Mark.pay, Mark.charge, h]

theorem Mark.pay_of_le {mark : Mark} {gas : Nat} (h : mark.cost ≤ gas) :
    mark.pay gas = gas - mark.cost := by
  simp [Mark.pay, Mark.charge, h]

theorem Mark.pay_of_lt {mark : Mark} {gas : Nat} (h : gas < mark.cost) :
    mark.pay gas = gas := by
  simp [Mark.pay, Mark.charge, Nat.not_le.mpr h]

theorem charged_of_free {mark : Mark} (h : mark.cost = 0) (gas : Nat) (rest : List Mark) :
    charged gas (mark :: rest) = charged gas rest := by
  rw [charged, Mark.pay_of_free h]
  simp [Mark.charge, h]

/-- What a counter holds after some entries, and what it was charged for them. -/
theorem pay_add_charged (entries : List Mark) (gas : Nat) :
    entries.foldl (fun gas mark => mark.pay gas) gas + charged gas entries = gas := by
  induction entries generalizing gas with
  | nil => rfl
  | cons mark rest ih =>
      have hle := mark.charge_le gas
      have hrest := ih (mark.pay gas)
      rw [List.foldl_cons, charged]
      unfold Mark.pay at hrest ⊢
      omega

/-! ## Every frame's counter -/

namespace Metered

open Logged (quiet asked note)

/-- A result leaves the frame's counter where the account does. -/
abbrev Counted {α : Type} (x : Metered P α) : Prop :=
  Follows (fun gas mark => mark.pay gas) VM.gas x

theorem counted_asked {α : Type} {entry : VM P → Mark} {x : Run P α}
    (hfree : ∀ vm, (entry vm).cost = 0) (h : Guarantee (fun vm vm' => vm'.gas = vm.gas) x) :
    Counted (asked entry x) :=
  Follows.asked (fun vm n => Mark.pay_of_free (hfree vm) n) h

/-- The computation leaves the counter alone. -/
abbrev KeepsGas {α : Type} (x : Run P α) : Prop := Guarantee (fun vm vm' => vm'.gas = vm.gas) x

theorem keepsGas_lift {α : Type} (x : Except Stop α) : KeepsGas (liftM x : Run P α) :=
  fun vm a vm' h => by rw [(lift_eq_ok.mp h).2]

theorem keepsGas_enter (names : List String) :
    KeepsGas (VM.enter names : Run P Unit) := by
  intro vm r vm' h
  unfold VM.enter at h
  split at h
  · cases pure_eq_ok.mp h
    rfl
  · cases throw_ne_ok h

theorem keepsGas_readPointer (ptr : I32) : KeepsGas (VM.readPointer ptr : Run P Bytes) := by
  intro vm bytes vm' h
  rw [readPointer_state h]

theorem keepsGas_writeMemory (pointer : I32) (value : Bytes) :
    KeepsGas (VM.writeMemory pointer value : Run P Unit) := by
  intro vm r vm' h
  unfold VM.writeMemory at h
  obtain ⟨memory, vm₁, hread, h⟩ := bind_eq_ok.mp h
  cases (read_eq_ok.mp hread).2
  split at h
  · cases throw_ne_ok h
  · split at h
    · cases modify_eq_ok.mp h
      rfl
    · cases throw_ne_ok h
  · split at h
    · cases pure_eq_ok.mp h
      rfl
    · cases throw_ne_ok h

theorem keepsGas_memoryGet (key : Bytes) : KeepsGas (VM.memoryGet key : Run P Bytes) := by
  intro vm value vm' h
  obtain ⟨_, vm₁, hemit, h⟩ := bind_eq_ok.mp h
  cases modify_eq_ok.mp hemit
  obtain ⟨_, vm₂, hread, h⟩ := bind_eq_ok.mp h
  rw [(lift_eq_ok.mp h).2, (read_eq_ok.mp hread).2]

theorem keepsGas_storageGet (key : Bytes) : KeepsGas (VM.storageGet key : Run P Bytes) := by
  intro vm value vm' h
  rw [storageGet_state h]

theorem keepsGas_memorySet (key value : Bytes) :
    KeepsGas (VM.memorySet key value : Run P Unit) := Guarantee.modify fun _ => rfl

theorem keepsGas_storageSet (key value : Bytes) :
    KeepsGas (VM.storageSet key value : Run P Unit) := Guarantee.modify fun _ => rfl

theorem keepsGas_write {write : Bytes → Bytes → Run P Unit}
    (hwrite : ∀ key value, KeepsGas (write key value)) (key value : Bytes) :
    KeepsGas (VM.read (fun vm => vm.namespacedKey key) >>= fun k => write k value) := by
  intro vm r vm' h
  obtain ⟨k, vm₁, hread, h⟩ := bind_eq_ok.mp h
  cases (read_eq_ok.mp hread).2
  exact hwrite k value vm r vm' h

theorem counted_payInstruction :
    Counted (payInstruction : Metered P (Except TrapKind Unit)) := by
  intro vm n r vm' hn hrun
  have hrun' : (payInstruction vm).1 = .ok (r, vm') := hrun
  rw [payInstruction_eq hn] at hrun' ⊢
  by_cases hlt : n < 1
  · rw [if_pos hlt] at hrun' ⊢
    cases hrun'
    exact hn
  · rw [if_neg hlt] at hrun' ⊢
    cases hrun'
    have hpay : Mark.pay n .metered = n - 1 := Mark.pay_of_le (Nat.not_lt.mp hlt)
    exact congrArg some hpay.symm

theorem counted_payment {α : Type} {length cost : Nat}
    {f : Except TrapKind Unit → Metered P α} (hf : ∀ r, Counted (f r)) :
    Counted (bytesCost length cost >>= fun amount => quiet (VM.useGas amount) >>= f) := by
  intro vm n a vm' hn hrun
  rw [Logged.run_bind] at hrun
  obtain ⟨amount, vm₁, hprice, hrest⟩ := bind_eq_ok.mp hrun
  have hover : ¬ Overflows P length cost := fun hover =>
    nomatch (bytesCost_of_overflows hover vm).symm.trans hprice
  cases (bytesCost_eq hover vm).symm.trans hprice
  rw [Logged.run_bind] at hrest
  obtain ⟨r, vm₂, hpaid, hrest⟩ := bind_eq_ok.mp hrest
  rw [Logged.log_bind hprice, Logged.log_bind hpaid]
  show vm'.gas = some ((f r vm₂).2.foldl _ (Mark.pay n (.price length cost)))
  refine hf r vm₂ _ a vm' ?_ hrest
  rw [Logged.run_quiet] at hpaid
  by_cases hlt : n < wrappedPrice length cost
  · cases (useGas_refused hn hlt).symm.trans hpaid
    rw [Mark.pay_of_lt hlt]
    exact hn
  · have hle := Nat.not_lt.mp hlt
    cases (useGas_paid hn hle).symm.trans hpaid
    have hpay : Mark.pay n (.price length cost) = n - wrappedPrice length cost :=
      Mark.pay_of_le hle
    exact congrArg some hpay.symm

/-- The caller's counter has waited for its callee, whose counter goes on from it. -/
theorem counted_nestedCall {invoke : MeteredInvoke P} {inst : Instance P.Globals}
    {address : Bytes} {name : String} {arguments : List Value}
    (hcall : Counted (call invoke name arguments)) {vm vm' : VM P} {n : Nat}
    {callEnd : CallEnd} {left : Option Nat} (hn : vm.gas = some n)
    (hrun : (nestedCall invoke inst address name arguments).run vm =
      .ok ((callEnd, left), vm')) :
    vm'.gas = some n ∧ left = some ((nestedCall invoke inst address name arguments vm).2.foldl
      (fun gas mark => mark.pay gas) n) := by
  obtain ⟨callee, hcallee, rfl, rfl⟩ := nestedCall_run.mp hrun
  exact ⟨hn, hcall (vm.calleeFrame inst address name) n _ _ hn hcallee⟩

/-- The caller is left with what its callee was left with. -/
theorem counted_settle {β : Type} {invoke : MeteredInvoke P} {inst : Instance P.Globals}
    {address : Bytes} {name : String} {arguments : List Value}
    {f : CallEnd × Option Nat → Except TrapKind Unit → Metered P β}
    (hcall : Counted (call invoke name arguments))
    (hpure : ∀ r paid, ∃ b, f r paid = Pure.pure b) :
    Counted (nestedCall invoke inst address name arguments >>= fun r =>
      gasUsed r.2 >>= fun used => quiet (VM.useGas used) >>= f r) := by
  intro vm n b vm' hn hrun
  rw [Logged.run_bind] at hrun
  obtain ⟨⟨callEnd, left⟩, vm₁, hnested, hrest⟩ := bind_eq_ok.mp hrun
  obtain ⟨hn₁, rfl⟩ := counted_nestedCall hcall hn hnested
  rw [Logged.log_bind hnested, List.foldl_append]
  have hle := pay_add_charged (nestedCall invoke inst address name arguments vm).2 n
  generalize (nestedCall invoke inst address name arguments vm).2.foldl _ n = m at hle hrest ⊢
  have hle' : m ≤ n := Nat.le.intro hle
  rw [Logged.run_bind] at hrest
  obtain ⟨used, vm₂, hused, hrest⟩ := bind_eq_ok.mp hrest
  cases (gasUsed_eq hn₁ hle').symm.trans hused
  rw [Logged.log_bind hused]
  rw [Logged.run_bind] at hrest
  obtain ⟨paid, vm₃, hpaid, hrest⟩ := bind_eq_ok.mp hrest
  rw [Logged.log_bind hpaid]
  cases (useGas_paid hn₁ (Nat.sub_le n m)).symm.trans hpaid
  obtain ⟨c, hc⟩ := hpure (callEnd, some m) (.ok ())
  rw [hc] at hrest ⊢
  cases hrest
  exact congrArg some (Nat.sub_sub_self hle')

/-- Every frame's counter goes as the account does, through nested calls of any depth. -/
theorem accountRule_counted : AccountRule (P := P) Counted where
  pure := Follows.pure
  bind := Follows.bind
  read _ := Follows.quiet fun _ _ _ h => by rw [(read_eq_ok.mp h).2]
  payment _ _ _ hf := counted_payment hf
  payInstruction := counted_payInstruction
  moduleInstance _ := Follows.quiet (Guarantee.modify fun _ => rfl)
  host _ := Follows.quiet (Guarantee.modify fun _ => rfl)
  commit := Follows.quiet (Guarantee.modify fun _ => rfl)
  rollback := Follows.quiet (Guarantee.modify fun _ => rfl)
  readPointer ptr := counted_asked (fun _ => rfl) (keepsGas_readPointer ptr)
  writeMemory pointer value := counted_asked (fun _ => rfl) (keepsGas_writeMemory pointer value)
  nth _ _ := counted_asked (fun _ => rfl) (keepsGas_lift _)
  memoryGet key := counted_asked (fun _ => rfl) (keepsGas_memoryGet key)
  storageGet key := counted_asked (fun _ => rfl) (keepsGas_storageGet key)
  memorySet key value := Follows.quiet (keepsGas_write keepsGas_memorySet key value)
  storageSet key value := Follows.quiet (keepsGas_write keepsGas_storageSet key value)
  text _ := counted_asked (fun _ => rfl) (keepsGas_lift _)
  arguments _ := counted_asked (fun _ => rfl) (keepsGas_lift _)
  result _ := counted_asked (fun _ => rfl) (keepsGas_lift _)
  newModuleInstance _ _ := counted_asked (fun _ => rfl) (keepsGas_lift _)
  enter names := counted_asked (fun _ => rfl) (keepsGas_enter names)
  noPointer _ := counted_asked (fun _ => rfl) (Guarantee.throw _)
  noExport _ := counted_asked (fun _ => rfl) (Guarantee.throw _)
  noHost _ := counted_asked (fun _ => rfl) (Guarantee.throw _)
  outOfFuel := counted_asked (fun _ => rfl) (Guarantee.throw _)
  settle _ _ _ _ := counted_settle

end Metered

/-! ## The outermost frame -/

/-- The counter that a transaction starts with. -/
def Transaction.startGas (t : Transaction) : Nat := t.gasLimit % 2 ^ 32

/-- What is charged for a transaction, over its whole call tree. -/
def Transaction.gasCharged (P : Platform) (fuel : Nat) (t : Transaction) (memory : Memory)
    (storage : Storage) (env : Env) : Nat :=
  charged t.startGas (Metered.execute P fuel t memory storage env ()).2

/-- A transaction found no code, or called its contract; its account is of that. -/
theorem execute_cases {fuel : Nat} {t : Transaction} {memory : Memory} {storage : Storage}
    {env : Env} {e : Executed} (h : t.execute P fuel memory storage env = .ok e) :
    ∃ code, storage.get (rightPadVec t.contractAddress 64 0) = some code ∧
      ((code.length = 0 ∧ (Metered.execute P fuel t memory storage env ()).2 =
          [.entry (some code)] ∧ e = {
            memoryChangeset := memory.changeset
            storageChangeset := storage.changeset
            ending := .contractNotFound
            gasLeft := some t.startGas
            trace := [] }) ∨
        (code.length ≠ 0 ∧ ∃ inst callEnd vm, newModuleInstance P fuel code = .ok inst ∧
          (Metered.call (Metered.invoke P fuel []) t.function t.arguments).run
            (t.frame inst memory storage env) = .ok (callEnd, vm) ∧
          (Metered.execute P fuel t memory storage env ()).2 =
            .entry (some code) :: .start code fuel ::
              (Metered.call (Metered.invoke P fuel []) t.function t.arguments
                (t.frame inst memory storage env)).2 ∧ e = {
            memoryChangeset := vm.memory.changeset
            storageChangeset := vm.storage.changeset
            ending := .called callEnd
            gasLeft := vm.gas
            trace := vm.trace })) := by
  unfold Transaction.execute at h
  obtain ⟨code, hcode, h⟩ := except_bind_eq_ok.mp h
  have hvalue := unwrap_eq_ok.mp hcode
  refine ⟨code, hvalue, ?_⟩
  have hentry : (Logged.asked (fun _ : Unit => Mark.entry (some code))
      (liftM (unwrap (some code)))).run () = .ok (code, ()) := lift_eq_ok.mpr ⟨rfl, rfl⟩
  unfold Metered.execute
  dsimp only
  rw [hvalue, Logged.log_bind hentry]
  split at h
  · rename_i hempty
    rw [if_pos hempty]
    cases h
    exact .inl ⟨hempty, rfl, rfl⟩
  · rename_i hfound
    rw [if_neg hfound]
    obtain ⟨inst, hinst, h⟩ := except_bind_eq_ok.mp h
    obtain ⟨⟨callEnd, vm⟩, hcall, h⟩ := except_bind_eq_ok.mp h
    cases h
    rw [← Metered.forget_invoke, ← Metered.run_call] at hcall
    have hstart : (Logged.asked (fun _ : Unit => Mark.start code fuel)
        (liftM (newModuleInstance P fuel code))).run () = .ok (inst, ()) :=
      lift_eq_ok.mpr ⟨hinst, rfl⟩
    have hends : (Logged.startedOn (t.frame inst memory storage env)
        (Metered.call (Metered.invoke P fuel []) t.function t.arguments)).run () =
          .ok ((callEnd, vm), ()) := congrArg (Except.map fun r => (r, ())) hcall
    rw [Logged.log_bind hstart, Logged.log_bind hends]
    refine .inr ⟨hfound, inst, callEnd, vm, hinst, hcall, ?_, rfl⟩
    exact congrArg (_ :: _ :: ·) (List.append_nil _)

/-- The gas left and what was charged make up the start. -/
theorem execute_gasLeft {fuel : Nat} {t : Transaction} {memory : Memory} {storage : Storage}
    {env : Env} {e : Executed} (h : t.execute P fuel memory storage env = .ok e) :
    ∃ left, e.gasLeft = some left ∧
      left + t.gasCharged P fuel memory storage env = t.startGas := by
  unfold Transaction.gasCharged
  obtain ⟨code, _, ⟨_, hlog, rfl⟩ | ⟨_, inst, callEnd, vm, _, hcall, hlog, rfl⟩⟩ :=
    execute_cases h
  · rw [hlog]
    exact ⟨t.startGas, rfl, pay_add_charged [.entry (some code)] _⟩
  · rw [hlog, charged_of_free rfl, charged_of_free rfl]
    have hcounted : Metered.Counted (Metered.call (Metered.invoke P fuel []) t.function
        t.arguments) :=
      Metered.accountRule_counted.callOn fuel _ _ _
    exact ⟨_, hcounted _ t.startGas callEnd vm rfl hcall, pay_add_charged _ t.startGas⟩

/-- The difference of the limit and the gas left, in the source's widths. -/
theorem gasUsed_of_left {limit left amount : Nat} (h : left + amount = limit % 2 ^ 32) :
    subU64 P limit left = .ok (limit - left) ∧ (limit - left) % 2 ^ 32 = amount := by
  have hle : left ≤ limit := by
    have hmod := Nat.mod_le limit (2 ^ 32)
    omega
  refine ⟨if_pos hle, ?_⟩
  omega

/-- The transfer that a user's transaction makes for its gas. -/
theorem runOutcome_charges {fuel : Nat} {redis : Redis} {rocksdb : RocksDB} {t : Transaction}
    {env : Env} {memoryChangeset storageChangeset : Changeset} {e : Executed}
    (hsystem : SystemContracts.isSystemContract t = false)
    (h : t.execute P fuel (Memory.new redis memoryChangeset)
      (Storage.new redis rocksdb storageChangeset) env = .ok e) :
    runOutcome P fuel redis rocksdb t env memoryChangeset storageChangeset = (do
      let gas ← SystemContracts.transfer P fuel t redis rocksdb e.memoryChangeset ∅ env
        (t.gasCharged P fuel (Memory.new redis memoryChangeset)
          (Storage.new redis rocksdb storageChangeset) env) t.sender env.blockWinner
      return {
        memoryChangeset := gas.memoryChangeset
        storageChangeset := e.storageChangeset
        result := e.ending.result
        trace := e.trace ++ gas.trace }) := by
  obtain ⟨left, hleft, hsum⟩ := execute_gasLeft h
  obtain ⟨hused, hamount⟩ := gasUsed_of_left (P := P) hsum
  unfold runOutcome
  dsimp only
  rw [hsystem, if_neg Bool.false_ne_true, h]
  show (unwrap e.gasLeft >>= fun left => subU64 P t.gasLimit left >>= _) = _
  rw [hleft]
  show (subU64 P t.gasLimit left >>= _) = _
  rw [hused]
  show (SystemContracts.transfer P fuel t redis rocksdb e.memoryChangeset ∅ env
    ((t.gasLimit - left) % 2 ^ 32) t.sender env.blockWinner >>= _) = _
  rw [hamount]

/-- A nested call answers with its callee's gas; the caller's own is as it was. -/
theorem nestedCall_gas {invoke : Invoke P} {inst : Instance P.Globals} {address : Bytes}
    {name : String} {arguments : List Value} {vm vm' : VM P} {callEnd : CallEnd}
    {gasLeft : Option Nat}
    (h : VM.nestedCall invoke inst address name arguments vm =
      .ok ((callEnd, gasLeft), vm')) :
    vm'.gas = vm.gas ∧ ∃ callee, callee.gas = gasLeft ∧
      VM.call invoke name arguments (vm.calleeFrame inst address name) =
        .ok (callEnd, callee) := by
  unfold VM.nestedCall at h
  obtain ⟨⟨callEnd', callee⟩, hcall, h⟩ := except_bind_eq_ok.mp h
  cases h
  exact ⟨rfl, callee, rfl, hcall⟩

/-- A completed nested call leaves its caller with the gas that its callee had left; one
for which there is no code uses none. -/
theorem externalCall_gas {fuel : Nat} {stack : List String} {a f g : I32} {vm vm' : VM P}
    {n : Nat} {r : Except TrapKind Bytes} (hn : vm.gas = some n)
    (h : VM.externalCall (newModuleInstance P fuel) (invoke P fuel stack) a f g vm =
      .ok (r, vm')) :
    ∃ address code, vm.storage.get (rightPadVec address 64 0) = some code ∧
      ((code.length = 0 ∧ vm' = vm.lookedUp (rightPadVec address 64 0)) ∨
        (code.length ≠ 0 ∧ ∃ inst name arguments callEnd callee left,
          newModuleInstance P fuel code = .ok inst ∧
          VM.call (invoke P fuel stack) name arguments
              ((vm.lookedUp (rightPadVec address 64 0)).calleeFrame inst address name) =
            .ok (callEnd, callee) ∧
          callee.gas = some left ∧ left ≤ n ∧ vm'.gas = some left ∧
          r = .ok (toBytes P callEnd.result))) := by
  obtain ⟨address, code, hcode, ⟨hempty, rfl⟩ | ⟨hne, inst, name, arguments, callEnd, gasLeft,
    vm₁, used, paid, hinst, hnested, hused, hpaid, rfl⟩⟩ := externalCall_cases h
  · exact ⟨address, code, hcode, .inl ⟨hempty, rfl⟩⟩
  · obtain ⟨hkept, callee, rfl, hcall⟩ := nestedCall_gas hnested
    obtain ⟨left, hleft, hle⟩ := Metered.frameRelation_shrinks.guarantee_call
      (Metered.frameRelation_shrinks.guarantee_invoke fuel stack) name arguments _ _ _ hcall
      n hn
    have hn₁ : vm₁.gas = some n := hkept.trans hn
    rw [hleft] at hused
    cases (gasUsed_eq hn₁ hle).symm.trans hused
    cases (useGas_paid hn₁ (Nat.sub_le n left)).symm.trans hpaid
    refine ⟨address, code, hcode, .inr ⟨hne, inst, name, arguments, callEnd, callee, left,
      hinst, hcall, hleft, hle, ?_, rfl⟩⟩
    exact congrArg some (Nat.sub_sub_self hle)

/-- **The gas charged is the gas consumed.**  A frame's counter never grows, a nested call
leaves its caller with what its callee had left, and the transfer for a user's transaction
is of the sum of the costs charged in its call tree, which is within the limit. -/
theorem charged_exactly (P : Platform) (fuel : Nat) :
    (∀ stack act (vm vm' : VM P) n r, vm.gas = some n →
      runGuest P fuel stack act vm = .ok (r, vm') → ∃ m, vm'.gas = some m ∧ m ≤ n) ∧
    (∀ stack a f g (vm vm' : VM P) n r, vm.gas = some n →
      VM.externalCall (newModuleInstance P fuel) (invoke P fuel stack) a f g vm =
          .ok (r, vm') →
        ∃ address code, vm.storage.get (rightPadVec address 64 0) = some code ∧
          ((code.length = 0 ∧ vm' = vm.lookedUp (rightPadVec address 64 0)) ∨
            (code.length ≠ 0 ∧ ∃ inst name arguments callEnd callee left,
              newModuleInstance P fuel code = .ok inst ∧
              VM.call (invoke P fuel stack) name arguments
                  ((vm.lookedUp (rightPadVec address 64 0)).calleeFrame inst address name) =
                .ok (callEnd, callee) ∧
              callee.gas = some left ∧ left ≤ n ∧ vm'.gas = some left ∧
              r = .ok (toBytes P callEnd.result)))) ∧
    ∀ redis rocksdb t env memoryChangeset storageChangeset e,
      SystemContracts.isSystemContract t = false →
        t.execute P fuel (Memory.new redis memoryChangeset)
            (Storage.new redis rocksdb storageChangeset) env = .ok e →
          ∃ amount, amount ≤ t.gasLimit ∧
            amount = t.gasCharged P fuel (Memory.new redis memoryChangeset)
              (Storage.new redis rocksdb storageChangeset) env ∧
            runOutcome P fuel redis rocksdb t env memoryChangeset storageChangeset = (do
              let gas ← SystemContracts.transfer P fuel t redis rocksdb e.memoryChangeset ∅
                env amount t.sender env.blockWinner
              return {
                memoryChangeset := gas.memoryChangeset
                storageChangeset := e.storageChangeset
                result := e.ending.result
                trace := e.trace ++ gas.trace }) := by
  refine ⟨fun stack act vm vm' n r hn hrun => ?_, fun stack a f g vm vm' n r hn hrun => ?_,
    ?_⟩
  · exact Metered.frameRelation_shrinks.guarantee_runGuest fuel stack act vm r vm' hrun n hn
  · exact externalCall_gas hn hrun
  · intro redis rocksdb t env memoryChangeset storageChangeset e hsystem hrun
    refine ⟨_, ?_, rfl, runOutcome_charges hsystem hrun⟩
    obtain ⟨left, _, hsum⟩ := execute_gasLeft hrun
    have hmod := Nat.mod_le t.gasLimit (2 ^ 32)
    unfold Transaction.startGas at hsum
    omega

/-! ## A call within a call that traps -/

namespace Script

/-- What `A`'s function is run on. -/
def callThenTrapStorage : Storage :=
  Storage.new ∅ ∅ (deployed [([65], [1]), ([66], [2])])

end Script

open Script in
/-- `A` calls `B`, which writes a byte and returns; then `A` traps.  The byte is paid for
once. -/
theorem charged_exactly_at_nested_call :
    ∃ e amount, runA "f" = .ok e ∧ amount = 5000 ∧
      runOutcome callThenTrapPlatform 10 ∅ ∅ (callA "f") firstBlock ∅
          (deployed [([65], [1]), ([66], [2])]) = (do
        let gas ← SystemContracts.transfer callThenTrapPlatform 10 (callA "f") ∅ ∅
          e.memoryChangeset ∅ firstBlock amount [] firstBlock.blockWinner
        return {
          memoryChangeset := gas.memoryChangeset
          storageChangeset := e.storageChangeset
          result := e.ending.result
          trace := e.trace ++ gas.trace }) := by
  have hcharged : (callA "f").gasCharged callThenTrapPlatform 10 (Memory.new ∅ ∅)
      callThenTrapStorage firstBlock = 5000 := by rfl
  have hends : (runA "f").toOption.map (fun e => e.ending.isTrap) = some true := by
    decide +kernel
  obtain ⟨e, he, _⟩ := exists_ok_of_map hends
  obtain ⟨amount, _, hamount, hrun⟩ := (charged_exactly callThenTrapPlatform 10).2.2 ∅ ∅
    (callA "f") firstBlock ∅ _ e (by decide) he
  exact ⟨e, amount, he, hamount.trans hcharged, hrun⟩

end Ellipticoind.Ports
