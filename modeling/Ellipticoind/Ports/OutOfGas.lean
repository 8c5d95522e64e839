import Ellipticoind.Ports.Charges

/-!
# Running out of gas

A cost that cannot be paid is refused and nothing is taken for it: the trap leaves the
counter at what it held.  So a transaction that runs out of gas is charged its whole limit
only if the counter was empty by then.

An instruction costs one and is refused by an empty counter only, and the payment after a
nested call is never refused.  The price of some bytes may be refused by a counter that
holds a lot, and the guest's allocator is reported as out of gas whatever its failure.

## Main results

* `spent_iff_lastCostEmpties` — when some entries leave a counter empty.
* `costs_whole_limit_iff` — when running out of gas costs the whole limit.
-/

namespace Ellipticoind.Ports

open Ellipticoind.Verified.StateRun

variable {P : Platform}

/-- The last of the entries' costs, and what the counter held when it was asked for. -/
def lastCost : Nat → List Mark → Option (Nat × Nat)
  | _, [] => none
  | gas, mark :: rest =>
      (lastCost (mark.pay gas) rest).or
        (if mark.cost = 0 then none else some (gas, mark.cost))

/-- The last cost found the counter empty, or took all it held; with no cost at all there
was nothing to take. -/
def LastCostEmpties (gas : Nat) (entries : List Mark) : Prop :=
  match lastCost gas entries with
  | none => gas = 0
  | some (counter, cost) => counter = 0 ∨ cost = counter

/-- When a cost leaves nothing. -/
theorem pay_eq_zero_iff (mark : Mark) (gas : Nat) :
    mark.pay gas = 0 ↔ gas = 0 ∨ mark.cost = gas := by
  by_cases hle : mark.cost ≤ gas
  · rw [Mark.pay_of_le hle]
    omega
  · rw [Mark.pay_of_lt (Nat.not_le.mp hle)]
    omega

theorem foldl_pay_eq_zero_iff (entries : List Mark) (gas : Nat) :
    entries.foldl (fun gas mark => mark.pay gas) gas = 0 ↔ LastCostEmpties gas entries := by
  induction entries generalizing gas with
  | nil => rfl
  | cons mark rest ih =>
      rw [List.foldl_cons, ih]
      unfold LastCostEmpties
      rw [lastCost]
      cases lastCost (mark.pay gas) rest with
      | some last => rfl
      | none =>
          by_cases hcost : mark.cost = 0
          · rw [if_pos hcost, Mark.pay_of_free hcost]
            rfl
          · rw [if_neg hcost]
            exact pay_eq_zero_iff mark gas

/-- All that the counter held was charged exactly if the last cost emptied it. -/
theorem spent_iff_lastCostEmpties (gas : Nat) (entries : List Mark) :
    charged gas entries = gas ↔ LastCostEmpties gas entries := by
  have hsum := pay_add_charged entries gas
  rw [← foldl_pay_eq_zero_iff]
  omega

/-- An instruction is refused by an empty counter only. -/
theorem instruction_refused {vm vm' : VM P} {gas : Nat} {trap : TrapKind}
    (hgas : vm.gas = some gas) (h : VM.useGas INSTRUCTION vm = .ok (.error trap, vm')) :
    gas = 0 := by
  by_cases hlt : gas < INSTRUCTION
  · exact Nat.lt_one_iff.mp hlt
  · cases (useGas_paid hgas (Nat.not_lt.mp hlt)).symm.trans h

/-- **When running out of gas costs the whole limit.**  The transfer for a transaction with
a limit below `2 ^ 32` whose outermost call runs out of gas is of the whole limit exactly
if the last cost it asked for met an empty counter, or took all that was left. -/
theorem costs_whole_limit_iff {fuel : Nat} {redis : Redis} {rocksdb : RocksDB}
    {t : Transaction} {env : Env} {memoryChangeset storageChangeset : Changeset}
    {e : Executed} (hsystem : SystemContracts.isSystemContract t = false)
    (hlimit : t.gasLimit < 2 ^ 32)
    (h : t.execute P fuel (Memory.new redis memoryChangeset)
      (Storage.new redis rocksdb storageChangeset) env = .ok e) :
    ∃ amount,
      runOutcome P fuel redis rocksdb t env memoryChangeset storageChangeset = (do
        let gas ← SystemContracts.transfer P fuel t redis rocksdb e.memoryChangeset ∅ env
          amount t.sender env.blockWinner
        return {
          memoryChangeset := gas.memoryChangeset
          storageChangeset := e.storageChangeset
          result := e.ending.result
          trace := e.trace ++ gas.trace }) ∧
      ((e.ending.isOutOfGas = true → amount = t.gasLimit) ↔
        (e.ending.isOutOfGas = true → LastCostEmpties t.gasLimit
          (Metered.execute P fuel t (Memory.new redis memoryChangeset)
            (Storage.new redis rocksdb storageChangeset) env ()).2)) := by
  refine ⟨_, runOutcome_charges hsystem h, imp_congr_right fun _ => ?_⟩
  have hstart : t.startGas = t.gasLimit := Nat.mod_eq_of_lt hlimit
  unfold Transaction.gasCharged
  rw [hstart]
  exact spent_iff_lastCostEmpties t.gasLimit _

/-! ## A price that is refused -/

namespace Script

/-- A contract that writes one byte of memory, which costs 5000. -/
def byteWriter : Contract where
  exports := [("f", [.host SET_MEMORY_FUNC_INDEX [0, 5], .answer 10])]
  memory := slot [1] ++ slot [9] ++ slot [0, 0, 0, 0, 0xf6]

/-- A contract that runs two instructions. -/
def stepper : Contract where
  exports := [("f", [.instruction, .instruction, .answer 10])]
  memory := slot [1] ++ slot [9] ++ slot [0, 0, 0, 0, 0xf6]

/-- Both, under the codes one and two. -/
def byteWriterPlatform : Platform := platform [([1], byteWriter), ([2], stepper)]

/-- A call of the contract at `A` on some gas. -/
def callOn (gasLimit : Nat) : Transaction := { callA "f" with gasLimit := gasLimit }

/-- A run of the contract of some code at `A`. -/
def runOn (code : Bytes) (gasLimit : Nat) : Except Stop Executed :=
  (callOn gasLimit).execute byteWriterPlatform 10 (Memory.new ∅ ∅)
    (Storage.new ∅ ∅ (deployed [([65], code)])) firstBlock

end Script

open Script in
/-- A write of 5000 is refused by a counter of 4999, and the transaction costs nothing. -/
theorem refused_write_is_free :
    ¬ ∀ (P : Platform) (fuel : Nat) (redis : Redis) (rocksdb : RocksDB) (t : Transaction)
      (env : Env) (memoryChangeset storageChangeset : Changeset) (e : Executed),
      SystemContracts.isSystemContract t = false → t.gasLimit < 2 ^ 32 →
        t.execute P fuel (Memory.new redis memoryChangeset)
            (Storage.new redis rocksdb storageChangeset) env = .ok e →
          e.ending.isOutOfGas = true → ∀ left, e.gasLeft = some left →
            ∀ used, subU64 P t.gasLimit left = .ok used → used % 2 ^ 32 = t.gasLimit := by
  intro h
  have hends : (runOn [1] 4999).toOption.map (fun e => (e.ending.isOutOfGas, e.gasLeft)) =
      some (true, some 4999) := by decide +kernel
  obtain ⟨e, he, hvalue⟩ := exists_ok_of_map hends
  obtain ⟨hout, hleft⟩ := Prod.mk.inj hvalue
  have hall := h byteWriterPlatform 10 ∅ ∅ (callOn 4999) firstBlock ∅ _ e (by decide)
    (by decide) he hout 4999 hleft 0 rfl
  exact absurd hall (by decide)

open Script in
/-- The second instruction cannot be paid for. -/
theorem costs_whole_limit_at_instruction :
    ∃ e amount, runOn [2] 1 = .ok e ∧ e.ending.isOutOfGas = true ∧ amount = 1 ∧
      runOutcome byteWriterPlatform 10 ∅ ∅ (callOn 1) firstBlock ∅
          (deployed [([65], [2])]) = (do
        let gas ← SystemContracts.transfer byteWriterPlatform 10 (callOn 1) ∅ ∅
          e.memoryChangeset ∅ firstBlock amount [] firstBlock.blockWinner
        return {
          memoryChangeset := gas.memoryChangeset
          storageChangeset := e.storageChangeset
          result := e.ending.result
          trace := e.trace ++ gas.trace }) := by
  have hends : (runOn [2] 1).toOption.map (fun e => e.ending.isOutOfGas) = some true := by
    decide +kernel
  obtain ⟨e, he, hout⟩ := exists_ok_of_map hends
  obtain ⟨amount, hrun, hiff⟩ := costs_whole_limit_iff (by decide) (by decide) he
  exact ⟨e, amount, he, hout, hiff.mpr (fun _ => .inr rfl) hout, hrun⟩

end Ellipticoind.Ports
