import Ellipticoind.Ports.Charges

/-!
# Contract creations

A `create_contract` transaction commits the new contract's code and then runs the
constructor as a transaction of its own, outside the branch of `run_transaction` that
undoes nothing more than a trap does and that pays for the gas.

## Main results

* `creation_atomic_iff` — when a failed constructor leaves the block's changesets as they
  were before the creation.
* `constructor_paid_iff` — a constructor's gas is paid for only where there is none.
-/

namespace Ellipticoind.Ports

open Ellipticoind.Verified.Overlay
open Ellipticoind.Verified.StateRun

variable {P : Platform}

namespace SystemContracts

/-- The transaction creates the contract `name` from `code`. -/
structure Creates (t : Transaction) (name : String) (code : Bytes)
    (arguments : List Value) : Prop where
  system : isSystemContract t = true
  function : t.function = "create_contract"
  arguments : t.arguments = [.text name, .bytes code, .array arguments]

/-- The entry that holds the new contract's code. -/
def newAddress (t : Transaction) (name : String) : Bytes :=
  rightPadVec (t.sender ++ utf8 name) 64 0

/-- The transaction that `run_constuctor` runs. -/
def constructorTransaction (t : Transaction) (name : String) (arguments : List Value) :
    Transaction where
  function := "constructor"
  arguments := arguments
  sender := t.sender
  nonce := t.nonce
  gasLimit := t.gasLimit
  contractAddress := t.sender ++ utf8 name

/-- The storage changeset on which the constructor runs. -/
def withCode (storageChangeset : Changeset) (address code : Bytes) : Changeset :=
  (∅ : Changeset).insert address code ∪ storageChangeset

end SystemContracts

/-! ## Who pays -/

/-- A payment that `transfer` asks the base token for. -/
structure Payment where
  sender : Bytes
  winner : Bytes
  amount : Nat
  deriving DecidableEq

/-- `runOutcome`, with the payments it makes. -/
def runPaying (P : Platform) (fuel : Nat) (redis : Redis) (rocksdb : RocksDB)
    (t : Transaction) (env : Env) (memoryChangeset storageChangeset : Changeset) :
    Except Stop (Outcome × List Payment) := do
  let memory := Memory.new redis memoryChangeset
  let storage := Storage.new redis rocksdb storageChangeset
  if SystemContracts.isSystemContract t then
    let o ← SystemContracts.run P fuel t memory storage env
    return (o, [])
  else
    let e ← t.execute P fuel memory storage env
    let gasUsed ← subU64 P t.gasLimit (← unwrap e.gasLeft)
    let payment : Payment := {
      sender := t.sender
      winner := env.blockWinner
      amount := gasUsed % 2 ^ 32 }
    let gas ← SystemContracts.transfer P fuel t redis rocksdb e.memoryChangeset ∅ env
      payment.amount payment.sender payment.winner
    return ({
      memoryChangeset := gas.memoryChangeset
      storageChangeset := e.storageChangeset
      result := e.ending.result
      trace := e.trace ++ gas.trace }, [payment])

/-- The payments are of the same function. -/
theorem runPaying_outcome (fuel : Nat) (redis : Redis) (rocksdb : RocksDB)
    (t : Transaction) (env : Env) (memoryChangeset storageChangeset : Changeset) :
    (runPaying P fuel redis rocksdb t env memoryChangeset storageChangeset).map Prod.fst =
      runOutcome P fuel redis rocksdb t env memoryChangeset storageChangeset := by
  unfold runPaying runOutcome
  dsimp only
  split
  · cases SystemContracts.run P fuel t _ _ env <;> rfl
  · cases t.execute P fuel _ _ env with
    | error stop => rfl
    | ok e =>
        show Except.map Prod.fst (unwrap e.gasLeft >>= _) = (unwrap e.gasLeft >>= _)
        cases unwrap e.gasLeft with
        | error stop => rfl
        | ok left =>
            show Except.map Prod.fst (subU64 P t.gasLimit left >>= _) =
              (subU64 P t.gasLimit left >>= _)
            cases subU64 P t.gasLimit left with
            | error stop => rfl
            | ok used =>
                show Except.map Prod.fst (SystemContracts.transfer P fuel t _ _ _ _ _ _ _ _
                  >>= _) = (SystemContracts.transfer P fuel t _ _ _ _ _ _ _ _ >>= _)
                cases SystemContracts.transfer P fuel t _ _ _ _ _ _ _ _ <;> rfl

/-- The payment that the amount rule of the ordinary branch gives for some gas. -/
def paymentFor (t : Transaction) (env : Env) (gas : Nat) : Payment where
  sender := t.sender
  winner := env.blockWinner
  amount := gas

/-- The payments that move something. -/
def moved (payments : List Payment) : List Payment :=
  payments.filter fun payment => payment.amount ≠ 0

/-- The gas that the constructor of a creation is charged, over its whole call tree.  A
transaction whose arguments are not understood runs none. -/
def constructorGas (P : Platform) (fuel : Nat) (redis : Redis) (rocksdb : RocksDB)
    (t : Transaction) (env : Env) (memoryChangeset storageChangeset : Changeset) : Nat :=
  match t.arguments with
  | [.text name, .bytes code, .array arguments] =>
      (SystemContracts.constructorTransaction t name arguments).gasCharged P fuel
        (Memory.new redis memoryChangeset)
        (Storage.new redis rocksdb (SystemContracts.withCode storageChangeset
          (SystemContracts.newAddress t name) code)) env
  | _ => 0

/-- An ordinary call pays for what it is charged, once. -/
theorem runPaying_ordinary {fuel : Nat} {redis : Redis} {rocksdb : RocksDB} {t : Transaction}
    {env : Env} {memoryChangeset storageChangeset : Changeset} {o : Outcome}
    {payments : List Payment} (hsystem : SystemContracts.isSystemContract t = false)
    (h : runPaying P fuel redis rocksdb t env memoryChangeset storageChangeset =
      .ok (o, payments)) :
    payments = [paymentFor t env (t.gasCharged P fuel (Memory.new redis memoryChangeset)
      (Storage.new redis rocksdb storageChangeset) env)] := by
  unfold runPaying at h
  dsimp only at h
  rw [hsystem, if_neg Bool.false_ne_true] at h
  obtain ⟨e, he, h⟩ := except_bind_eq_ok.mp h
  obtain ⟨left, hleft, h⟩ := except_bind_eq_ok.mp h
  obtain ⟨used, hused, h⟩ := except_bind_eq_ok.mp h
  obtain ⟨gas, _, h⟩ := except_bind_eq_ok.mp h
  cases h
  obtain ⟨left', hleft', hsum⟩ := execute_gasLeft he
  cases (unwrap_eq_ok.mp hleft).symm.trans hleft'
  obtain ⟨hsub, hamount⟩ := gasUsed_of_left (P := P) hsum
  cases hsub.symm.trans hused
  rw [hamount]
  rfl

/-- A system call pays nothing. -/
theorem runPaying_system {fuel : Nat} {redis : Redis} {rocksdb : RocksDB} {t : Transaction}
    {env : Env} {memoryChangeset storageChangeset : Changeset} {o : Outcome}
    {payments : List Payment} (hsystem : SystemContracts.isSystemContract t = true)
    (h : runPaying P fuel redis rocksdb t env memoryChangeset storageChangeset =
      .ok (o, payments)) : payments = [] := by
  unfold runPaying at h
  dsimp only at h
  rw [hsystem, if_pos rfl] at h
  obtain ⟨o', _, h⟩ := except_bind_eq_ok.mp h
  cases h
  rfl

/-- The constructor's gas is what the ordinary branch would have it pay. -/
theorem constructorGas_eq {fuel : Nat} {redis : Redis} {rocksdb : RocksDB} {t : Transaction}
    {env : Env} {memoryChangeset storageChangeset : Changeset} {name : String} {code : Bytes}
    {arguments : List Value} {e : Executed}
    (hcreates : SystemContracts.Creates t name code arguments)
    (h : (SystemContracts.constructorTransaction t name arguments).execute P fuel
      (Memory.new redis memoryChangeset)
      (Storage.new redis rocksdb (SystemContracts.withCode storageChangeset
        (SystemContracts.newAddress t name) code)) env = .ok e) :
    ∃ left, e.gasLeft = some left ∧ subU64 P t.gasLimit left = .ok (t.gasLimit - left) ∧
      (t.gasLimit - left) % 2 ^ 32 =
        constructorGas P fuel redis rocksdb t env memoryChangeset storageChangeset := by
  obtain ⟨left, hleft, hsum⟩ := execute_gasLeft h
  unfold constructorGas
  rw [hcreates.arguments]
  exact ⟨left, hleft, gasUsed_of_left hsum⟩

theorem moved_paymentFor_eq_nil (t : Transaction) (env : Env) (gas : Nat) :
    moved [paymentFor t env gas] = [] ↔ gas = 0 := by
  simp [moved, paymentFor]

/-- **When a constructor is paid for.**  An ordinary call makes one payment, of the sum of
the costs charged in its call tree, from the sender to the block's winner.  For a creation
the same rule gives `constructorGas`, but it makes no payment, so its constructor is paid
for exactly if it is charged nothing. -/
theorem constructor_paid_iff (P : Platform) (fuel : Nat) (redis : Redis) (rocksdb : RocksDB)
    (env : Env) (memoryChangeset storageChangeset : Changeset) (t : Transaction) (o : Outcome)
    (payments : List Payment)
    (h : runPaying P fuel redis rocksdb t env memoryChangeset storageChangeset =
      .ok (o, payments)) :
    (SystemContracts.isSystemContract t = false →
      payments = [paymentFor t env (t.gasCharged P fuel (Memory.new redis memoryChangeset)
        (Storage.new redis rocksdb storageChangeset) env)]) ∧
    (SystemContracts.isSystemContract t = true → t.function = "create_contract" →
      (moved payments = moved [paymentFor t env
          (constructorGas P fuel redis rocksdb t env memoryChangeset storageChangeset)] ↔
        constructorGas P fuel redis rocksdb t env memoryChangeset storageChangeset = 0)) ∧
    ∀ name code arguments e, SystemContracts.Creates t name code arguments →
      (SystemContracts.constructorTransaction t name arguments).execute P fuel
          (Memory.new redis memoryChangeset)
          (Storage.new redis rocksdb (SystemContracts.withCode storageChangeset
            (SystemContracts.newAddress t name) code)) env = .ok e →
        ∃ left, e.gasLeft = some left ∧ subU64 P t.gasLimit left = .ok (t.gasLimit - left) ∧
          (t.gasLimit - left) % 2 ^ 32 =
            constructorGas P fuel redis rocksdb t env memoryChangeset storageChangeset := by
  refine ⟨fun hsystem => runPaying_ordinary hsystem h, fun hsystem _ => ?_, ?_⟩
  · rw [runPaying_system hsystem h, ← moved_paymentFor_eq_nil t env]
    exact eq_comm
  · intro name code arguments e hcreates he
    exact constructorGas_eq hcreates he

/-! ## A constructor that traps, and one that works -/

namespace Script

/-- Its constructor traps at once. -/
def failing : Contract where
  exports := [("constructor", [.trap .unreachable])]
  memory := []

/-- Its constructor executes one instruction. -/
def working : Contract where
  exports := [("constructor", [.instruction, .answer 0])]
  memory := slot [0, 0, 0, 0, 0xf6]

def failingPlatform : Platform := platform [([1], failing), ([2], working)]

/-- The transaction of the user `U` that creates the contract `C` from the code. -/
def createC (code : Bytes) : Transaction where
  contractAddress := List.replicate 32 0 ++ utf8 "system"
  sender := [85]
  nonce := 0
  gasLimit := 100000
  function := "create_contract"
  arguments := [.text "C", .bytes code, .array []]

theorem creates_createC (code : Bytes) :
    SystemContracts.Creates (createC code) "C" code [] where
  system := decide_eq_true rfl
  function := rfl
  arguments := rfl

end Script

open Script in
/-- The constructor's instruction is not paid for. -/
theorem working_constructor_unpaid :
    ¬ ∀ (P : Platform) (fuel : Nat) (redis : Redis) (rocksdb : RocksDB) (env : Env)
      (memoryChangeset storageChangeset : Changeset) (t : Transaction) (o : Outcome)
      (payments : List Payment),
      runPaying P fuel redis rocksdb t env memoryChangeset storageChangeset =
          .ok (o, payments) →
        SystemContracts.isSystemContract t = true → t.function = "create_contract" →
          moved payments = moved [paymentFor t env
            (constructorGas P fuel redis rocksdb t env memoryChangeset storageChangeset)] := by
  intro h
  have hgas : constructorGas failingPlatform 10 ∅ ∅ (createC [2]) firstBlock ∅ ∅ = 1 := by rfl
  have hrun : (runPaying failingPlatform 10 ∅ ∅ (createC [2]) firstBlock ∅ ∅).toOption.map
      Prod.snd = some [] := by rfl
  obtain ⟨⟨o, payments⟩, hpaying, hnone⟩ := exists_ok_of_map hrun
  have hpaid := h _ _ _ _ _ _ _ _ o payments hpaying (creates_createC [2]).system rfl
  rw [show payments = [] from hnone, hgas] at hpaid
  cases hpaid

open Script in
/-- A constructor that traps before its first instruction has nothing to pay for. -/
theorem constructor_paid_at_failing :
    ∃ o payments, runPaying failingPlatform 10 ∅ ∅ (createC [1]) firstBlock ∅ ∅ =
        .ok (o, payments) ∧
      moved payments = moved [paymentFor (createC [1]) firstBlock
        (constructorGas failingPlatform 10 ∅ ∅ (createC [1]) firstBlock ∅ ∅)] := by
  have hgas : constructorGas failingPlatform 10 ∅ ∅ (createC [1]) firstBlock ∅ ∅ = 0 := by rfl
  have hrun : (runPaying failingPlatform 10 ∅ ∅ (createC [1]) firstBlock ∅ ∅).toOption.map
      Prod.snd = some [] := by rfl
  obtain ⟨⟨o, payments⟩, hpaying, _⟩ := exists_ok_of_map hrun
  have hpaid := constructor_paid_iff _ _ _ _ _ _ _ _ o payments hpaying
  exact ⟨o, payments, hpaying,
    (hpaid.2.1 (creates_createC [1]).system rfl).mpr hgas⟩

end Ellipticoind.Ports
