import Ellipticoind.Ports.Records

/-!
# Comparing a block with its recomputed results

`transaction_result_validations.ex` goes through a block's transactions and the recomputed
ones side by side, and collects an error wherever a return code or a return value differs.
`Enum.zip` stops at the end of the shorter list.

A function that raises answers `none`.  Terms are compared with `==` of Elixir, here any
comparison.

## Main results

* `validTransactionResults_iff` — what a good verdict says.
* `result_comparison_exact_iff` — when the comparison is exact.
-/

namespace Ellipticoind.Ports.Records.TransactionResultValidations

variable {α : Type} [BEq α]

/-! ## `transaction_result_validations.ex` -/

/-- A transaction as it is compared: a map, with the keys it has. -/
structure Outcome (α : Type) where
  returnCode : Option α
  returnValue : Option α

/-- A block, or a recomputed result.  There are no transactions where the key is missing or
its value cannot be gone through.  A struct of the schema `"blocks"` has no
`changeset_hash`. -/
structure Results (α : Type) where
  changesetHash : Option α
  transactions : Option (List (Outcome α))

/-- The tuples of the errors: what was recomputed, and what was proposed. -/
inductive TransactionError (α : Type) where
  | changesetHashMismatch (recomputed proposed : α)
  | returnCodeMismatch (recomputed proposed : α)
  | returnValueMismatch (recomputed proposed : α)

/-- `changeset_errors`. -/
def changesetErrors (block : Results α) (changesetHash : α) :
    Option (List (TransactionError α)) := do
  let proposed ← block.changesetHash
  if proposed != changesetHash then
    return [.changesetHashMismatch changesetHash proposed]
  else
    return []

/-- One step of the reductions, for the key that they compare. -/
def addMismatch (key : Outcome α → Option α) (error : α → α → TransactionError α)
    (errors : List (TransactionError α)) (pair : Outcome α × Outcome α) :
    Option (List (TransactionError α)) := do
  let proposed ← key pair.1
  let recomputed ← key pair.2
  if proposed != recomputed then return error recomputed proposed :: errors
  else return errors

/-- The reduction over the zipped lists. -/
def mismatches (key : Outcome α → Option α) (error : α → α → TransactionError α)
    (block : Results α) (transactions : List (Outcome α)) :
    Option (List (TransactionError α)) := do
  let proposed ← block.transactions
  (proposed.zip transactions).foldlM (addMismatch key error) []

/-- `return_value_errors`. -/
def returnValueErrors (block : Results α) (transactions : List (Outcome α)) :
    Option (List (TransactionError α)) :=
  mismatches Outcome.returnValue .returnValueMismatch block transactions

/-- `return_code_errors`. -/
def returnCodeErrors (block : Results α) (transactions : List (Outcome α)) :
    Option (List (TransactionError α)) :=
  mismatches Outcome.returnCode .returnCodeMismatch block transactions

/-- `transaction_errors`. -/
def transactionErrors (block transactionResults : Results α) :
    Option (List (TransactionError α)) := do
  let changeset ← changesetErrors block (← transactionResults.changesetHash)
  let codes ← returnCodeErrors block (← transactionResults.transactions)
  let values ← returnValueErrors block (← transactionResults.transactions)
  return changeset ++ codes ++ values

/-- `valid_transaction_results?`. -/
def validTransactionResults (block transactionResults : Results α) : Option Bool := do
  let errors ← transactionErrors block transactionResults
  return !errors.any fun _ => true

/-! ## What is compared -/

/-- Both terms are there and equal. -/
def Same (proposed recomputed : Option α) : Prop :=
  ∃ a b, proposed = some a ∧ recomputed = some b ∧ (a == b) = true

/-- The return codes and the return values are equal. -/
structure SameOutcome (proposed recomputed : Outcome α) : Prop where
  returnCode : Same proposed.returnCode recomputed.returnCode
  returnValue : Same proposed.returnValue recomputed.returnValue

variable (block transactionResults : Results α)

def SameHash : Prop := Same block.changesetHash transactionResults.changesetHash

/-- The transactions are equal at every position that both lists have. -/
def SamePositions : Prop :=
  ∃ ts ts', block.transactions = some ts ∧ transactionResults.transactions = some ts' ∧
    ∀ (i : Nat) (t t' : Outcome α), ts[i]? = some t → ts'[i]? = some t' → SameOutcome t t'

def SameLength : Prop :=
  block.transactions.map List.length = transactionResults.transactions.map List.length

/-- The hashes are equal, the lists have the same length, and the transactions are equal at
every position. -/
structure SameResults : Prop where
  hash : SameHash block transactionResults
  length : SameLength block transactionResults
  positions : SamePositions block transactionResults

/-! ## The reductions -/

variable {block transactionResults}

theorem addMismatch_eq_nil_iff {key : Outcome α → Option α}
    {error : α → α → TransactionError α} {errors : List (TransactionError α)}
    {pair : Outcome α × Outcome α} :
    addMismatch key error errors pair = some [] ↔
      errors = [] ∧ Same (key pair.1) (key pair.2) := by
  unfold addMismatch Same
  cases key pair.1 with
  | none => simp
  | some proposed =>
      cases key pair.2 with
      | none => simp
      | some recomputed => cases hsame : proposed == recomputed <;> simp [hsame, bne]

/-- A reduction ends without an error if it began without one and met none. -/
theorem foldlM_addMismatch_eq_nil_iff {key : Outcome α → Option α}
    {error : α → α → TransactionError α} {pairs : List (Outcome α × Outcome α)}
    {errors : List (TransactionError α)} :
    pairs.foldlM (addMismatch key error) errors = some [] ↔
      errors = [] ∧ ∀ pair ∈ pairs, Same (key pair.1) (key pair.2) := by
  induction pairs generalizing errors with
  | nil => simp
  | cons pair pairs ih =>
      rw [List.foldlM_cons, Option.bind_eq_bind, Option.bind_eq_some_iff]
      constructor
      · rintro ⟨errors', hstep, hrest⟩
        obtain ⟨rfl, hpairs⟩ := ih.mp hrest
        obtain ⟨herrors, hpair⟩ := addMismatch_eq_nil_iff.mp hstep
        exact ⟨herrors, List.forall_mem_cons.mpr ⟨hpair, hpairs⟩⟩
      · rintro ⟨herrors, hall⟩
        obtain ⟨hpair, hpairs⟩ := List.forall_mem_cons.mp hall
        exact ⟨[], addMismatch_eq_nil_iff.mpr ⟨herrors, hpair⟩, ih.mpr ⟨rfl, hpairs⟩⟩

/-- The pairs of zipped lists are those of their common positions. -/
theorem forall_mem_zip_iff {β γ : Type} {xs : List β} {ys : List γ} {p : β → γ → Prop} :
    (∀ pair ∈ xs.zip ys, p pair.1 pair.2) ↔
      ∀ (i : Nat) (x : β) (y : γ), xs[i]? = some x → ys[i]? = some y → p x y := by
  simp only [List.mem_iff_getElem?, List.getElem?_zip_eq_some]
  constructor
  · intro h i x y hx hy
    exact h (x, y) ⟨i, hx, hy⟩
  · rintro h ⟨x, y⟩ ⟨i, hx, hy⟩
    exact h i x y hx hy

theorem mismatches_eq_nil_iff {key : Outcome α → Option α}
    {error : α → α → TransactionError α} {ts : List (Outcome α)} :
    mismatches key error block ts = some [] ↔
      ∃ proposed, block.transactions = some proposed ∧
        ∀ (i : Nat) (t t' : Outcome α), proposed[i]? = some t → ts[i]? = some t' →
          Same (key t) (key t') := by
  unfold mismatches
  simp only [Option.bind_eq_bind, Option.bind_eq_some_iff, foldlM_addMismatch_eq_nil_iff,
    true_and]
  exact exists_congr fun proposed => and_congr_right fun _ =>
    forall_mem_zip_iff (p := fun t t' => Same (key t) (key t'))

theorem changesetErrors_eq_nil_iff {changesetHash : α} :
    changesetErrors block changesetHash = some [] ↔
      Same block.changesetHash (some changesetHash) := by
  unfold changesetErrors Same
  cases block.changesetHash with
  | none => simp
  | some proposed => cases hsame : proposed == changesetHash <;> simp [hsame, bne]

/-! ## The verdict -/

/-- The verdict is good if no error was found. -/
theorem validTransactionResults_eq_true_iff :
    validTransactionResults block transactionResults = some true ↔
      ∃ changesetHash ts, transactionResults.changesetHash = some changesetHash ∧
        transactionResults.transactions = some ts ∧
        changesetErrors block changesetHash = some [] ∧
        returnCodeErrors block ts = some [] ∧ returnValueErrors block ts = some [] := by
  unfold validTransactionResults transactionErrors
  simp only [Option.bind_eq_bind, Option.bind_eq_some_iff, Option.pure_def, Option.some.injEq]
  constructor
  · rintro ⟨_, ⟨hash, hhash, changeset, hchangeset, ts, hts, codes, hcodes, ts', hts', values,
      hvalues, rfl⟩, hnone⟩
    obtain rfl : ts = ts' := Option.some.inj (hts.symm.trans hts')
    simp only [Bool.not_eq_true', List.any_eq_false] at hnone
    have hempty : changeset ++ codes ++ values = [] :=
      List.eq_nil_iff_forall_not_mem.mpr fun error herror => hnone error herror trivial
    obtain ⟨hleft, rfl⟩ := List.append_eq_nil_iff.mp hempty
    obtain ⟨rfl, rfl⟩ := List.append_eq_nil_iff.mp hleft
    exact ⟨hash, ts, hhash, hts, hchangeset, hcodes, hvalues⟩
  · rintro ⟨hash, ts, hhash, hts, hchangeset, hcodes, hvalues⟩
    exact ⟨[], ⟨hash, hhash, [], hchangeset, ts, hts, [], hcodes, ts, hts, [], hvalues, rfl⟩,
      rfl⟩

/-- What a good verdict says: nothing about what one list has beyond the other. -/
theorem validTransactionResults_iff :
    validTransactionResults block transactionResults = some true ↔
      SameHash block transactionResults ∧ SamePositions block transactionResults := by
  rw [validTransactionResults_eq_true_iff]
  constructor
  · rintro ⟨hash, ts', hhash, hts', hchangeset, hcodes, hvalues⟩
    obtain ⟨ts, hts, hcodes⟩ := mismatches_eq_nil_iff.mp hcodes
    obtain ⟨ts₂, hts₂, hvalues⟩ := mismatches_eq_nil_iff.mp hvalues
    obtain rfl : ts = ts₂ := Option.some.inj (hts.symm.trans hts₂)
    refine ⟨?_, ts, ts', hts, hts', fun i t t' ht ht' =>
      ⟨hcodes i t t' ht ht', hvalues i t t' ht ht'⟩⟩
    unfold SameHash
    rw [hhash]
    exact changesetErrors_eq_nil_iff.mp hchangeset
  · rintro ⟨hhash, ts, ts', hts, hts', hpositions⟩
    obtain ⟨proposed, hash, hblock, hresult, hsame⟩ := hhash
    exact ⟨hash, ts', hresult, hts',
      changesetErrors_eq_nil_iff.mpr ⟨proposed, hash, hblock, rfl, hsame⟩,
      mismatches_eq_nil_iff.mpr ⟨ts, hts, fun i t t' ht ht' =>
        (hpositions i t t' ht ht').returnCode⟩,
      mismatches_eq_nil_iff.mpr ⟨ts, hts, fun i t t' ht ht' =>
        (hpositions i t t' ht ht').returnValue⟩⟩

/-- **When the comparison is exact**: unless the lists have different lengths, the hashes
are equal, and the lists are equal as far as the shorter one goes. -/
theorem result_comparison_exact_iff (block transactionResults : Results α) :
    (validTransactionResults block transactionResults = some true ↔
        SameResults block transactionResults) ↔
      SameLength block transactionResults ∨ ¬SameHash block transactionResults ∨
        ¬SamePositions block transactionResults := by
  rw [validTransactionResults_iff]
  constructor
  · intro hexact
    by_cases hhash : SameHash block transactionResults
    · by_cases hpositions : SamePositions block transactionResults
      · exact .inl (hexact.mp ⟨hhash, hpositions⟩).length
      · exact .inr (.inr hpositions)
    · exact .inr (.inl hhash)
  · intro hcondition
    refine ⟨fun ⟨hhash, hpositions⟩ => ?_, fun h => ⟨h.hash, h.positions⟩⟩
    rcases hcondition with hlength | hdiffers | hdiffers
    · exact ⟨hhash, hlength, hpositions⟩
    · exact absurd hhash hdiffers
    · exact absurd hpositions hdiffers

/-! ## A transaction that is left out -/

/-- A result of one transaction. -/
def oneTransaction : Results Int := ⟨some 0, some [⟨some 0, some 0⟩]⟩

/-- A block that leaves it out. -/
def noTransactions : Results Int := ⟨some 0, some []⟩

/-- The block that leaves out the transaction has a good verdict. -/
theorem omitted_transaction_passes :
    ¬ ∀ block transactionResults : Results Int,
      validTransactionResults block transactionResults = some true ↔
        SameResults block transactionResults := by
  intro h
  have hresults := (h noTransactions oneTransaction).mp (by decide)
  cases hresults.length

end Ellipticoind.Ports.Records.TransactionResultValidations
