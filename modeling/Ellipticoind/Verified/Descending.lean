import Mathlib.Data.List.Basic

/-!
# Descending lists of version numbers

A log keeps the version numbers of its entries, the newest first.  Cutting the
log back to version `n` keeps the entries numbered at most `n`, and on a
descending log these are its last ones, so that one remembered position is
enough to find the cut.

## Main results

* `drop_eq_filter` — a position that is `Exact` for `n` cuts the log back
  to `n`.
* `upTo_cons_self`, `upTo_cons_of_lt`, `upTo_filter` — how pushing and cutting
  move the positions of the entries that stay.
-/

namespace Ellipticoind.Verified.Descending

/-- How many entries of the log are numbered at most `n`. -/
def upTo (n : Nat) (log : List Nat) : Nat := (log.filter (· ≤ n)).length

/-- Counted from the oldest entry, `position` is where the entries numbered at
most `n` end; further out will do where there are no others. -/
structure Exact (log : List Nat) (n position : Nat) : Prop where
  covers : upTo n log ≤ position + 1
  cuts : (∃ b ∈ log, n < b) → position + 1 ≤ upTo n log

/-- In a descending log the entries numbered at most `n` are the last ones. -/
theorem drop_upTo {log : List Nat} (hdesc : log.Pairwise (· ≥ ·)) (n : Nat) :
    log.drop (log.length - upTo n log) = log.filter (· ≤ n) := by
  induction log with
  | nil => rfl
  | cons b rest ih =>
      obtain ⟨hhead, hrest⟩ := List.pairwise_cons.mp hdesc
      by_cases hb : b ≤ n
      · have hall : rest.filter (· ≤ n) = rest := by
          rw [List.filter_eq_self]
          intro c hc
          have := hhead c hc
          simp only [decide_eq_true_eq]
          omega
        simp [upTo, hb, hall]
      · have hle : upTo n rest ≤ rest.length := List.length_filter_le _ _
        have hupTo : upTo n (b :: rest) = upTo n rest := by simp [upTo, hb]
        rw [hupTo, List.length_cons,
          show rest.length + 1 - upTo n rest = (rest.length - upTo n rest) + 1 by omega,
          List.drop_succ_cons, ih hrest, List.filter_cons_of_neg (by simpa using hb)]

/-- An exact position cuts the log back to `n`. -/
theorem drop_eq_filter {log : List Nat} (hdesc : log.Pairwise (· ≥ ·))
    {n position : Nat} (h : Exact log n position) :
    log.drop (log.length - (position + 1)) = log.filter (· ≤ n) := by
  by_cases habove : ∃ b ∈ log, n < b
  · have hcovers := h.covers
    have hcuts := h.cuts habove
    rw [← drop_upTo hdesc n, show position + 1 = upTo n log by omega]
  · have hall : log.filter (· ≤ n) = log := by
      rw [List.filter_eq_self]
      intro b hb
      have : ¬ n < b := fun hlt => habove ⟨b, hb, hlt⟩
      simp only [decide_eq_true_eq]
      omega
    have hlength : log.length ≤ position + 1 := by
      have hcovers := h.covers
      rwa [upTo, hall] at hcovers
    rw [hall, show log.length - (position + 1) = 0 by omega, List.drop_zero]

/-- The position just before the end of the entries up to `n` is exact. -/
theorem exact_of_upTo {log : List Nat} {n position : Nat}
    (h : position + 1 = upTo n log) : Exact log n position :=
  ⟨by omega, fun _ => by omega⟩

/-- When an entry is pushed, the length before is the position to record. -/
theorem upTo_cons_self {log : List Nat} {n : Nat} (h : ∀ b ∈ log, b ≤ n) :
    upTo n (n :: log) = log.length + 1 := by
  have hall : (n :: log).filter (· ≤ n) = n :: log := by
    rw [List.filter_eq_self]
    intro b hb
    rcases List.mem_cons.mp hb with rfl | hb
    · simp
    · simpa using h b hb
  rw [upTo, hall, List.length_cons]

/-- Entries above a version do not move its position. -/
theorem upTo_cons_of_lt {log : List Nat} {n m : Nat} (hlt : m < n) :
    upTo m (n :: log) = upTo m log := by
  simp [upTo, show ¬ n ≤ m by omega]

/-- Neither does a cut above it. -/
theorem upTo_filter {log : List Nat} {n m : Nat} (hle : m ≤ n) :
    upTo m (log.filter (· ≤ n)) = upTo m log := by
  unfold upTo
  rw [List.filter_filter]
  congr 1
  refine List.filter_congr fun b _ => ?_
  rw [Bool.and_eq_left_iff_imp]
  simp only [decide_eq_true_eq]
  omega

end Ellipticoind.Verified.Descending
