import Mathlib.Data.Nat.Bitwise
import Mathlib.Tactic.Ring

/-!
# Numbers with seven bits in a byte

A number is written from its low end, seven bits in a byte, and the high bit of
a byte says that another one follows.  A number has many codes: the shortest is
the one that `encode` gives, the others have empty bytes at the end.

`read` is the usual loop over a buffer: a register of some bits is filled at a
growing shift, and the loop gives up where the shift reaches the end of the
register or the buffer ends first.

## Main results

* `code_encode`, `value_encode`, `length_encode_le` — what `encode` writes.
* `Code.append_inj` — no code begins another one.
* `read_eq_ok_iff` — what `read` makes of a buffer.
-/

namespace Ellipticoind.Verified.Varint

/-- Every byte but the last has its high bit set. -/
inductive Code : List UInt8 → Prop where
  | last {b : UInt8} (h : b.toNat < 128) : Code [b]
  | more {b : UInt8} {rest : List UInt8} (h : 128 ≤ b.toNat) (hrest : Code rest) :
      Code (b :: rest)

/-- The number that the low seven bits of the bytes stand for. -/
def value : List UInt8 → Nat
  | [] => 0
  | b :: rest => b.toNat % 128 + 128 * value rest

/-- The shortest code of a number. -/
def encode (n : Nat) : List UInt8 :=
  if n < 128 then [UInt8.ofNat n] else UInt8.ofNat (n % 128 + 128) :: encode (n / 128)
termination_by n
decreasing_by omega

/-- Why a number cannot be read. -/
inductive Fault where
  | overflow
  | truncated
  deriving DecidableEq, Repr

/-- The number at the front of a buffer, and how many bytes it has. -/
def read (bits : Nat) : Nat → Nat → List UInt8 → Except Fault (Nat × Nat)
  | shift, _, [] => .error (if bits ≤ shift then .overflow else .truncated)
  | shift, acc, b :: rest =>
      if bits ≤ shift then .error .overflow
      else
        let acc := acc ||| (b.toNat % 128) <<< shift % 2 ^ bits
        if b.toNat < 128 then .ok (acc, 1)
        else (read bits (shift + 7) acc rest).map fun (number, count) => (number, count + 1)

/-! ## Codes -/

theorem Code.ne_nil {code : List UInt8} (h : Code code) : code ≠ [] := by
  cases h <;> exact List.cons_ne_nil _ _

theorem Code.length_pos {code : List UInt8} (h : Code code) : 0 < code.length :=
  List.length_pos_iff.mpr h.ne_nil

/-- No code begins another one. -/
theorem Code.append_inj {a b x y : List UInt8} (ha : Code a) (hb : Code b)
    (h : a ++ x = b ++ y) : a = b ∧ x = y := by
  induction ha generalizing b with
  | last hlow =>
      cases hb with
      | last => simpa using h
      | more hhigh =>
          obtain ⟨rfl, -⟩ := List.cons.inj h
          omega
  | more hhigh hrest ih =>
      cases hb with
      | last hlow =>
          obtain ⟨rfl, -⟩ := List.cons.inj h
          omega
      | more _ hrest' =>
          obtain ⟨rfl, htail⟩ := List.cons.inj h
          obtain ⟨rfl, rfl⟩ := ih hrest' htail
          exact ⟨rfl, rfl⟩

theorem encode_of_lt {n : Nat} (h : n < 128) : encode n = [UInt8.ofNat n] := by
  rw [encode, if_pos h]

theorem encode_of_le {n : Nat} (h : 128 ≤ n) :
    encode n = UInt8.ofNat (n % 128 + 128) :: encode (n / 128) := by
  rw [encode, if_neg (by omega)]

theorem toNat_low {n : Nat} (h : n < 128) : (UInt8.ofNat n).toNat = n := by
  rw [UInt8.toNat_ofNat']
  omega

theorem toNat_high (n : Nat) : (UInt8.ofNat (n % 128 + 128)).toNat = n % 128 + 128 := by
  rw [UInt8.toNat_ofNat']
  omega

theorem code_encode (n : Nat) : Code (encode n) := by
  induction n using Nat.strongRecOn with
  | ind n ih =>
      by_cases hn : n < 128
      · rw [encode_of_lt hn]
        exact .last (by rw [toNat_low hn]; exact hn)
      · rw [encode_of_le (by omega)]
        exact .more (by rw [toNat_high]; omega) (ih (n / 128) (by omega))

theorem value_encode (n : Nat) : value (encode n) = n := by
  induction n using Nat.strongRecOn with
  | ind n ih =>
      by_cases hn : n < 128
      · rw [encode_of_lt hn, value, value, toNat_low hn]
        omega
      · rw [encode_of_le (by omega), value, toNat_high, ih (n / 128) (by omega)]
        omega

theorem length_encode_le {n k : Nat} (h : n < 2 ^ (7 * (k + 1))) :
    (encode n).length ≤ k + 1 := by
  induction k generalizing n with
  | zero =>
      rw [encode_of_lt (by simpa using h)]
      exact le_rfl
  | succ k ih =>
      by_cases hn : n < 128
      · rw [encode_of_lt hn]
        simp
      · have hpow : 2 ^ (7 * (k + 1 + 1)) = 2 ^ (7 * (k + 1)) * 128 := by
          rw [show 7 * (k + 1 + 1) = 7 * (k + 1) + 7 by ring, pow_add]
          norm_num
        have hdiv : n / 128 < 2 ^ (7 * (k + 1)) := by
          rw [Nat.div_lt_iff_lt_mul (by decide), ← hpow]
          exact h
        rw [encode_of_le (by omega), List.length_cons]
        exact Nat.succ_le_succ (ih hdiv)

/-! ## Reading -/

/-- Above what a register holds, an or is a sum. -/
theorem or_shiftLeft {bits shift acc : Nat} (d : Nat) (hacc : acc < 2 ^ shift)
    (hshift : shift < bits) :
    acc ||| d <<< shift % 2 ^ bits = (acc + d * 2 ^ shift) % 2 ^ bits := by
  have hbits : acc < 2 ^ bits :=
    lt_of_lt_of_le hacc (Nat.pow_le_pow_right (by decide) hshift.le)
  have hsum : acc ||| d <<< shift = acc + d * 2 ^ shift := by
    rw [Nat.or_comm, ← Nat.shiftLeft_add_eq_or_of_lt hacc, Nat.shiftLeft_eq, Nat.add_comm]
  rw [← hsum, Nat.or_mod_two_pow, Nat.mod_eq_of_lt hbits]

/-- A code whose last byte is read below the end of the register. -/
theorem read_append {bits : Nat} {code : List UInt8} (hcode : Code code) :
    ∀ {shift acc : Nat} (rest : List UInt8), shift + 7 * (code.length - 1) < bits →
      acc < 2 ^ shift →
      read bits shift acc (code ++ rest) =
        .ok ((acc + value code * 2 ^ shift) % 2 ^ bits, code.length) := by
  induction hcode with
  | @last b hlow =>
      intro shift acc rest hshift hacc
      have hlt : shift < bits := by simpa using hshift
      rw [List.singleton_append, read, if_neg (by omega)]
      simp only [hlow, if_true, or_shiftLeft _ hacc hlt, value]
      simp
  | @more b code hhigh hcode ih =>
      intro shift acc rest hshift hacc
      have hpos := hcode.length_pos
      have hlt : shift < bits := by omega
      have hnext : shift + 7 + 7 * (code.length - 1) < bits := by
        rw [List.length_cons] at hshift
        omega
      have hpow : 2 ^ (shift + 7) = 2 ^ shift * 128 := by
        rw [pow_add]
        norm_num
      have hsum : acc + b.toNat % 128 * 2 ^ shift < 2 ^ (shift + 7) := by
        have hdigit : b.toNat % 128 ≤ 127 := by omega
        have := Nat.mul_le_mul_right (2 ^ shift) hdigit
        omega
      have hfits : acc + b.toNat % 128 * 2 ^ shift < 2 ^ bits :=
        lt_of_lt_of_le hsum (Nat.pow_le_pow_right (by decide) (by omega))
      rw [List.cons_append, read, if_neg (by omega)]
      simp only [show ¬ b.toNat < 128 by omega, if_false, or_shiftLeft _ hacc hlt,
        Nat.mod_eq_of_lt hfits, ih rest hnext hsum, Except.map, value, List.length_cons]
      rw [hpow]
      congr 3
      ring

/-- What is read is a code. -/
theorem code_of_read {bits : Nat} {data : List UInt8} :
    ∀ {shift acc number count : Nat}, read bits shift acc data = .ok (number, count) →
      ∃ code rest, data = code ++ rest ∧ Code code ∧ code.length = count ∧
        shift + 7 * (count - 1) < bits := by
  induction data with
  | nil =>
      intro shift acc number count h
      cases h
  | cons b rest ih =>
      intro shift acc number count h
      rw [read] at h
      by_cases hshift : bits ≤ shift
      · rw [if_pos hshift] at h
        cases h
      · rw [if_neg hshift] at h
        by_cases hlow : b.toNat < 128
        · simp only [hlow, if_true, Except.ok.injEq, Prod.mk.injEq] at h
          obtain ⟨-, rfl⟩ := h
          exact ⟨[b], rest, rfl, .last hlow, rfl, by omega⟩
        · simp only [hlow, if_false] at h
          cases hread : read bits (shift + 7)
              (acc ||| (b.toNat % 128) <<< shift % 2 ^ bits) rest with
          | error fault =>
              rw [hread] at h
              cases h
          | ok result =>
              rw [hread] at h
              cases h
              obtain ⟨code, after, rfl, hcode, hlength, hbound⟩ := ih hread
              have hpos := hcode.length_pos
              refine ⟨b :: code, after, rfl, .more (by omega) hcode, ?_, by omega⟩
              rw [List.length_cons, hlength]

/-- **A number is read if the buffer begins with a code that ends below the end
of the register, of which the number is what fits.** -/
theorem read_eq_ok_iff {bits : Nat} {data : List UInt8} {number count : Nat} :
    read bits 0 0 data = .ok (number, count) ↔
      ∃ code rest, data = code ++ rest ∧ Code code ∧ code.length = count ∧
        7 * (count - 1) < bits ∧ number = value code % 2 ^ bits := by
  constructor
  · intro h
    obtain ⟨code, rest, rfl, hcode, rfl, hbound⟩ := code_of_read h
    rw [read_append hcode rest hbound (by simp)] at h
    cases h
    exact ⟨code, rest, rfl, hcode, rfl, by simpa using hbound, by simp⟩
  · rintro ⟨code, rest, rfl, hcode, rfl, hbound, rfl⟩
    rw [read_append hcode rest (by simpa using hbound) (by simp)]
    simp

end Ellipticoind.Verified.Varint
