import Mathlib.Tactic.Ring
import Mathlib.Data.Nat.ModEq
import Mathlib.Data.Nat.Digits.Lemmas

/-!
# Little-endian encodings

`leBytes w n` is the number `n`, reduced to `w` bytes, least significant byte
first; `leNat` reads such a list back.  `Minimal` lists have no byte too many, and a
number has one of them (`eq_of_minimal`), its digits.
-/

namespace Ellipticoind.Verified.LittleEndian

/-- The low `w` bytes of `n`, least significant first. -/
def leBytes : Nat → Nat → List UInt8
  | 0, _ => []
  | w + 1, n => UInt8.ofNat (n % 256) :: leBytes w (n / 256)

/-- The number a little-endian byte list stands for. -/
def leNat : List UInt8 → Nat
  | [] => 0
  | b :: rest => b.toNat + 256 * leNat rest

@[simp] theorem length_leBytes (w n : Nat) : (leBytes w n).length = w := by
  induction w generalizing n with
  | zero => rfl
  | succ w ih => simp [leBytes, ih]

/-- Reading back gives the number reduced to the width. -/
theorem leNat_leBytes (w n : Nat) : leNat (leBytes w n) = n % 256 ^ w := by
  induction w generalizing n with
  | zero => simp [leBytes, leNat, Nat.mod_one]
  | succ w ih =>
      have hbyte : (UInt8.ofNat (n % 256)).toNat = n % 256 := by
        simp
      rw [leBytes, leNat, hbyte, ih, pow_succ, Nat.mul_comm (256 ^ w), Nat.mod_mul]

/-- Two numbers below the width's bound have different encodings. -/
theorem leBytes_inj {w m n : Nat} (hm : m < 256 ^ w) (hn : n < 256 ^ w)
    (h : leBytes w m = leBytes w n) : m = n := by
  have hread := congrArg leNat h
  rwa [leNat_leBytes, leNat_leBytes, Nat.mod_eq_of_lt hm, Nat.mod_eq_of_lt hn] at hread

theorem leNat_lt (bytes : List UInt8) : leNat bytes < 256 ^ bytes.length := by
  induction bytes with
  | nil => simp [leNat]
  | cons b rest ih =>
      have hbyte := UInt8.toNat_lt b
      rw [leNat, List.length_cons, pow_succ]
      omega

/-- Every list of as many bytes as the width is an encoding. -/
theorem leBytes_leNat (bytes : List UInt8) : leBytes bytes.length (leNat bytes) = bytes := by
  induction bytes with
  | nil => rfl
  | cons b rest ih =>
      have hbyte := UInt8.toNat_lt b
      have hlow : (b.toNat + 256 * leNat rest) % 256 = b.toNat := by omega
      have hhigh : (b.toNat + 256 * leNat rest) / 256 = leNat rest := by omega
      rw [List.length_cons, leBytes, leNat, hlow, hhigh, ih, UInt8.ofNat_toNat]

/-- An encoding is of the number reduced to the width. -/
theorem leBytes_eq_iff {w m n : Nat} :
    leBytes w m = leBytes w n ↔ m % 256 ^ w = n % 256 ^ w := by
  constructor
  · intro h
    have hread := congrArg leNat h
    rwa [leNat_leBytes, leNat_leBytes] at hread
  · intro h
    have hm := leBytes_leNat (leBytes w m)
    have hn := leBytes_leNat (leBytes w n)
    rw [length_leBytes, leNat_leBytes] at hm hn
    rw [← hm, ← hn, h]

/-! ## Without a width -/

/-- The list does not end in a zero byte, unless that is all there is. -/
def Minimal (bytes : List UInt8) : Prop :=
  bytes ≠ [] ∧ (bytes.length = 1 ∨ bytes.getLast? ≠ some 0)

/-- The last byte weighs the most. -/
theorem pow_le_leNat {bytes : List UInt8} (hne : bytes ≠ [])
    (hlast : bytes.getLast? ≠ some 0) : 256 ^ (bytes.length - 1) ≤ leNat bytes := by
  induction bytes with
  | nil => exact absurd rfl hne
  | cons b rest ih =>
      cases rest with
      | nil =>
          have hb : b.toNat ≠ 0 := by
            intro hzero
            exact hlast (congrArg some (UInt8.toNat_inj.mp hzero))
          simp [leNat]
          omega
      | cons b' rest =>
          have hrest := ih (by simp) (by rwa [List.getLast?_cons_cons] at hlast)
          have hlength : (b :: b' :: rest).length - 1 = (b' :: rest).length - 1 + 1 := by simp
          rw [hlength, pow_succ, leNat]
          omega

/-- Of two numbers in minimal form, the longer one is greater. -/
theorem leNat_lt_of_length_lt {a b : List UInt8} (hb : Minimal b) (ha : a ≠ [])
    (h : a.length < b.length) : leNat a < leNat b := by
  have hpos := List.length_pos_iff.mpr ha
  have hlast : b.getLast? ≠ some 0 := hb.2.resolve_left (by omega)
  calc leNat a < 256 ^ a.length := leNat_lt a
    _ ≤ 256 ^ (b.length - 1) := Nat.pow_le_pow_right (by decide) (by omega)
    _ ≤ leNat b := pow_le_leNat hb.1 hlast

/-- **A number has one minimal form.** -/
theorem eq_of_minimal {a b : List UInt8} (ha : Minimal a) (hb : Minimal b)
    (h : leNat a = leNat b) : a = b := by
  have hlength : a.length = b.length := by
    rcases Nat.lt_trichotomy a.length b.length with hlt | heq | hgt
    · exact absurd h (leNat_lt_of_length_lt hb ha.1 hlt).ne
    · exact heq
    · exact absurd h (leNat_lt_of_length_lt ha hb.1 hgt).ne'
  rw [← leBytes_leNat a, ← leBytes_leNat b, hlength, h]

/-! ## Digits -/

theorem leNat_map_ofNat {digits : List Nat} (h : ∀ d ∈ digits, d < 256) :
    leNat (digits.map UInt8.ofNat) = Nat.ofDigits 256 digits := by
  induction digits with
  | nil => rfl
  | cons d rest ih =>
      obtain ⟨hd, hrest⟩ := List.forall_mem_cons.mp h
      have hbyte : (UInt8.ofNat d).toNat = d := by
        rw [UInt8.toNat_ofNat', Nat.mod_eq_of_lt hd]
      rw [List.map_cons, leNat, ih hrest, Nat.ofDigits_cons, hbyte]

theorem leNat_digits (n : Nat) : leNat ((Nat.digits 256 n).map UInt8.ofNat) = n := by
  rw [leNat_map_ofNat fun d hd => Nat.digits_lt_base (by decide) hd, Nat.ofDigits_digits]

/-- The digits of a number that is not zero are its minimal form. -/
theorem minimal_digits {n : Nat} (hn : n ≠ 0) :
    Minimal ((Nat.digits 256 n).map UInt8.ofNat) := by
  have hne : Nat.digits 256 n ≠ [] := Nat.digits_ne_nil_iff_ne_zero.mpr hn
  refine ⟨by simpa using hne, .inr fun hlast => ?_⟩
  rw [List.getLast?_map, List.getLast?_eq_some_getLast hne, Option.map_some,
    Option.some.injEq] at hlast
  have hbyte := congrArg UInt8.toNat hlast
  have hdigit : (Nat.digits 256 n).getLast hne < 256 :=
    Nat.digits_lt_base (by decide) (List.getLast_mem hne)
  rw [UInt8.toNat_ofNat', Nat.mod_eq_of_lt hdigit] at hbyte
  exact Nat.getLast_digit_ne_zero 256 hn hbyte

end Ellipticoind.Verified.LittleEndian
