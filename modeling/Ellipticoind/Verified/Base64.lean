import Mathlib.Data.List.Basic
import Mathlib.Data.List.GetD
import Mathlib.Data.List.Nodup

/-!
# Base 64

Three bytes are four letters of six bits each; one or two bytes at the end are
two or three letters, filled up with `=`.  `decode` reads the texts whose length
is a multiple of four, of letters with at most two `=` at the end; the bits
that the fill stands for are not looked at.

## Main results

* `decode_encode` — a text that encodes some bytes is read back.
* `mem_encode` — only letters and `=` occur in it.
-/

namespace Ellipticoind.Verified.Base64

def alphabet : List UInt8 :=
  "ABCDEFGHIJKLMNOPQRSTUVWXYZabcdefghijklmnopqrstuvwxyz0123456789+/".toUTF8.data.toList

/-- The character `=`. -/
def fill : UInt8 := 61

/-- The letter for six bits. -/
def letter (n : Nat) : UInt8 := alphabet.getD n fill

/-- The six bits a letter stands for. -/
def value (c : UInt8) : Option Nat :=
  if c ∈ alphabet then some (alphabet.idxOf c) else none

def encode : List UInt8 → List UInt8
  | [] => []
  | [a] => [letter (a.toNat / 4), letter (a.toNat % 4 * 16), fill, fill]
  | [a, b] =>
      [letter (a.toNat / 4), letter (a.toNat % 4 * 16 + b.toNat / 16),
        letter (b.toNat % 16 * 4), fill]
  | a :: b :: c :: rest =>
      letter (a.toNat / 4) :: letter (a.toNat % 4 * 16 + b.toNat / 16) ::
        letter (b.toNat % 16 * 4 + c.toNat / 64) :: letter (c.toNat % 64) :: encode rest

/-- Four letters. -/
def decodeGroup (c₁ c₂ c₃ c₄ : UInt8) : Option (List UInt8) :=
  (value c₁).bind fun v₁ => (value c₂).bind fun v₂ => (value c₃).bind fun v₃ =>
    (value c₄).map fun v₄ =>
      [.ofNat (v₁ * 4 + v₂ / 16), .ofNat (v₂ % 16 * 16 + v₃ / 4), .ofNat (v₃ % 4 * 64 + v₄)]

/-- Four characters at the end, of which the last may be `=`. -/
def decodeLast (c₁ c₂ c₃ c₄ : UInt8) : Option (List UInt8) :=
  if c₃ = fill ∧ c₄ = fill then
    (value c₁).bind fun v₁ => (value c₂).map fun v₂ => [.ofNat (v₁ * 4 + v₂ / 16)]
  else if c₄ = fill then
    (value c₁).bind fun v₁ => (value c₂).bind fun v₂ => (value c₃).map fun v₃ =>
      [.ofNat (v₁ * 4 + v₂ / 16), .ofNat (v₂ % 16 * 16 + v₃ / 4)]
  else decodeGroup c₁ c₂ c₃ c₄

def decode : List UInt8 → Option (List UInt8)
  | [] => some []
  | c₁ :: c₂ :: c₃ :: c₄ :: rest =>
      if rest = [] then decodeLast c₁ c₂ c₃ c₄
      else (decodeGroup c₁ c₂ c₃ c₄).bind fun group => (decode rest).map (group ++ ·)
  | _ => none

/-! ## Letters -/

theorem length_alphabet : alphabet.length = 64 := by decide +kernel

theorem nodup_alphabet : alphabet.Nodup := by decide +kernel

theorem fill_notMem_alphabet : fill ∉ alphabet := by decide +kernel

theorem letter_eq {n : Nat} (h : n < 64) : ∃ hn : n < alphabet.length, letter n = alphabet[n] := by
  have hn : n < alphabet.length := length_alphabet ▸ h
  exact ⟨hn, List.getD_eq_getElem _ _ hn⟩

theorem letter_mem {n : Nat} (h : n < 64) : letter n ∈ alphabet := by
  obtain ⟨hn, heq⟩ := letter_eq h
  rw [heq]
  exact List.getElem_mem hn

theorem letter_ne_fill {n : Nat} (h : n < 64) : letter n ≠ fill := fun heq =>
  fill_notMem_alphabet (heq ▸ letter_mem h)

theorem value_letter {n : Nat} (h : n < 64) : value (letter n) = some n := by
  obtain ⟨hn, heq⟩ := letter_eq h
  rw [value, if_pos (letter_mem h), heq, nodup_alphabet.idxOf_getElem]

/-! ## Round trip -/

theorem decodeGroup_letters {n₁ n₂ n₃ n₄ : Nat} (h₁ : n₁ < 64) (h₂ : n₂ < 64)
    (h₃ : n₃ < 64) (h₄ : n₄ < 64) :
    decodeGroup (letter n₁) (letter n₂) (letter n₃) (letter n₄) =
      some [.ofNat (n₁ * 4 + n₂ / 16), .ofNat (n₂ % 16 * 16 + n₃ / 4),
        .ofNat (n₃ % 4 * 64 + n₄)] := by
  rw [decodeGroup, value_letter h₁, value_letter h₂, value_letter h₃, value_letter h₄]
  rfl

theorem ofNat_eq {n : Nat} {a : UInt8} (h : n = a.toNat) : UInt8.ofNat n = a := by
  rw [h, UInt8.ofNat_toNat]

/-- Three bytes are read back, in the middle and at the end. -/
theorem decodeGroup_encode (a b c : UInt8) :
    decodeGroup (letter (a.toNat / 4)) (letter (a.toNat % 4 * 16 + b.toNat / 16))
      (letter (b.toNat % 16 * 4 + c.toNat / 64)) (letter (c.toNat % 64)) =
        some [a, b, c] := by
  have ha := UInt8.toNat_lt a
  have hb := UInt8.toNat_lt b
  have hc := UInt8.toNat_lt c
  rw [decodeGroup_letters (by omega) (by omega) (by omega) (by omega),
    ofNat_eq (a := a) (by omega), ofNat_eq (a := b) (by omega), ofNat_eq (a := c) (by omega)]

theorem decodeLast_encode (a b c : UInt8) :
    decodeLast (letter (a.toNat / 4)) (letter (a.toNat % 4 * 16 + b.toNat / 16))
      (letter (b.toNat % 16 * 4 + c.toNat / 64)) (letter (c.toNat % 64)) =
        some [a, b, c] := by
  have hne : letter (c.toNat % 64) ≠ fill := letter_ne_fill (Nat.mod_lt _ (by decide))
  rw [decodeLast, if_neg fun h => hne h.2, if_neg hne, decodeGroup_encode]

/-- What encodes some bytes is read back. -/
theorem decode_encode (bytes : List UInt8) : decode (encode bytes) = some bytes := by
  induction bytes using encode.induct with
  | case1 => rfl
  | case2 a =>
      have ha := UInt8.toNat_lt a
      rw [encode, decode, if_pos rfl, decodeLast, if_pos ⟨rfl, rfl⟩,
        value_letter (by omega), value_letter (by omega), Option.bind_some, Option.map_some,
        ofNat_eq (a := a) (by omega)]
  | case3 a b =>
      have ha := UInt8.toNat_lt a
      have hb := UInt8.toNat_lt b
      have hne : letter (b.toNat % 16 * 4) ≠ fill := letter_ne_fill (by omega)
      rw [encode, decode, if_pos rfl, decodeLast, if_neg fun h => hne h.1, if_pos rfl,
        value_letter (by omega), value_letter (by omega), value_letter (by omega),
        Option.bind_some, Option.bind_some, Option.map_some, ofNat_eq (a := a) (by omega),
        ofNat_eq (a := b) (by omega)]
  | case4 a b c rest ih =>
      rw [encode, decode]
      by_cases hrest : encode rest = []
      · rw [if_pos hrest, decodeLast_encode]
        rw [hrest] at ih
        rw [← Option.some.inj ih]
      · rw [if_neg hrest, decodeGroup_encode, ih]
        rfl

/-- Only letters and `=` occur in an encoding. -/
theorem mem_encode {bytes : List UInt8} {c : UInt8} (h : c ∈ encode bytes) :
    c ∈ alphabet ∨ c = fill := by
  induction bytes using encode.induct with
  | case1 => exact nomatch h
  | case2 a =>
      have ha := UInt8.toNat_lt a
      rw [encode] at h
      simp only [List.mem_cons, List.not_mem_nil, or_false] at h
      obtain rfl | rfl | rfl | rfl := h
      · exact .inl (letter_mem (by omega))
      · exact .inl (letter_mem (by omega))
      · exact .inr rfl
      · exact .inr rfl
  | case3 a b =>
      have ha := UInt8.toNat_lt a
      have hb := UInt8.toNat_lt b
      rw [encode] at h
      simp only [List.mem_cons, List.not_mem_nil, or_false] at h
      obtain rfl | rfl | rfl | rfl := h
      · exact .inl (letter_mem (by omega))
      · exact .inl (letter_mem (by omega))
      · exact .inl (letter_mem (by omega))
      · exact .inr rfl
  | case4 a b c' rest ih =>
      have ha := UInt8.toNat_lt a
      have hb := UInt8.toNat_lt b
      have hc := UInt8.toNat_lt c'
      rw [encode] at h
      simp only [List.mem_cons] at h
      obtain rfl | rfl | rfl | rfl | h := h
      · exact .inl (letter_mem (by omega))
      · exact .inl (letter_mem (by omega))
      · exact .inl (letter_mem (by omega))
      · exact .inl (letter_mem (by omega))
      · exact ih h

/-- What is no letter and not `=` does not occur in an encoding. -/
theorem notMem_encode {c : UInt8} (halphabet : c ∉ alphabet) (hfill : c ≠ fill)
    (bytes : List UInt8) : c ∉ encode bytes := fun h =>
  (mem_encode h).elim halphabet hfill

end Ellipticoind.Verified.Base64
