import Mathlib.Data.List.Basic

/-!
# Overwriting a part of a list

`splice xs offset value` is `xs` with `value` in place of as many elements from `offset`
on.

## Main results

* `take_drop_splice` — every part of what was written is read back where it lies.
* `getElem?_splice_of_outside` — the other elements are as they were.
* `splice_splice` — two parts that follow each other are written in one.
-/

namespace Ellipticoind.Verified.Splice

variable {α : Type}

def splice (xs : List α) (offset : Nat) (value : List α) : List α :=
  xs.take offset ++ value ++ xs.drop (offset + value.length)

theorem length_splice {xs value : List α} {offset : Nat}
    (h : offset + value.length ≤ xs.length) : (splice xs offset value).length = xs.length := by
  simp only [splice, List.length_append, List.length_take, List.length_drop]
  omega

/-- A part of what was written, from where it begins. -/
theorem take_drop_splice {xs : List α} {offset : Nat} (h : offset ≤ xs.length)
    (first part rest : List α) :
    ((splice xs offset (first ++ part ++ rest)).drop (offset + first.length)).take
      part.length = part := by
  have hbefore : (xs.take offset ++ first).length = offset + first.length := by
    rw [List.length_append, List.length_take, Nat.min_eq_left h]
  have hsplit : splice xs offset (first ++ part ++ rest) = (xs.take offset ++ first) ++
      (part ++ (rest ++ xs.drop (offset + (first ++ part ++ rest).length))) := by
    simp only [splice, List.append_assoc]
  rw [hsplit, List.drop_left' hbefore, List.take_left' rfl]

theorem getElem?_splice_of_lt {xs value : List α} {offset i : Nat}
    (h : offset + value.length ≤ xs.length) (hi : i < offset) :
    (splice xs offset value)[i]? = xs[i]? := by
  have htake : i < (xs.take offset).length := by
    rw [List.length_take]
    omega
  rw [splice, List.append_assoc, List.getElem?_append_left htake, List.getElem?_take_of_lt hi]

theorem getElem?_splice_of_le {xs value : List α} {offset i : Nat}
    (h : offset + value.length ≤ xs.length) (hi : offset + value.length ≤ i) :
    (splice xs offset value)[i]? = xs[i]? := by
  have hlength : (xs.take offset ++ value).length = offset + value.length := by
    rw [List.length_append, List.length_take]
    omega
  rw [splice, List.getElem?_append_right (hlength ▸ hi), hlength, List.getElem?_drop]
  congr 1
  omega

/-- What lies outside of the part written is as it was. -/
theorem getElem?_splice_of_outside {xs value : List α} {offset i : Nat}
    (h : offset + value.length ≤ xs.length)
    (hi : i < offset ∨ offset + value.length ≤ i) :
    (splice xs offset value)[i]? = xs[i]? := by
  rcases hi with hi | hi
  · exact getElem?_splice_of_lt h hi
  · exact getElem?_splice_of_le h hi

/-- Two parts that follow each other are written in one. -/
theorem splice_splice (xs : List α) (offset : Nat) (first second : List α)
    (h : offset + first.length ≤ xs.length) :
    splice (splice xs offset first) (offset + first.length) second =
      splice xs offset (first ++ second) := by
  have hbefore : (xs.take offset ++ first).length = offset + first.length := by
    rw [List.length_append, List.length_take]
    omega
  have htake : (splice xs offset first).take (offset + first.length) =
      xs.take offset ++ first := by
    rw [splice, List.take_left' hbefore]
  have hdrop : (splice xs offset first).drop (offset + first.length + second.length) =
      xs.drop (offset + (first ++ second).length) := by
    rw [splice, ← List.drop_drop, List.drop_left' hbefore, List.drop_drop,
      List.length_append, Nat.add_assoc]
  rw [splice, htake, hdrop, splice]
  simp only [List.append_assoc]

end Ellipticoind.Verified.Splice
