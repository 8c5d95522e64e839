import Mathlib.Data.List.Basic

/-!
# Streams of length-prefixed frames

A frame is a message behind a header of fixed width that encodes its length; a
stream is the frames of some messages, one after the other.  `arrived ms k` is
what a receiver can have of the stream's messages after `k` letters: those whose
frames are complete.

## Main results

* `arrived_append` — after some whole frames, the rest is counted from there.
* `arrived_split` — the complete frames, and the one that is not complete yet.
-/

namespace Ellipticoind.Verified.Frames

variable {α : Type}

/-- An encoding of lengths in a fixed number of letters. -/
structure Header (α : Type) where
  width : Nat
  encode : Nat → List α
  decode : List α → Nat
  /-- The lengths that can be told apart. -/
  bound : Nat
  length_encode : ∀ n, (encode n).length = width
  decode_encode : ∀ n, n < bound → decode (encode n) = n

variable (H : Header α)

def frame (m : List α) : List α := H.encode m.length ++ m

def stream (ms : List (List α)) : List α := ms.flatMap (frame H)

/-- The messages whose frames are complete after `k` letters. -/
def arrived : List (List α) → Nat → List (List α)
  | [], _ => []
  | m :: rest, k =>
      if (frame H m).length ≤ k then m :: arrived rest (k - (frame H m).length) else []

@[simp] theorem length_frame (m : List α) : (frame H m).length = H.width + m.length := by
  rw [frame, List.length_append, H.length_encode]

@[simp] theorem stream_nil : stream H ([] : List (List α)) = [] := rfl

theorem stream_cons (m : List α) (rest : List (List α)) :
    stream H (m :: rest) = frame H m ++ stream H rest := rfl

theorem stream_append (xs ys : List (List α)) :
    stream H (xs ++ ys) = stream H xs ++ stream H ys := List.flatMap_append

theorem arrived_of_lt {m : List α} {rest : List (List α)} {k : Nat}
    (h : k < (frame H m).length) : arrived H (m :: rest) k = [] :=
  if_neg (Nat.not_le.mpr h)

theorem arrived_of_le {m : List α} {rest : List (List α)} {k : Nat}
    (h : (frame H m).length ≤ k) :
    arrived H (m :: rest) k = m :: arrived H rest (k - (frame H m).length) := if_pos h

/-- After some whole frames, the rest is counted from there. -/
theorem arrived_append (xs ys : List (List α)) (k : Nat) :
    arrived H (xs ++ ys) ((stream H xs).length + k) = xs ++ arrived H ys k := by
  induction xs with
  | nil => simp
  | cons m rest ih =>
      rw [List.cons_append, stream_cons, List.length_append, Nat.add_assoc,
        arrived_of_le H (Nat.le_add_right _ _), Nat.add_sub_cancel_left, ih, List.cons_append]

theorem arrived_stream (ms : List (List α)) : arrived H ms (stream H ms).length = ms := by
  have h := arrived_append H ms [] 0
  rwa [List.append_nil, Nat.add_zero, arrived, List.append_nil] at h

/-- The complete frames are those that fit, where the next one does not. -/
theorem arrived_eq {xs ys : List (List α)} {d : Nat}
    (h : ∀ m rest, ys = m :: rest → d < (frame H m).length) :
    arrived H (xs ++ ys) ((stream H xs).length + d) = xs := by
  rw [arrived_append]
  cases ys with
  | nil => simp [arrived]
  | cons m rest => rw [arrived_of_lt H (h m rest rfl), List.append_nil]

/-- The complete frames fit, and the next one does not. -/
theorem arrived_split (ms : List (List α)) (k : Nat) :
    ∃ rest d, ms = arrived H ms k ++ rest ∧ k = (stream H (arrived H ms k)).length + d ∧
      ∀ m rest', rest = m :: rest' → d < (frame H m).length := by
  induction ms generalizing k with
  | nil => exact ⟨[], k, rfl, by simp [arrived], fun _ _ h => (nomatch h)⟩
  | cons m tail ih =>
      by_cases hle : (frame H m).length ≤ k
      · obtain ⟨rest, d, hsplit, hlength, hnext⟩ := ih (k - (frame H m).length)
        refine ⟨rest, d, ?_, ?_, hnext⟩
        · rw [arrived_of_le H hle, List.cons_append, ← hsplit]
        · rw [arrived_of_le H hle, stream_cons, List.length_append]
          omega
      · have hlt := Nat.not_le.mp hle
        refine ⟨m :: tail, k, ?_, ?_, ?_⟩
        · rw [arrived_of_lt H hlt]
          rfl
        · rw [arrived_of_lt H hlt]
          simp
        · rintro _ _ h
          cases h
          exact hlt

/-- A beginning of a stream that ends inside a frame is that far into it. -/
theorem take_of_lt {m u v : List α} {rest : List (List α)}
    (h : stream H (m :: rest) = u ++ v) (hlt : u.length ≤ (frame H m).length) :
    u = (frame H m).take u.length := by
  have htake := congrArg (List.take u.length) h
  rw [List.take_left, stream_cons, List.take_append_of_le_length hlt] at htake
  exact htake.symm

/-- A beginning of a stream that goes beyond the first frame starts with it. -/
theorem starts_with_frame {m u v : List α} {rest : List (List α)}
    (h : stream H (m :: rest) = u ++ v) (hle : (frame H m).length ≤ u.length) :
    ∃ w, u = frame H m ++ w ∧ stream H rest = w ++ v := by
  rw [stream_cons] at h
  obtain ⟨w, hu, hrest⟩ | ⟨w, hm, hv⟩ := List.append_eq_append_iff.mp h
  · exact ⟨w, hu, hrest⟩
  · have hlength := congrArg List.length hm
    rw [List.length_append] at hlength
    have hw : w = [] := List.length_eq_zero_iff.mp (by omega)
    subst hw
    exact ⟨[], by rw [hm, List.append_nil, List.append_nil], hv.symm⟩

/-! ## Lists that a rotation leaves alone -/

/-- Putting the last element first changes nothing exactly where all are
equal. -/
theorem getLast_cons_dropLast_iff {l : List α} (hl : l ≠ []) :
    l.getLast hl :: l.dropLast = l ↔ ∀ a ∈ l, ∀ b ∈ l, a = b := by
  constructor
  · intro h
    have hall : ∀ (l : List α) (x : α), x :: l = l ++ [x] → ∀ a ∈ l, a = x := by
      intro l
      induction l with
      | nil => exact fun _ _ a ha => (nomatch ha)
      | cons y tail ih =>
          intro x hx
          rw [List.cons_append] at hx
          obtain ⟨hxy, htail⟩ := List.cons.inj hx
          subst hxy
          exact List.forall_mem_cons.mpr ⟨rfl, ih x htail⟩
    have heq : l.getLast hl :: l.dropLast = l.dropLast ++ [l.getLast hl] := by
      rw [List.dropLast_append_getLast]
      exact h
    have hmem : ∀ a ∈ l, a = l.getLast hl := by
      intro a ha
      rw [← h] at ha
      rcases List.mem_cons.mp ha with hlast | hinit
      · exact hlast
      · exact hall _ _ heq a hinit
    exact fun a ha b hb => (hmem a ha).trans (hmem b hb).symm
  · intro hall
    have hmem := fun a ha => hall a ha _ (List.getLast_mem hl)
    have hreplicate : l = List.replicate l.length (l.getLast hl) :=
      List.eq_replicate_of_mem hmem
    obtain ⟨n, hn⟩ := Nat.exists_eq_succ_of_ne_zero (mt List.length_eq_zero_iff.mp hl)
    have hdrop : l.dropLast = List.replicate n (l.getLast hl) := by
      rw [List.eq_replicate_iff]
      refine ⟨by rw [List.length_dropLast, hn]; rfl, fun a ha => ?_⟩
      exact hmem a (List.dropLast_subset l ha)
    calc l.getLast hl :: l.dropLast
        = List.replicate (n + 1) (l.getLast hl) := by rw [hdrop, List.replicate_succ]
      _ = List.replicate l.length (l.getLast hl) := by rw [hn]
      _ = l := hreplicate.symm

end Ellipticoind.Verified.Frames
