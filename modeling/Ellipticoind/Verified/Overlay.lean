import Mathlib.Data.Finmap

/-!
# Writes over a finite map, with commit and rollback

A `Layers` value is a finite map with the writes not committed yet kept in a
second finite map above it.  A frame of writes ends in one of two ways:
`commit` moves the upper map into the lower one, `rollback` drops it.

What a sequence of operations does is decided, key by key, by three functions
of the sequence alone, none of which mentions the two maps:

* `latestWrite` — the last write that no rollback has undone;
* `committedWrite` — the last write that a commit has made permanent;
* `pendingWrite` — the last write since the frame began.

## Main results

* `Layers.pending_run`, `Layers.committed_run` — the two maps after a run, from the start
  and the sequence.
* `latestWrite_eq` — the last surviving write is the pending one where there
  is one, else the committed one.
* `Layers.pending_run_eq_iff`, `Layers.committed_run_eq_iff` — when a run leaves
  one of the two maps as it was.
-/

namespace Ellipticoind.Verified.Overlay

variable {κ ν : Type} [DecidableEq κ]

/-- One write, or one of the two ways a frame of writes ends. -/
inductive Op (κ ν : Type) where
  | set (key : κ) (value : ν)
  | commit
  | rollback
  deriving DecidableEq

/-- Writes not committed yet, above the map they are to be committed to. -/
structure Layers (κ ν : Type) where
  /-- The lower map. -/
  committed : Finmap fun _ : κ => ν
  /-- The writes of the open frame. -/
  pending : Finmap fun _ : κ => ν

/-- A union reads its left map first. -/
theorem lookup_union (a b : Finmap fun _ : κ => ν) (k : κ) :
    (a ∪ b).lookup k = (a.lookup k).or (b.lookup k) := by
  by_cases hk : k ∈ a
  · obtain ⟨v, hv⟩ := Finmap.mem_iff.mp hk
    rw [Finmap.lookup_union_left hk, hv, Option.some_or]
  · rw [Finmap.lookup_union_right hk, Finmap.lookup_eq_none.mpr hk, Option.none_or]

/-- Reading after one insertion. -/
theorem lookup_insert (a : Finmap fun _ : κ => ν) (k k' : κ) (v : ν) :
    (a.insert k' v).lookup k = if k' = k then some v else a.lookup k := by
  by_cases hk : k' = k
  · subst hk
    rw [if_pos rfl, Finmap.lookup_insert]
  · rw [if_neg hk, Finmap.lookup_insert_of_ne _ (Ne.symm hk)]

/-- One operation on the two maps. -/
def Layers.apply (l : Layers κ ν) : Op κ ν → Layers κ ν
  | .set k v => { l with pending := l.pending.insert k v }
  | .commit => { committed := l.pending ∪ l.committed, pending := ∅ }
  | .rollback => { l with pending := ∅ }

/-- A sequence of operations, the earliest first. -/
def Layers.run (l : Layers κ ν) (ops : List (Op κ ν)) : Layers κ ν :=
  ops.foldl Layers.apply l

theorem Layers.run_nil (l : Layers κ ν) : l.run [] = l := rfl

theorem Layers.run_cons (l : Layers κ ν) (op : Op κ ν) (rest : List (Op κ ν)) :
    l.run (op :: rest) = (l.apply op).run rest := rfl

theorem Layers.run_append (l : Layers κ ν) (xs ys : List (Op κ ν)) :
    l.run (xs ++ ys) = (l.run xs).run ys := by
  unfold Layers.run
  rw [List.foldl_append]

/-! ## What a sequence writes -/

/-- How the frame open at the start of a sequence ends in it. -/
inductive Ending where
  | unfinished
  | committed
  | rolledBack
  deriving DecidableEq

/-- The first commit or rollback of a sequence decides. -/
def ending : List (Op κ ν) → Ending
  | [] => .unfinished
  | .set _ _ :: rest => ending rest
  | .commit :: _ => .committed
  | .rollback :: _ => .rolledBack

/-- The write an operation makes to the key `k`. -/
def Op.write (op : Op κ ν) (k : κ) : Option ν :=
  match op with
  | .set k' v => if k' = k then some v else none
  | _ => none

/-- The last write to `k` whose own frame ends as `keep` allows.  The frame of
a write ends where the operations after it say. -/
def lastWrite (keep : Ending → Bool) : List (Op κ ν) → κ → Option ν
  | [], _ => none
  | op :: rest, k =>
      (lastWrite keep rest k).or
        (if keep (ending rest) then op.write k else none)

/-- The last write to `k` that no rollback undoes. -/
def latestWrite (ops : List (Op κ ν)) (k : κ) : Option ν :=
  lastWrite (fun e => decide (e ≠ .rolledBack)) ops k

/-- The last write to `k` that a commit makes permanent. -/
def committedWrite (ops : List (Op κ ν)) (k : κ) : Option ν :=
  lastWrite (fun e => decide (e = .committed)) ops k

/-- The last write to `k` in the frame still open at the end. -/
def pendingWrite (ops : List (Op κ ν)) (k : κ) : Option ν :=
  lastWrite (fun e => decide (e = .unfinished)) ops k

/-- A key that no operation writes has no last write. -/
theorem lastWrite_eq_none {keep : Ending → Bool} {ops : List (Op κ ν)} {k : κ}
    (h : ∀ op ∈ ops, op.write k = none) : lastWrite keep ops k = none := by
  induction ops with
  | nil => rfl
  | cons op rest ih =>
      obtain ⟨hfirst, hrest⟩ := List.forall_mem_cons.mp h
      simp [lastWrite, ih hrest, hfirst]

/-- While no frame has ended, no write has been made permanent. -/
theorem committedWrite_eq_none {ops : List (Op κ ν)}
    (h : ending ops = .unfinished) (k : κ) : committedWrite ops k = none := by
  induction ops with
  | nil => rfl
  | cons op rest ih =>
      cases op with
      | set k' v =>
          have hrest : ending rest = .unfinished := h
          have htail := ih hrest
          unfold committedWrite at htail ⊢
          simp [lastWrite, htail, hrest]
      | commit => cases h
      | rollback => cases h

/-- The last surviving write is the pending one where there is one, else the
last one made permanent. -/
theorem latestWrite_eq (ops : List (Op κ ν)) (k : κ) :
    latestWrite ops k = (pendingWrite ops k).or (committedWrite ops k) := by
  induction ops with
  | nil => rfl
  | cons op rest ih =>
      unfold latestWrite pendingWrite committedWrite at ih ⊢
      simp only [lastWrite]
      rw [ih]
      cases hend : ending rest with
      | unfinished =>
          have hnone : lastWrite (fun e => decide (e = .committed)) rest k = none :=
            committedWrite_eq_none hend k
          simp [hnone]
      | committed => simp [Option.or_assoc]
      | rolledBack => simp

/-! ## The two maps after a run -/

/-- The open frame's writes: those of the sequence, over those of the start
if the frame that was open then still is. -/
theorem Layers.pending_run (ops : List (Op κ ν)) (l : Layers κ ν) (k : κ) :
    (l.run ops).pending.lookup k =
      (pendingWrite ops k).or
        (if ending ops = .unfinished then l.pending.lookup k else none) := by
  induction ops generalizing l with
  | nil => simp [Layers.run_nil, ending, pendingWrite, lastWrite]
  | cons op rest ih =>
      rw [Layers.run_cons, ih]
      unfold pendingWrite
      cases op with
      | set k' v =>
          simp only [lastWrite, Layers.apply, ending, Op.write, lookup_insert]
          by_cases hk : k' = k <;> by_cases hend : ending rest = .unfinished <;>
            simp [hk, hend]
      | commit =>
          cases hend : ending rest <;>
            simp [lastWrite, Layers.apply, ending, Op.write, hend]
      | rollback =>
          cases hend : ending rest <;>
            simp [lastWrite, Layers.apply, ending, Op.write, hend]

/-- The lower map: the writes made permanent, over those pending at the start
if their frame was committed, over the lower map of the start. -/
theorem Layers.committed_run (ops : List (Op κ ν)) (l : Layers κ ν) (k : κ) :
    (l.run ops).committed.lookup k =
      (committedWrite ops k).or
        ((if ending ops = .committed then l.pending.lookup k else none).or
          (l.committed.lookup k)) := by
  induction ops generalizing l with
  | nil => simp [Layers.run_nil, ending, committedWrite, lastWrite]
  | cons op rest ih =>
      rw [Layers.run_cons, ih]
      unfold committedWrite
      cases op with
      | set k' v =>
          simp only [lastWrite, Layers.apply, ending, Op.write, lookup_insert]
          by_cases hk : k' = k <;> by_cases hend : ending rest = .committed <;>
            simp [hk, hend]
      | commit =>
          cases hend : ending rest <;>
            simp [lastWrite, Layers.apply, ending, Op.write, hend, lookup_union]
      | rollback =>
          cases hend : ending rest <;>
            simp [lastWrite, Layers.apply, ending, Op.write, hend]

/-! ## Runs that change nothing -/

/-- No write pending at the end that was not pending already.  A sequence in
which a frame ends starts a new one, so there the writes after the last end
have to be the old pending ones exactly. -/
def KeepsPending (l : Layers κ ν) (ops : List (Op κ ν)) : Prop :=
  if ending ops = .unfinished then
    ∀ k v, pendingWrite ops k = some v → l.pending.lookup k = some v
  else ∀ k, pendingWrite ops k = l.pending.lookup k

/-- Every write made permanent was in the lower map already: the last one that
a commit in the sequence covers, and those pending at the start when the first
frame to end is committed. -/
def KeepsCommitted (l : Layers κ ν) (ops : List (Op κ ν)) : Prop :=
  ∀ k v,
    (committedWrite ops k).or
        (if ending ops = .committed then l.pending.lookup k else none) = some v →
      l.committed.lookup k = some v

/-- A union with the smaller map on the left changes nothing exactly when the
left map agrees with the right one. -/
private theorem or_eq_right_iff (a b : Option ν) :
    a.or b = b ↔ ∀ v, a = some v → b = some v := by
  cases a with
  | none => simp
  | some v => simp [eq_comm]

theorem Layers.pending_run_eq_iff (l : Layers κ ν) (ops : List (Op κ ν)) :
    (l.run ops).pending = l.pending ↔ KeepsPending l ops := by
  have hlookup : (l.run ops).pending = l.pending ↔
      ∀ k, (l.run ops).pending.lookup k = l.pending.lookup k :=
    ⟨fun h k => by rw [h], Finmap.ext_lookup⟩
  rw [hlookup]
  unfold KeepsPending
  by_cases hend : ending ops = .unfinished
  · simp only [Layers.pending_run, hend, if_true]
    exact forall_congr' fun k => or_eq_right_iff _ _
  · simp only [Layers.pending_run, hend, if_false, Option.or_none]

theorem Layers.committed_run_eq_iff (l : Layers κ ν) (ops : List (Op κ ν)) :
    (l.run ops).committed = l.committed ↔ KeepsCommitted l ops := by
  have hlookup : (l.run ops).committed = l.committed ↔
      ∀ k, (l.run ops).committed.lookup k = l.committed.lookup k :=
    ⟨fun h k => by rw [h], Finmap.ext_lookup⟩
  rw [hlookup]
  unfold KeepsCommitted
  simp only [Layers.committed_run, ← Option.or_assoc]
  exact forall_congr' fun k => or_eq_right_iff _ _

/-- A frame opened on an empty one leaves the lower map alone exactly when
every write it makes permanent was there. -/
theorem keepsCommitted_of_fresh {l : Layers κ ν} (h : l.pending = ∅)
    (ops : List (Op κ ν)) :
    KeepsCommitted l ops ↔
      ∀ k v, committedWrite ops k = some v → l.committed.lookup k = some v := by
  unfold KeepsCommitted
  simp [h]

end Ellipticoind.Verified.Overlay
