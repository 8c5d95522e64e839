import Ellipticoind.Ports.Redis
import Ellipticoind.Verified.Overlay

/-!
# Working state over the persisted state

`memory.rs` and `storage.rs` keep the same two maps over a persisted store:
`changeset`, the writes committed so far in the block, and
`working_changeset`, the writes of the running frames.  They differ in the
store below: Redis alone, or RocksDB with its block index in Redis.

Reading from the persisted store can abort the process (`expect`, `unwrap`);
`none` stands for that.  Both `get` functions evaluate the persisted read
before they look at `changeset`.

## Main results

* `layers_run` — each of the two acts on its two maps as
  `Verified.Overlay.Layers` does.
* `readThrough_eq_overlay_iff` — when `get` answers what the last surviving write
  says.
-/

namespace Ellipticoind.Ports

open Ellipticoind.Verified.Overlay

/-- `changeset.rs`. -/
abbrev Changeset := Finmap fun _ : Bytes => Bytes

/-- One operation on a `Memory` or a `Storage`. -/
abbrev StateOp := Op Bytes Bytes

/-- `get_latest`: the head of the key's block list, `0` when there is none.
`none` is the `expect` on a value of another type.  A reply is read as a
`Vec<u64>` by dropping what is no `u64`. -/
def getLatest (redis : Redis) (stateType : StateType) (key : Bytes) :
    Option Nat :=
  match redis.lrange (blockIndexKey stateType key) 0 0 with
  | .error _ => none
  | .ok items => some ((items.filterMap Item.asU64).headD 0)

theorem getLatest_of_nil {redis : Redis} {stateType : StateType} {key : Bytes}
    (h : redis.list (blockIndexKey stateType key) = .ok []) :
    getLatest redis stateType key = some 0 := by
  simp [getLatest, Redis.lrange, h, Except.map, Redis.slice]

theorem getLatest_of_cons {redis : Redis} {stateType : StateType} {key : Bytes} {n : Nat}
    {items : List Item} (h : redis.list (blockIndexKey stateType key) = .ok (.int n :: items)) :
    getLatest redis stateType key = some (if n < 2 ^ 64 then n else 0) := by
  have hhead : getLatest redis stateType key = some ((Item.asU64 (.int n)).getD 0) := by
    simp only [getLatest, Redis.lrange, h, Except.map]
    show some ((List.filterMap Item.asU64 [.int n]).headD 0) = _
    rw [List.filterMap_cons]
    cases Item.asU64 (.int n) <;> rfl
  rw [hhead, Item.asU64]
  split <;> rfl

/-- `get`: the committed entry where there is one, else the persisted value,
which is read in either case. -/
def readThrough (changeset : Changeset) (persisted : Option Bytes)
    (key : Bytes) : Option Bytes :=
  persisted.map fun value => (changeset.lookup key).getD value

/-! ## `memory.rs` -/

/-- `Memory`. -/
structure Memory where
  redis : Redis
  changeset : Changeset
  workingChangeset : Changeset

namespace Memory

/-- `Memory::new`. -/
def new (redis : Redis) (changeset : Changeset) : Memory where
  redis := redis
  changeset := changeset
  workingChangeset := ∅

/-- `get_from_memory`.  A missing hash field converts to the empty vector. -/
def getFromMemory (m : Memory) (key : Bytes) : Option Bytes :=
  (getLatest m.redis .memory key).bind fun latestBlock =>
    match m.redis.hget (utf8 "memory") (.bytes (hashKey latestBlock key)) with
    | .error _ => none
    | .ok none => some []
    | .ok (some item) => item.asBytes

def get (m : Memory) (key : Bytes) : Option Bytes :=
  readThrough m.changeset (m.getFromMemory key) key

def set (m : Memory) (key value : Bytes) : Memory :=
  { m with workingChangeset := m.workingChangeset.insert key value }

def commit (m : Memory) : Memory :=
  { m with changeset := m.workingChangeset ∪ m.changeset, workingChangeset := ∅ }

def rollback (m : Memory) : Memory :=
  { m with workingChangeset := ∅ }

/-- The operation `op`, as the method of the same name. -/
def apply (m : Memory) : StateOp → Memory
  | .set key value => m.set key value
  | .commit => m.commit
  | .rollback => m.rollback

def run (m : Memory) (ops : List StateOp) : Memory := ops.foldl apply m

def layers (m : Memory) : Layers Bytes Bytes where
  committed := m.changeset
  pending := m.workingChangeset

@[simp] theorem layers_apply (m : Memory) (op : StateOp) :
    (m.apply op).layers = m.layers.apply op := by
  cases op <;> rfl

/-- The persisted read sees the store alone, which no operation changes. -/
@[simp] theorem getFromMemory_apply (m : Memory) (op : StateOp) (key : Bytes) :
    (m.apply op).getFromMemory key = m.getFromMemory key := by
  cases op <;> rfl

theorem run_cons (m : Memory) (op : StateOp) (rest : List StateOp) :
    m.run (op :: rest) = (m.apply op).run rest := rfl

theorem run_append (m : Memory) (xs ys : List StateOp) :
    m.run (xs ++ ys) = (m.run xs).run ys := List.foldl_append

theorem layers_run (m : Memory) (ops : List StateOp) :
    (m.run ops).layers = m.layers.run ops := by
  induction ops generalizing m with
  | nil => rfl
  | cons op rest ih => rw [run_cons, ih, layers_apply, Layers.run_cons]

theorem getFromMemory_run (m : Memory) (ops : List StateOp) (key : Bytes) :
    (m.run ops).getFromMemory key = m.getFromMemory key := by
  induction ops generalizing m with
  | nil => rfl
  | cons op rest ih => rw [run_cons, ih, getFromMemory_apply]

end Memory

/-! ## `storage.rs` -/

/-- `Storage`. -/
structure Storage where
  redis : Redis
  rocksdb : RocksDB
  changeset : Changeset
  workingChangeset : Changeset

namespace Storage

/-- `Storage::new`. -/
def new (redis : Redis) (rocksdb : RocksDB) (changeset : Changeset) : Storage where
  redis := redis
  rocksdb := rocksdb
  changeset := changeset
  workingChangeset := ∅

/-- `get_from_storage`. -/
def getFromStorage (s : Storage) (key : Bytes) : Option Bytes :=
  (getLatest s.redis .storage key).map fun latestBlock =>
    (s.rocksdb.lookup (hashKey latestBlock key)).getD []

def get (s : Storage) (key : Bytes) : Option Bytes :=
  readThrough s.changeset (s.getFromStorage key) key

def set (s : Storage) (key value : Bytes) : Storage :=
  { s with workingChangeset := s.workingChangeset.insert key value }

def commit (s : Storage) : Storage :=
  { s with changeset := s.workingChangeset ∪ s.changeset, workingChangeset := ∅ }

def rollback (s : Storage) : Storage :=
  { s with workingChangeset := ∅ }

/-- The operation `op`, as the method of the same name. -/
def apply (s : Storage) : StateOp → Storage
  | .set key value => s.set key value
  | .commit => s.commit
  | .rollback => s.rollback

def run (s : Storage) (ops : List StateOp) : Storage := ops.foldl apply s

def layers (s : Storage) : Layers Bytes Bytes where
  committed := s.changeset
  pending := s.workingChangeset

@[simp] theorem layers_apply (s : Storage) (op : StateOp) :
    (s.apply op).layers = s.layers.apply op := by
  cases op <;> rfl

/-- The persisted read sees the two stores alone, which no operation
changes. -/
@[simp] theorem getFromStorage_apply (s : Storage) (op : StateOp) (key : Bytes) :
    (s.apply op).getFromStorage key = s.getFromStorage key := by
  cases op <;> rfl

theorem run_cons (s : Storage) (op : StateOp) (rest : List StateOp) :
    s.run (op :: rest) = (s.apply op).run rest := rfl

theorem run_append (s : Storage) (xs ys : List StateOp) :
    s.run (xs ++ ys) = (s.run xs).run ys := List.foldl_append

theorem layers_run (s : Storage) (ops : List StateOp) :
    (s.run ops).layers = s.layers.run ops := by
  induction ops generalizing s with
  | nil => rfl
  | cons op rest ih => rw [run_cons, ih, layers_apply, Layers.run_cons]

theorem getFromStorage_run (s : Storage) (ops : List StateOp) (key : Bytes) :
    (s.run ops).getFromStorage key = s.getFromStorage key := by
  induction ops generalizing s with
  | nil => rfl
  | cons op rest ih => rw [run_cons, ih, getFromStorage_apply]

end Storage

/-! ## Reading and the last surviving write -/

/-- What a read of `key` owes to the operations before it: the last write no
rollback has undone, else the entry of the initial changeset, else the
persisted value. -/
def overlayValue (ops : List StateOp) (initial : Changeset)
    (persisted : Option Bytes) (key : Bytes) : Option Bytes :=
  match (latestWrite ops key).or (initial.lookup key) with
  | some value => some value
  | none => persisted

/-- The operations and the state before them leave nothing for a read of `key`
to miss.  A store that cannot be read has to have nothing written over it, and
a write still pending has to have written what lay beneath it. -/
structure Settled (ops : List StateOp) (initial : Changeset)
    (persisted : Option Bytes) (key : Bytes) : Prop where
  unreadable : persisted = none →
    latestWrite ops key = none ∧ initial.lookup key = none
  pending : ∀ beneath, persisted = some beneath → ∀ value,
    pendingWrite ops key = some value →
      value = ((committedWrite ops key).or (initial.lookup key)).getD beneath

/-- `value` is what the layers under the pending writes have for `key`. -/
def LiesBeneath (changeset : Changeset) (persisted : Option Bytes)
    (key value : Bytes) : Prop :=
  ∃ beneath, persisted = some beneath ∧ (changeset.lookup key).getD beneath = value

theorem readThrough_eq_some_iff {changeset : Changeset} {persisted : Option Bytes}
    {key value : Bytes} :
    readThrough changeset persisted key = some value ↔
      LiesBeneath changeset persisted key value := Option.map_eq_some_iff

/-- The lower map of a run that starts with nothing pending. -/
theorem lookup_committed_run {l : Layers Bytes Bytes} (h : l.pending = ∅)
    (ops : List StateOp) (key : Bytes) :
    (l.run ops).committed.lookup key =
      (committedWrite ops key).or (l.committed.lookup key) := by
  simp [Layers.committed_run, h]

/-- Reading the lower map over the persisted value answers what the last
surviving write says exactly where nothing is left to miss. -/
theorem readThrough_eq_overlay_iff {l : Layers Bytes Bytes} (h : l.pending = ∅)
    (ops : List StateOp) (persisted : Option Bytes) (key : Bytes) :
    readThrough (l.run ops).committed persisted key =
        overlayValue ops l.committed persisted key ↔
      Settled ops l.committed persisted key := by
  unfold readThrough overlayValue
  rw [lookup_committed_run h, latestWrite_eq, Option.or_assoc]
  generalize hbelow : (committedWrite ops key).or (l.committed.lookup key) = below
  cases persisted with
  | none =>
      constructor
      · intro heq
        refine ⟨fun _ => ?_, fun _ hp => nomatch hp⟩
        rw [latestWrite_eq, ← Option.or_eq_none_iff, Option.or_assoc, hbelow]
        revert heq
        cases (pendingWrite ops key).or below <;> simp
      · intro hs
        have hnone := hs.unreadable rfl
        rw [latestWrite_eq, ← Option.or_eq_none_iff, Option.or_assoc, hbelow] at hnone
        rw [hnone]
        rfl
  | some beneath =>
      constructor
      · intro heq
        refine ⟨fun hp => (nomatch hp), fun b hb value hvalue => ?_⟩
        cases hb
        rw [hvalue] at heq
        rw [hbelow]
        simpa using heq.symm
      · intro hs
        cases hpending : pendingWrite ops key with
        | none => cases below <;> rfl
        | some value =>
            have hvalue := hs.pending beneath rfl value hpending
            rw [hbelow] at hvalue
            simp [hvalue]

end Ellipticoind.Ports
