import Ellipticoind.Ports.VMRun

/-!
# A run acts on the shared state as its record says

The record a run leaves determines what the run did to `Memory` and `Storage`:
both are the starting ones with the recorded operations applied in order.
This is where the virtual machine meets `Verified.Overlay`: whatever the
contracts do, and however their calls nest, each state sees one sequence of
writes, commits and rollbacks.

## Main results

* `get_eq_overlay_iff` — when a read answers the last write that no rollback
  has undone.
* `frameRelation_journaled`, `journaled_call` — the record accounts for the whole
  run of a guest, and of a frame.
-/

namespace Ellipticoind.Ports

open Ellipticoind.Verified.Overlay
open Ellipticoind.Verified.StateRun

variable {P : Platform}

/-! ## What a read sees -/

/-- A `Memory` reads its lower map alone, whatever ran before. -/
theorem Memory.get_run (redis : Redis) (initial : Changeset) (ops : List StateOp)
    (key : Bytes) :
    ((Memory.new redis initial).run ops).get key =
      readThrough ((Memory.new redis initial).layers.run ops).committed
        ((Memory.new redis initial).getFromMemory key) key := by
  rw [← Memory.layers_run, ← Memory.getFromMemory_run _ ops]
  rfl

/-- A `Storage` reads its lower map alone, whatever ran before. -/
theorem Storage.get_run (redis : Redis) (rocksdb : RocksDB) (initial : Changeset)
    (ops : List StateOp) (key : Bytes) :
    ((Storage.new redis rocksdb initial).run ops).get key =
      readThrough ((Storage.new redis rocksdb initial).layers.run ops).committed
        ((Storage.new redis rocksdb initial).getFromStorage key) key := by
  rw [← Storage.layers_run, ← Storage.getFromStorage_run _ ops]
  rfl

/-- Reading a key just written asks the same maps as reading it before. -/
theorem VM.memoryGet_memorySet (vm : VM P) (key value : Bytes) :
    (do VM.memorySet key value; VM.memoryGet key : Run P Bytes).run' vm =
      unwrap (vm.memory.get key) := by
  show (liftM (unwrap (vm.memory.get key)) : Run P Bytes).run' _ = _
  cases vm.memory.get key <;> rfl

theorem VM.storageGet_storageSet (vm : VM P) (key value : Bytes) :
    (do VM.storageSet key value; VM.storageGet key : Run P Bytes).run' vm =
      unwrap (vm.storage.get key) := by
  show (liftM (unwrap (vm.storage.get key)) : Run P Bytes).run' _ = _
  cases vm.storage.get key <;> rfl

theorem unwrap_eq_ok {α : Type} {a : Option α} {b : α} :
    unwrap a = .ok b ↔ a = some b := by
  cases a <;> simp [unwrap]

/-- **When reads see writes.**  After any run of a `Memory` or a `Storage`, a
read of a key answers the last write no rollback has undone, else the initial
entry, else the persisted value, exactly where `Settled` holds: no write to the
key is pending that differs from what lies beneath it.  For two host calls in
a row, a contract reads back what it has just written exactly if that value lay
beneath its writes already. -/
theorem get_eq_overlay_iff (redis : Redis) (rocksdb : RocksDB)
    (initial : Changeset) (ops : List StateOp) (key : Bytes) :
    (((Memory.new redis initial).run ops).get key =
        overlayValue ops initial
          ((Memory.new redis initial).getFromMemory key) key ↔
      Settled ops initial ((Memory.new redis initial).getFromMemory key) key) ∧
    (((Storage.new redis rocksdb initial).run ops).get key =
        overlayValue ops initial
          ((Storage.new redis rocksdb initial).getFromStorage key) key ↔
      Settled ops initial
        ((Storage.new redis rocksdb initial).getFromStorage key) key) ∧
    (∀ (P : Platform) (vm : VM P) (value : Bytes),
      ((do VM.memorySet key value; VM.memoryGet key : Run P Bytes).run' vm =
          .ok value ↔
        LiesBeneath vm.memory.changeset (vm.memory.getFromMemory key) key value) ∧
      ((do VM.storageSet key value; VM.storageGet key : Run P Bytes).run' vm =
          .ok value ↔
        LiesBeneath vm.storage.changeset (vm.storage.getFromStorage key) key
          value)) := by
  refine ⟨?_, ?_, fun P vm value => ⟨?_, ?_⟩⟩
  · rw [Memory.get_run]
    exact readThrough_eq_overlay_iff (l := (Memory.new redis initial).layers) rfl
      ops _ key
  · rw [Storage.get_run]
    exact readThrough_eq_overlay_iff
      (l := (Storage.new redis rocksdb initial).layers) rfl ops _ key
  · rw [VM.memoryGet_memorySet, unwrap_eq_ok]
    exact readThrough_eq_some_iff
  · rw [VM.storageGet_storageSet, unwrap_eq_ok]
    exact readThrough_eq_some_iff

/-- A pending write is not read back: one write, then a read of its key. -/
theorem get_after_set_misses :
    ¬ ∀ (redis : Redis) (initial : Changeset) (ops : List StateOp) (key : Bytes),
      ((Memory.new redis initial).run ops).get key =
        overlayValue ops initial
          ((Memory.new redis initial).getFromMemory key) key := by
  intro h
  exact absurd (h ∅ ∅ [.set [1] [2]] [1]) (by decide +kernel)

/-! ## The record of a run -/

/-- What an entry of the record does to the memory. -/
def Event.memoryOp : Event → Option StateOp
  | .setMemory key value => some (.set key value)
  | .commit => some .commit
  | .rollback => some .rollback
  | _ => none

/-- What an entry of the record does to the storage. -/
def Event.storageOp : Event → Option StateOp
  | .setStorage key value => some (.set key value)
  | .commit => some .commit
  | .rollback => some .rollback
  | _ => none

/-- The operations of a record on the memory. -/
def memoryOps (trace : List Event) : List StateOp := trace.filterMap Event.memoryOp

/-- The operations of a record on the storage. -/
def storageOps (trace : List Event) : List StateOp := trace.filterMap Event.storageOp

theorem memoryOps_append (xs ys : List Event) :
    memoryOps (xs ++ ys) = memoryOps xs ++ memoryOps ys := List.filterMap_append

theorem storageOps_append (xs ys : List Event) :
    storageOps (xs ++ ys) = storageOps xs ++ storageOps ys := List.filterMap_append

/-- The end of a nested frame is no operation on either state: the commit or
rollback that came with it has its own entry. -/
@[simp] theorem memoryOps_frameEnd (trace : List Event) (callEnd : CallEnd) :
    memoryOps (trace ++ [.frameEnd callEnd]) = memoryOps trace := by
  rw [memoryOps_append]
  exact List.append_nil _

@[simp] theorem storageOps_frameEnd (trace : List Event) (callEnd : CallEnd) :
    storageOps (trace ++ [.frameEnd callEnd]) = storageOps trace := by
  rw [storageOps_append]
  exact List.append_nil _

/-- Neither is its start. -/
@[simp] theorem memoryOps_called (address : Bytes) (trace : List Event) :
    memoryOps (.called address :: trace) = memoryOps trace := rfl

@[simp] theorem storageOps_called (address : Bytes) (trace : List Event) :
    storageOps (.called address :: trace) = storageOps trace := rfl

/-- `vm'` is `vm` after the entries `events`. -/
structure JournaledBy (events : List Event) (vm vm' : VM P) : Prop where
  trace : vm'.trace = vm.trace ++ events
  memory : vm'.memory = vm.memory.run (memoryOps events)
  storage : vm'.storage = vm.storage.run (storageOps events)

/-- The entries between two states account for the difference of their
memory and storage. -/
def Journaled (vm vm' : VM P) : Prop := ∃ events, JournaledBy events vm vm'

/-- One entry, and the operation it stands for. -/
private theorem journaled_single {vm vm' : VM P} (event : Event)
    (htrace : vm'.trace = vm.trace ++ [event])
    (hmemory : vm'.memory = vm.memory.run (memoryOps [event]))
    (hstorage : vm'.storage = vm.storage.run (storageOps [event])) :
    Journaled vm vm' :=
  ⟨[event], htrace, hmemory, hstorage⟩

/-- A state that differs in neither the record nor the two states. -/
private theorem journaled_silent {vm vm' : VM P} (htrace : vm'.trace = vm.trace)
    (hmemory : vm'.memory = vm.memory) (hstorage : vm'.storage = vm.storage) :
    Journaled vm vm' :=
  ⟨[], by rw [htrace, List.append_nil], hmemory, hstorage⟩

theorem frameRelation_journaled : FrameRelation (Journaled (P := P)) where
  refl vm := journaled_silent rfl rfl rfl
  trans := by
    rintro a b c ⟨xs, htrace, hmemory, hstorage⟩ ⟨ys, htrace', hmemory', hstorage'⟩
    refine ⟨xs ++ ys, ?_, ?_, ?_⟩
    · rw [htrace', htrace, List.append_assoc]
    · rw [hmemory', hmemory, memoryOps_append, Memory.run_append]
    · rw [hstorage', hstorage, storageOps_append, Storage.run_append]
  useGas vm gas amount _ _ := journaled_silent rfl rfl rfl
  moduleInstance vm inst := journaled_silent rfl rfl rfl
  host vm index := journaled_single (.host index) rfl rfl rfl
  memoryGet vm key := journaled_single (.getMemory key) rfl rfl rfl
  storageGet vm key := journaled_single (.getStorage key) rfl rfl rfl
  memorySet vm key value :=
    journaled_single (.setMemory (vm.namespacedKey key) value) rfl rfl rfl
  storageSet vm key value :=
    journaled_single (.setStorage (vm.namespacedKey key) value) rfl rfl rfl
  commit vm := journaled_single .commit rfl rfl rfl
  rollback vm := journaled_single .rollback rfl rfl rfl
  nested := by
    rintro vm inst address name callee callEnd ⟨events, htrace, hmemory, hstorage⟩
    refine ⟨.called address :: (events ++ [.frameEnd callEnd]), ?_, ?_, ?_⟩
    · show callee.trace ++ [.frameEnd callEnd] = _
      rw [htrace]
      simp [VM.calleeFrame]
    · rw [memoryOps_called, memoryOps_frameEnd]
      exact hmemory
    · rw [storageOps_called, storageOps_frameEnd]
      exact hstorage

theorem journaled_call (fuel : Nat) (stack : List String) (func : String)
    (arguments : List Value) :
    Guarantee Journaled (VM.call (invoke P fuel stack) func arguments) :=
  frameRelation_journaled.guarantee_call
    (frameRelation_journaled.guarantee_invoke fuel stack) func arguments

end Ellipticoind.Ports
