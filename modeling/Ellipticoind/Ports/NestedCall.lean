import Ellipticoind.Ports.Transaction

/-!
# What a failed nested call leaves behind

`external_call` lends the caller's `Memory` and `Storage` to the callee.  When
the callee's `VM::call` ends in a trap, the caller goes on with whatever the
two states have become: rolled back as a whole when the function trapped, as
they stood when an argument could not be written.

## Main results

* `externalCall_frame` — the part of the record between the caller's states
  before and after a nested call.
* `failed_call_restores_iff` — when the caller finds its states as they were.
-/

namespace Ellipticoind.Ports

open Ellipticoind.Verified.Overlay
open Ellipticoind.Verified.StateRun

variable {P : Platform}

/-! ## The two ways a call fails -/

/-- Only the two ends that come before the function runs are reported by the
loop over the arguments. -/
theorem writeArguments_error {invoke : Invoke P} {arguments : List Value}
    {vm vm' : VM P} {callEnd : CallEnd}
    (h : VM.writeArguments invoke arguments vm = .ok (.error callEnd, vm')) :
    callEnd = .argumentPanic ∨ ∃ kind, callEnd = .argumentTrapped kind := by
  induction arguments generalizing vm vm' with
  | nil => cases pure_eq_ok.mp h
  | cons arg rest ih =>
      unfold VM.writeArguments at h
      obtain ⟨r, vm₁, _, h⟩ := bind_eq_ok.mp h
      split at h
      · obtain ⟨r', vm₂, hrest, h⟩ := bind_eq_ok.mp h
        split at h
        · cases pure_eq_ok.mp h
        · cases pure_eq_ok.mp h
          exact ih hrest
      · cases pure_eq_ok.mp h
        exact .inl rfl
      · cases pure_eq_ok.mp h
        exact .inr ⟨_, rfl⟩

/-- A function's trap ends the frame with a rollback of whatever ran in it. -/
theorem call_trapped {fuel : Nat} {stack : List String} {func : String}
    {arguments : List Value} {vm vm' : VM P} {kind : TrapKind}
    (h : VM.call (invoke P fuel stack) func arguments vm = .ok (.trapped kind, vm')) :
    ∃ events, JournaledBy (events ++ [.rollback]) vm vm' := by
  have hjournal := frameRelation_journaled (P := P)
  unfold VM.call at h
  obtain ⟨r, vm₁, harguments, h⟩ := bind_eq_ok.mp h
  have hvm₁ : Journaled vm vm₁ := hjournal.guarantee_writeArguments
    (hjournal.guarantee_invoke fuel stack) arguments _ _ _ harguments
  split at h
  · rename_i callEnd
    cases pure_eq_ok.mp h
    rcases writeArguments_error harguments with hpanic | ⟨_, htrap⟩
    · cases hpanic
    · cases htrap
  · obtain ⟨r, vm₂, hinvoke, h⟩ := bind_eq_ok.mp h
    have hvm₂ : Journaled vm₁ vm₂ :=
      hjournal.guarantee_invoke fuel stack _ _ _ _ _ hinvoke
    split at h
    · obtain ⟨_, _, _, h⟩ := bind_eq_ok.mp h
      obtain ⟨_, _, _, h⟩ := bind_eq_ok.mp h
      obtain ⟨_, _, _, h⟩ := bind_eq_ok.mp h
      cases pure_eq_ok.mp h
    · obtain ⟨_, vm₃, hrollback, h⟩ := bind_eq_ok.mp h
      cases pure_eq_ok.mp h
      cases modify_eq_ok.mp hrollback
      obtain ⟨events, htrace, hmemory, hstorage⟩ := hjournal.trans hvm₁ hvm₂
      refine ⟨events, ?_, ?_, ?_⟩
      · show vm₂.trace ++ [.rollback] = _
        rw [htrace, List.append_assoc]
      · rw [memoryOps_append, Memory.run_append, ← hmemory]
        rfl
      · rw [storageOps_append, Storage.run_append, ← hstorage]
        rfl
    · cases throw_ne_ok h
    · cases throw_ne_ok h

/-! ## The callee's part of the record -/

/-- A nested call, in the caller's record: the start of the callee's frame, its
entries, and its end. -/
theorem nestedCall_journaled {fuel : Nat} {stack : List String} {inst : Instance P.Globals}
    {address : Bytes} {name : String} {arguments : List Value}
    {callEnd : CallEnd} {gasLeft : Option Nat} {vm vm' : VM P}
    (h : VM.nestedCall (invoke P fuel stack) inst address name arguments vm =
      .ok ((callEnd, gasLeft), vm')) :
    ∃ events callee,
      VM.call (invoke P fuel stack) name arguments (vm.calleeFrame inst address name) =
        .ok (callEnd, callee) ∧
      JournaledBy events (vm.calleeFrame inst address name) callee ∧
      JournaledBy (.called address :: (events ++ [.frameEnd callEnd])) vm vm' := by
  unfold VM.nestedCall at h
  obtain ⟨⟨callEnd', callee⟩, hcall, h⟩ := except_bind_eq_ok.mp h
  cases h
  obtain ⟨events, hevents⟩ := journaled_call fuel stack _ _ _ _ _ hcall
  refine ⟨events, callee, hcall, hevents, ?_, ?_, ?_⟩
  · show callee.trace ++ [.frameEnd callEnd] = _
    rw [hevents.trace]
    simp [VM.calleeFrame]
  · rw [memoryOps_called, memoryOps_frameEnd]
    exact hevents.memory
  · rw [storageOps_called, storageOps_frameEnd]
    exact hevents.storage

/-- What follows a nested call in `external_call` pays for it and no more. -/
theorem useGas_states {amount : Nat} {vm vm' : VM P} {r : Except TrapKind Unit}
    (h : VM.useGas amount vm = .ok (r, vm')) :
    vm'.memory = vm.memory ∧ vm'.storage = vm.storage ∧ vm'.trace = vm.trace := by
  unfold VM.useGas at h
  split at h
  · split at h
    · cases h
      exact ⟨rfl, rfl, rfl⟩
    · cases h
      exact ⟨rfl, rfl, rfl⟩
  · cases h
    exact ⟨rfl, rfl, rfl⟩

theorem gasUsed_state {gasLeft : Option Nat} {vm vm' : VM P} {used : Nat}
    (h : VM.gasUsed gasLeft vm = .ok (used, vm')) : vm' = vm := by
  unfold VM.gasUsed at h
  obtain ⟨_, vm₀, hread, h⟩ := bind_eq_ok.mp h
  cases (read_eq_ok.mp hread).2
  obtain ⟨_, vm₁, hgas, h⟩ := bind_eq_ok.mp h
  obtain ⟨_, vm₂, hleft, h⟩ := bind_eq_ok.mp h
  rw [← (lift_eq_ok.mp hgas).2, ← (lift_eq_ok.mp hleft).2]
  split at h
  · cases pure_eq_ok.mp h
    rfl
  · split at h
    · cases throw_ne_ok h
    · cases pure_eq_ok.mp h
      rfl

/-- The frame once it has read an entry of the storage. -/
abbrev VM.lookedUp (vm : VM P) (key : Bytes) : VM P :=
  { vm with trace := vm.trace ++ [.getStorage key] }

/-- Reading an entry of the storage leaves itself in the record. -/
theorem storageGet_eq_ok {key value : Bytes} {vm vm' : VM P}
    (h : VM.storageGet key vm = .ok (value, vm')) :
    vm.storage.get key = some value ∧ vm' = vm.lookedUp key := by
  obtain ⟨_, vm₁, hemit, h⟩ := bind_eq_ok.mp h
  cases modify_eq_ok.mp hemit
  obtain ⟨_, vm₂, hread, h⟩ := bind_eq_ok.mp h
  obtain ⟨rfl, rfl⟩ := read_eq_ok.mp hread
  obtain ⟨hvalue, rfl⟩ := lift_eq_ok.mp h
  exact ⟨unwrap_eq_ok.mp hvalue, rfl⟩

theorem storageGet_state {key value : Bytes} {vm vm' : VM P}
    (h : VM.storageGet key vm = .ok (value, vm')) : vm' = vm.lookedUp key :=
  (storageGet_eq_ok h).2

/-- A completed `external_call` either found no code, and answered so, or ran the callee
and paid for it. -/
theorem externalCall_cases {new : Bytes → Except Stop (Instance P.Globals)}
    {invoke : Invoke P} {a f g : I32} {vm vm' : VM P} {r : Except TrapKind Bytes}
    (h : VM.externalCall new invoke a f g vm = .ok (r, vm')) :
    ∃ address code, vm.storage.get (rightPadVec address 64 0) = some code ∧
      ((code.length = 0 ∧ vm' = vm.lookedUp (rightPadVec address 64 0)) ∨
        (code.length ≠ 0 ∧ ∃ inst name arguments callEnd gasLeft vm₁ used paid,
          new code = .ok inst ∧
          VM.nestedCall invoke inst address name arguments
              (vm.lookedUp (rightPadVec address 64 0)) = .ok ((callEnd, gasLeft), vm₁) ∧
          VM.gasUsed gasLeft vm₁ = .ok (used, vm₁) ∧
          VM.useGas used vm₁ = .ok (paid, vm') ∧
          r = paid.map fun _ => toBytes P callEnd.result)) := by
  unfold VM.externalCall at h
  obtain ⟨address, vm₁, haddress, h⟩ := bind_eq_ok.mp h
  cases readPointer_state haddress
  obtain ⟨nameBytes, vm₂, hnameBytes, h⟩ := bind_eq_ok.mp h
  cases readPointer_state hnameBytes
  obtain ⟨name, vm₃, hname, h⟩ := bind_eq_ok.mp h
  cases (lift_eq_ok.mp hname).2
  obtain ⟨argumentsBytes, vm₄, hargumentsBytes, h⟩ := bind_eq_ok.mp h
  cases readPointer_state hargumentsBytes
  obtain ⟨arguments, vm₅, harguments, h⟩ := bind_eq_ok.mp h
  cases (lift_eq_ok.mp harguments).2
  obtain ⟨code, vm₆, hcode, h⟩ := bind_eq_ok.mp h
  obtain ⟨hfound, rfl⟩ := storageGet_eq_ok hcode
  refine ⟨address, code, hfound, ?_⟩
  split at h
  · left
    obtain ⟨_, vm₇, hread, h⟩ := bind_eq_ok.mp h
    cases (read_eq_ok.mp hread).2
    cases pure_eq_ok.mp h
    exact ⟨‹_›, rfl⟩
  · right
    obtain ⟨inst, _, hinst, h⟩ := bind_eq_ok.mp h
    obtain ⟨hnew, hstate⟩ := lift_eq_ok.mp hinst
    cases hstate
    obtain ⟨⟨callEnd, gasLeft⟩, vm₁, hnested, h⟩ := bind_eq_ok.mp h
    obtain ⟨used, _, hused, h⟩ := bind_eq_ok.mp h
    cases gasUsed_state hused
    obtain ⟨paid, vm₂, hpaid, h⟩ := bind_eq_ok.mp h
    refine ⟨‹_›, inst, name, arguments, callEnd, gasLeft, vm₁, used, paid, hnew, hnested,
      hused, ?_⟩
    split at h
    · cases pure_eq_ok.mp h
      exact ⟨hpaid, rfl⟩
    · cases pure_eq_ok.mp h
      exact ⟨hpaid, rfl⟩

/-- Either it left the frame as it was, or it ran the callee in a frame of its own. -/
theorem externalCall_frame {fuel : Nat} {stack : List String} {a f g : I32} {vm vm' : VM P}
    {r : Except TrapKind Bytes}
    (h : VM.externalCall (newModuleInstance P fuel) (invoke P fuel stack) a f g vm =
      .ok (r, vm')) :
    (∃ key, vm'.trace = vm.trace ++ [.getStorage key]) ∨
      ∃ key inst address name arguments callEnd events callee start,
        VM.call (invoke P fuel stack) name arguments start = .ok (callEnd, callee) ∧
        JournaledBy events start callee ∧
        JournaledBy (.getStorage key :: .called address :: (events ++ [.frameEnd callEnd]))
          vm vm' ∧
        start = (vm.lookedUp key).calleeFrame inst address name := by
  obtain ⟨address, code, _, ⟨_, rfl⟩ | ⟨_, inst, name, arguments, callEnd, gasLeft, vm₁, used,
    paid, _, hnested, _, hpaid, _⟩⟩ := externalCall_cases h
  · exact .inl ⟨_, rfl⟩
  · obtain ⟨events, callee, hcall, hcallee, hcaller⟩ := nestedCall_journaled hnested
    obtain ⟨hmemory, hstorage, htrace⟩ := useGas_states hpaid
    refine .inr ⟨_, inst, address, name, arguments, callEnd, events, callee, _, hcall,
      hcallee, ⟨?_, hmemory.trans hcaller.memory, hstorage.trans hcaller.storage⟩, rfl⟩
    rw [htrace, hcaller.trace]
    simp

/-! ## What a failed call leaves to its caller -/

/-- The caller's pending writes are what they were, and nothing else became
permanent. -/
structure Restored (vm vm' : VM P) : Prop where
  pendingMemory : vm'.memory.workingChangeset = vm.memory.workingChangeset
  pendingStorage : vm'.storage.workingChangeset = vm.storage.workingChangeset
  committedMemory : vm'.memory.changeset = vm.memory.changeset
  committedStorage : vm'.storage.changeset = vm.storage.changeset

/-- What a failed frame may have done on a caller's two states without a
trace.  A function's trap rolls back the caller's pending writes with the
callee's, so there the caller may have none.  An argument's failure rolls back
nothing, so there the guest's allocator may not have written or ended a frame
over pending writes.  In both, a nested commit may only repeat what is
committed. -/
def Harmless (callEnd : CallEnd) (events : List Event) (vm : VM P) : Prop :=
  match callEnd with
  | .trapped _ =>
      (vm.memory.workingChangeset = ∅ ∧ vm.storage.workingChangeset = ∅) ∧
      (∀ key value, committedWrite (memoryOps events) key = some value →
        vm.memory.changeset.lookup key = some value) ∧
      (∀ key value, committedWrite (storageOps events) key = some value →
        vm.storage.changeset.lookup key = some value)
  | _ =>
      (KeepsPending vm.memory.layers (memoryOps events) ∧
        KeepsPending vm.storage.layers (storageOps events)) ∧
      KeepsCommitted vm.memory.layers (memoryOps events) ∧
      KeepsCommitted vm.storage.layers (storageOps events)

/-- Entries restore the two states exactly if they keep each layer of each. -/
theorem restored_iff_keeps {events : List Event} {vm vm' : VM P}
    (hmemory : vm'.memory = vm.memory.run (memoryOps events))
    (hstorage : vm'.storage = vm.storage.run (storageOps events)) :
    Restored vm vm' ↔
      (KeepsPending vm.memory.layers (memoryOps events) ∧
        KeepsPending vm.storage.layers (storageOps events)) ∧
      KeepsCommitted vm.memory.layers (memoryOps events) ∧
      KeepsCommitted vm.storage.layers (storageOps events) := by
  rw [← Layers.pending_run_eq_iff, ← Layers.pending_run_eq_iff,
    ← Layers.committed_run_eq_iff, ← Layers.committed_run_eq_iff,
    ← Memory.layers_run, ← Storage.layers_run, ← hmemory, ← hstorage]
  exact ⟨fun ⟨a, b, c, d⟩ => ⟨⟨a, b⟩, c, d⟩, fun ⟨⟨a, b⟩, c, d⟩ => ⟨a, b, c, d⟩⟩

/-- Entries that end in a rollback leave nothing pending, so they restore only
a caller that had nothing pending. -/
theorem restored_iff_of_rollback {before events : List Event} {vm vm' : VM P}
    (hevents : events = before ++ [.rollback])
    (hmemory : vm'.memory = vm.memory.run (memoryOps events))
    (hstorage : vm'.storage = vm.storage.run (storageOps events)) :
    Restored vm vm' ↔
      (vm.memory.workingChangeset = ∅ ∧ vm.storage.workingChangeset = ∅) ∧
      KeepsCommitted vm.memory.layers (memoryOps events) ∧
      KeepsCommitted vm.storage.layers (storageOps events) := by
  have hm : vm'.memory.workingChangeset = ∅ := by
    rw [hmemory, hevents, memoryOps_append, Memory.run_append]
    rfl
  have hs : vm'.storage.workingChangeset = ∅ := by
    rw [hstorage, hevents, storageOps_append, Storage.run_append]
    rfl
  rw [← Layers.committed_run_eq_iff, ← Layers.committed_run_eq_iff,
    ← Memory.layers_run, ← Storage.layers_run, ← hmemory, ← hstorage]
  constructor
  · rintro ⟨a, b, c, d⟩
    exact ⟨⟨a.symm.trans hm, b.symm.trans hs⟩, c, d⟩
  · rintro ⟨⟨a, b⟩, c, d⟩
    exact ⟨hm.trans a.symm, hs.trans b.symm, c, d⟩

/-- **When a failed nested call leaves no trace.**  `events` is the callee's
part of the record.  After an `external_call` whose callee trapped, the
caller's pending writes are what they were and nothing new is permanent
exactly where the callee's record is `Harmless`: for a trap of the function
the caller had nothing pending, and no frame below returned normally with a
new write; for a trap in the arguments the allocator left both layers as they
were. -/
theorem failed_call_restores_iff {fuel : Nat} {stack : List String} {a f g : I32}
    {vm vm' : VM P} {r : Except TrapKind Bytes} {events : List Event} {callEnd : CallEnd}
    (h : VM.externalCall (newModuleInstance P fuel) (invoke P fuel stack) a f g vm =
      .ok (r, vm'))
    (htrace : vm'.trace = vm.trace ++ (events ++ [.frameEnd callEnd]))
    (htrap : callEnd.isTrap = true) :
    Restored vm vm' ↔ Harmless callEnd events vm := by
  rcases externalCall_frame h with ⟨key, hread⟩ |
    ⟨key, inst, address, name, arguments, callEnd', events', callee, start, hcall, hcallee,
      hcaller, -⟩
  · rw [htrace] at hread
    have hlast := (List.append_inj' (List.append_cancel_left hread :
      events ++ [.frameEnd callEnd] = [] ++ [.getStorage key]) rfl).2
    cases hlast
  · have hrecord := hcaller.trace
    rw [htrace] at hrecord
    have hsplit : events ++ [.frameEnd callEnd] =
        (.getStorage key :: .called address :: events') ++ [.frameEnd callEnd'] :=
      List.append_cancel_left hrecord
    obtain ⟨rfl, hlast⟩ := List.append_inj' hsplit rfl
    cases hlast
    have hmemory :=
      memoryOps_frameEnd (.getStorage key :: .called address :: events') callEnd ▸
        hcaller.memory
    have hstorage :=
      storageOps_frameEnd (.getStorage key :: .called address :: events') callEnd ▸
        hcaller.storage
    cases callEnd with
    | returned result => cases htrap
    | argumentPanic => cases htrap
    | argumentTrapped kind => exact restored_iff_keeps hmemory hstorage
    | trapped kind =>
        obtain ⟨before, hbefore⟩ := call_trapped hcall
        have hevents : events' = before ++ [.rollback] :=
          List.append_cancel_left (hcallee.trace.symm.trans hbefore.trace)
        have hlast : .getStorage key :: .called address :: events' =
            (.getStorage key :: .called address :: before) ++ [.rollback] := by
          rw [hevents]
          rfl
        rw [restored_iff_of_rollback hlast hmemory hstorage]
        refine and_congr_right fun hpending => and_congr ?_ ?_
        · exact keepsCommitted_of_fresh hpending.1 _
        · exact keepsCommitted_of_fresh hpending.2 _

/-! ## A caller with a write pending -/

namespace Script

/-- Traps at once. -/
def trapper : Contract where
  exports := [("f", [.trap .unreachable])]
  memory := []

def trapperPlatform : Platform := platform [([1], trapper)]

/-- A frame about to call the function `f` of the contract `B`, with the given
memory. -/
def beforeCall (memory : Memory) : VM trapperPlatform :=
  (callA "f").frame
    { globals := [], memory := .memory (slot [66] ++ slot [0x66] ++ slot [0x80]) }
    memory (Storage.new ∅ ∅ (deployed [([66], [1])])) firstBlock

/-- The nested call of that frame. -/
def callB (memory : Memory) :
    Except Stop (Except TrapKind Bytes × VM trapperPlatform) :=
  VM.externalCall (newModuleInstance trapperPlatform 5) (invoke trapperPlatform 5 [])
    0 5 10 (beforeCall memory)

/-- The callee's part of the record of that call, which traps. -/
def trapperEvents : List Event :=
  [.getStorage (rightPadVec [66] 64 0), .called [66], .rollback]

end Script

open Script in
/-- The callee traps without a write, and the caller's pending write is
gone. -/
theorem failed_call_drops_pending_write :
    ¬ ∀ (P : Platform) (fuel : Nat) (stack : List String) (a f g : I32)
      (vm vm' : VM P) (r : Except TrapKind Bytes) (events : List Event) (callEnd : CallEnd),
      VM.externalCall (newModuleInstance P fuel) (invoke P fuel stack) a f g vm =
          .ok (r, vm') →
        vm'.trace = vm.trace ++ (events ++ [.frameEnd callEnd]) →
          callEnd.isTrap = true → Restored vm vm' := by
  intro h
  have hrun : (callB ((Memory.new ∅ ∅).set [1] [2])).toOption.map (fun p =>
      (p.2.trace, p.2.memory.workingChangeset.lookup [1])) =
        some (trapperEvents ++ [.frameEnd (.trapped .unreachable)], none) := by rfl
  obtain ⟨⟨r, vm'⟩, hcall, hvalue⟩ := exists_ok_of_map hrun
  obtain ⟨htrace, hlookup⟩ := Prod.mk.inj hvalue
  have hrestored := h _ _ [] _ _ _ _ vm' r trapperEvents _ hcall htrace rfl
  rw [hrestored.pendingMemory] at hlookup
  cases hlookup

open Script in
/-- The same call of a caller with nothing pending. -/
theorem failed_call_restores_at_fresh :
    ∃ r vm', callB (Memory.new ∅ ∅) = .ok (r, vm') ∧
      Restored (beforeCall (Memory.new ∅ ∅)) vm' := by
  have hrun : (callB (Memory.new ∅ ∅)).toOption.map (fun p => p.2.trace) =
      some (trapperEvents ++ [.frameEnd (.trapped .unreachable)]) := by rfl
  obtain ⟨⟨r, vm'⟩, hcall, htrace⟩ := exists_ok_of_map hrun
  have htrace' : vm'.trace = (beforeCall (Memory.new ∅ ∅)).trace ++
      (trapperEvents ++ [.frameEnd (.trapped .unreachable)]) := htrace
  have hiff := failed_call_restores_iff hcall htrace' rfl
  refine ⟨r, vm', hcall, hiff.mpr ⟨⟨rfl, rfl⟩, ?_, ?_⟩⟩
  · exact fun key value hwrite => nomatch hwrite
  · exact fun key value hwrite => nomatch hwrite

end Ellipticoind.Ports
