import Ellipticoind.Ports.Script
import Ellipticoind.Ports.VMRun
import Ellipticoind.Verified.Splice

/-!
# Handing bytes to the guest

`write_pointer` asks the guest's `__malloc` for a place and writes the length of some bytes
and the bytes there; `read_pointer` reads them back.  Addresses and lengths are `i32`s, and
an address is taken as unsigned where the memory is accessed, but `read_pointer` adds four
to it as signed.

## Main results

* `writePointer_spec` — what the host writes, and what it leaves alone.
* `pointer_round_trip_iff` — when what was written is read back.
-/

namespace Ellipticoind.Ports

open Ellipticoind.Verified.LittleEndian
open Ellipticoind.Verified.Splice
open Ellipticoind.Verified.StateRun

variable {P : Platform}

/-- The frame with other bytes in its linear memory. -/
def VM.withLinear (vm : VM P) (bytes : Bytes) : VM P :=
  { vm with moduleInstance := { vm.moduleInstance with memory := .memory bytes } }

@[simp] theorem VM.withLinear_memory (vm : VM P) (bytes : Bytes) :
    (vm.withLinear bytes).moduleInstance.memory = .memory bytes := rfl

/-- What `write_pointer` writes. -/
def withLength (vec : Bytes) : Bytes := leBytes 4 vec.length ++ vec

theorem length_withLength (vec : Bytes) : (withLength vec).length = 4 + vec.length := by
  rw [withLength, List.length_append, length_leBytes]

/-! ## Writing -/

theorem writeMemory_memory {vm : VM P} {bytes : Bytes}
    (h : vm.moduleInstance.memory = .memory bytes) {pointer : I32} {value : Bytes}
    (hfits : pointer.toNat + value.length ≤ bytes.length) :
    VM.writeMemory pointer value vm =
      .ok ((), vm.withLinear (splice bytes pointer.toNat value)) := by
  unfold VM.writeMemory
  rw [read_bind, h]
  dsimp only
  rw [if_pos hfits]
  rfl

/-- What the guest's allocator answers is where the bytes are written. -/
theorem writePointer_spec {invoke : Invoke P} {vm vm₁ : VM P} {vec bytes : Bytes}
    {pointer : I32}
    (hmalloc : invoke "__malloc" [.i32 (BitVec.ofNat 32 (withLength vec).length)] vm =
      .ok (.ok (some (.i32 pointer)), vm₁))
    (hmemory : vm₁.moduleInstance.memory = .memory bytes)
    (hfits : pointer.toNat + (4 + vec.length) ≤ bytes.length) :
    VM.writePointer invoke vec vm = .ok (.ok (some (.i32 pointer)),
      vm₁.withLinear (splice bytes pointer.toNat (withLength vec))) := by
  have hplace : VM.malloc invoke (withLength vec).length vm = .ok (.ok pointer, vm₁) := by
    unfold VM.malloc
    exact bind_of_ok hmalloc
  have hroom : pointer.toNat + (withLength vec).length ≤ bytes.length := by
    rwa [length_withLength]
  have hwritten := writeMemory_memory hmemory hroom
  unfold VM.writePointer
  exact (bind_of_ok hplace).trans (bind_of_ok hwritten)

/-! ## Reading back -/

/-- Four more than an address leaves the signed range exactly from the last four addresses
below `2 ^ 31`. -/
theorem saddOverflow_four_iff (pointer : I32) :
    pointer.saddOverflow 4 = true ↔ 2 ^ 31 - 4 ≤ pointer.toNat ∧ pointer.toNat < 2 ^ 31 := by
  have hlt := pointer.isLt
  have hfour : (4 : I32).toInt = 4 := by decide
  simp only [BitVec.saddOverflow, hfour, BitVec.toInt_eq_toNat_cond, Bool.or_eq_true,
    decide_eq_true_eq]
  split <;> omega

/-- As unsigned numbers, four is added where there is room for the length. -/
theorem toNat_add_four {pointer : I32} (h : pointer.toNat + 4 < 2 ^ 32) :
    (pointer + 4).toNat = pointer.toNat + 4 := by
  have hfour : (4 : I32).toNat = 4 := rfl
  rw [BitVec.toNat_add, hfour, Nat.mod_eq_of_lt h]

/-- The bytes after the length are where `read_pointer` looks for them, if there are any. -/
theorem read_written {bytes vec : Bytes} {pointer : I32}
    (hfits : pointer.toNat + (4 + vec.length) ≤ bytes.length)
    (hwrap : pointer.toNat + (4 + vec.length) ≤ 2 ^ 32) :
    (pointer + 4).toNat + vec.length ≤ bytes.length ∧
      ((splice bytes pointer.toNat (withLength vec)).drop (pointer + 4).toNat).take
        vec.length = vec := by
  by_cases hempty : vec.length = 0
  · have hvec : vec = [] := List.eq_nil_of_length_eq_zero hempty
    have hlt := (pointer + 4).isLt
    subst hvec
    refine ⟨?_, rfl⟩
    have hadd : (pointer + 4).toNat ≤ pointer.toNat + 4 := by
      rw [BitVec.toNat_add]
      exact Nat.mod_le _ _
    simpa using hadd.trans hfits
  · have hadd := toNat_add_four (by omega : pointer.toNat + 4 < 2 ^ 32)
    have hread := take_drop_splice (by omega : pointer.toNat ≤ bytes.length)
      (leBytes 4 vec.length) vec []
    rw [length_leBytes, List.append_nil] at hread
    rw [hadd]
    exact ⟨by omega, hread⟩

/-- When what the host has written is read back. -/
theorem readPointer_written_iff {vm : VM P} {vec bytes : Bytes} {pointer : I32}
    (hlength : vec.length < 2 ^ 31 - 4)
    (hfits : pointer.toNat + (4 + vec.length) ≤ bytes.length)
    (hwrap : pointer.toNat + (4 + vec.length) ≤ 2 ^ 32) :
    VM.readPointer pointer (vm.withLinear (splice bytes pointer.toNat (withLength vec))) =
        .ok (vec, vm.withLinear (splice bytes pointer.toNat (withLength vec))) ↔
      ¬ (P.overflowChecks ∧ 2 ^ 31 - 4 ≤ pointer.toNat ∧ pointer.toNat < 2 ^ 31) := by
  have hroom : pointer.toNat + (withLength vec).length ≤ bytes.length := by
    rwa [length_withLength]
  have hword : ((splice bytes pointer.toNat (withLength vec)).drop pointer.toNat).take 4 =
      leBytes 4 vec.length := by
    have hread := take_drop_splice (by omega : pointer.toNat ≤ bytes.length) []
      (leBytes 4 vec.length) vec
    rwa [List.nil_append, List.length_nil, Nat.add_zero, length_leBytes] at hread
  obtain ⟨hinside, hvec⟩ := read_written hfits hwrap
  have hsame := length_splice hroom
  rw [readPointer_at (vm.withLinear_memory _) (by omega) (by omega) hword, hsame,
    if_pos hinside, hvec, ← saddOverflow_four_iff]
  split
  · rename_i hoverflow
    exact ⟨nofun, fun hno => absurd hoverflow hno⟩
  · rename_i hfine
    exact ⟨fun _ => hfine, fun _ => rfl⟩

/-- **When handed bytes are read back.**  Whatever the guest's allocator answers, if the
length and the bytes lie in the memory from there on, the host writes them there and changes
no other byte.  They are read back exactly if the build does not check for overflow or the
address is none of the last four below `2 ^ 31`, where adding four to it is refused. -/
theorem pointer_round_trip_iff {invoke : Invoke P} {vm vm₁ : VM P} {vec bytes : Bytes}
    {pointer : I32} (hlength : vec.length < 2 ^ 31 - 4)
    (hmalloc : invoke "__malloc" [.i32 (BitVec.ofNat 32 (withLength vec).length)] vm =
      .ok (.ok (some (.i32 pointer)), vm₁))
    (hmemory : vm₁.moduleInstance.memory = .memory bytes)
    (hfits : pointer.toNat + (4 + vec.length) ≤ bytes.length)
    (hwrap : pointer.toNat + (4 + vec.length) ≤ 2 ^ 32) :
    ∃ bytes', VM.writePointer invoke vec vm =
        .ok (.ok (some (.i32 pointer)), vm₁.withLinear bytes') ∧
      bytes'.length = bytes.length ∧
      (∀ i, i < pointer.toNat ∨ pointer.toNat + (4 + vec.length) ≤ i →
        bytes'[i]? = bytes[i]?) ∧
      (VM.readPointer pointer (vm₁.withLinear bytes') = .ok (vec, vm₁.withLinear bytes') ↔
        ¬ (P.overflowChecks ∧ 2 ^ 31 - 4 ≤ pointer.toNat ∧ pointer.toNat < 2 ^ 31)) := by
  have hsize := length_withLength vec
  have hroom : pointer.toNat + (withLength vec).length ≤ bytes.length := by rwa [hsize]
  refine ⟨splice bytes pointer.toNat (withLength vec),
    writePointer_spec hmalloc hmemory hfits, length_splice hroom, fun i hi => ?_,
    readPointer_written_iff hlength hfits hwrap⟩
  rw [← hsize] at hi
  exact getElem?_splice_of_outside hroom hi

/-! ## Around the boundary -/

namespace Script

/-- A contract's frame whose allocator answers always the same address. -/
def allocatorFrame (pointer : I32) (bytes : Bytes) : VM (platform []) where
  moduleInstance := { globals := [("__malloc", [.answer pointer])], memory := .memory bytes }
  memory := Memory.new ∅ ∅
  storage := Storage.new ∅ ∅ ∅
  transaction :=
    { contractAddress := [], sender := [], nonce := 0, gasLimit := 0, function := ""
      arguments := [] }
  gas := none
  env := { blockNumber := 0, blockWinner := [], blockHash := [], caller := none }
  trace := []

theorem malloc_allocatorFrame (pointer : I32) (bytes : Bytes) (args : List RuntimeValue) :
    invoke (platform []) 1 [] "__malloc" args (allocatorFrame pointer bytes) =
      .ok (.ok (some (.i32 pointer)), allocatorFrame pointer bytes) := rfl

end Script

open Script in
/-- In a build that checks for overflow, an empty byte string that is written just below
`2 ^ 31` cannot be read. -/
theorem read_below_boundary_panics :
    ¬ ∀ (P : Platform) (invoke : Invoke P) (vm vm₁ : VM P) (vec bytes : Bytes)
      (pointer : I32), vec.length < 2 ^ 31 - 4 →
        invoke "__malloc" [.i32 (BitVec.ofNat 32 (withLength vec).length)] vm =
            .ok (.ok (some (.i32 pointer)), vm₁) →
          vm₁.moduleInstance.memory = .memory bytes →
            pointer.toNat + (4 + vec.length) ≤ bytes.length →
              pointer.toNat + (4 + vec.length) ≤ 2 ^ 32 →
                ∃ bytes', VM.writePointer invoke vec vm =
                    .ok (.ok (some (.i32 pointer)), vm₁.withLinear bytes') ∧
                  VM.readPointer pointer (vm₁.withLinear bytes') =
                    .ok (vec, vm₁.withLinear bytes') := by
  intro h
  obtain ⟨bytes, hbytes⟩ : ∃ bytes : Bytes, bytes.length = 2 ^ 31 :=
    ⟨List.replicate (2 ^ 31) 0, List.length_replicate⟩
  have hpointer : (2147483644#32 : I32).toNat + (4 + ([] : Bytes).length) ≤ bytes.length := by
    rw [hbytes]
    decide
  have hmalloc := malloc_allocatorFrame 2147483644#32 bytes
    [.i32 (BitVec.ofNat 32 (withLength []).length)]
  obtain ⟨bytes', hwritten, hread⟩ := h _ _ _ _ [] bytes 2147483644#32 (by decide) hmalloc rfl
    hpointer (by decide)
  cases hwritten.symm.trans (writePointer_spec hmalloc rfl hpointer)
  have hrefused := (readPointer_written_iff (by decide) hpointer (by decide)).mp hread
  exact absurd hrefused (by decide)

open Script in
/-- A byte string is read back from `2 ^ 31` on, a negative address. -/
theorem round_trip_at_boundary :
    ∃ bytes bytes', bytes.length = 2 ^ 31 + 5 ∧
      VM.writePointer (invoke (platform []) 1 []) [7] (allocatorFrame 2147483648#32 bytes) =
        .ok (.ok (some (.i32 2147483648#32)),
          (allocatorFrame 2147483648#32 bytes).withLinear bytes') ∧
      VM.readPointer 2147483648#32 ((allocatorFrame 2147483648#32 bytes).withLinear bytes') =
        .ok ([7], (allocatorFrame 2147483648#32 bytes).withLinear bytes') := by
  obtain ⟨bytes, hbytes⟩ : ∃ bytes : Bytes, bytes.length = 2 ^ 31 + 5 :=
    ⟨List.replicate (2 ^ 31 + 5) 0, List.length_replicate⟩
  have hpointer : (2147483648#32 : I32).toNat + (4 + [(7 : UInt8)].length) ≤ bytes.length := by
    rw [hbytes]
    decide
  have hlength : [(7 : UInt8)].length < 2 ^ 31 - 4 := by decide
  obtain ⟨bytes', hwritten, _, _, hiff⟩ := pointer_round_trip_iff hlength
    (malloc_allocatorFrame 2147483648#32 bytes _) rfl hpointer (by decide)
  exact ⟨bytes, bytes', hbytes, hwritten, hiff.mpr (by decide)⟩

end Ellipticoind.Ports
