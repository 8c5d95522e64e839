import Ellipticoind.Ports.Transaction

/-!
# The price of a byte

`get_memory`, `set_memory`, `get_storage` and `set_storage` ask `use_gas` for
`value.len() as u32` times a cost, in 32 bits.  A product that does not fit wraps
around, or panics in a build with overflow checks.

## Main results

* `payment_iff` — when the payment for some bytes is the whole price.
* `pays_in_full_iff` — when each of the four host functions costs its price.
-/

namespace Ellipticoind.Ports

open Ellipticoind.Verified.LittleEndian
open Ellipticoind.Verified.StateRun

variable {P : Platform} {α : Type}

/-- A host function that moves `length` bytes took the whole price, in unbounded
arithmetic, or trapped and left the counter and the states as they were. -/
def PaysInFull (length cost : Nat) (vm : VM P) :
    Except Stop (Except TrapKind α × VM P) → Prop
  | .error _ => False
  | .ok (.error trap, vm') =>
      trap = .outOfGas ∧ vm'.gas = vm.gas ∧ vm'.memory = vm.memory ∧
        vm'.storage = vm.storage
  | .ok (.ok _, vm') =>
      ∃ gas, vm.gas = some gas ∧ length * cost ≤ gas ∧
        vm'.gas = some (gas - length * cost)

/-- What `use_gas` is asked for. -/
def wrappedPrice (length cost : Nat) : Nat := length % 2 ^ 32 * cost % 2 ^ 32

/-- The build checks for overflow, and the product does overflow. -/
def Overflows (P : Platform) (length cost : Nat) : Prop :=
  P.overflowChecks ∧ 2 ^ 32 ≤ length % 2 ^ 32 * cost

/-- The price fits 32 bits, or what is left of it is still more than there is. -/
def Affordable (P : Platform) (gas length cost : Nat) : Prop :=
  length * cost < 2 ^ 32 ∨ (¬ Overflows P length cost ∧ gas < wrappedPrice length cost)

theorem wrappedPrice_lt (length cost : Nat) : wrappedPrice length cost < 2 ^ 32 :=
  Nat.mod_lt _ (by decide)

/-- A price that fits is asked for as it is. -/
theorem wrappedPrice_of_lt {length cost : Nat} (h : length * cost < 2 ^ 32) :
    length % 2 ^ 32 * cost = length * cost ∧ wrappedPrice length cost = length * cost := by
  have hproduct : length % 2 ^ 32 * cost = length * cost := by
    rcases Nat.eq_zero_or_pos cost with rfl | hcost
    · rfl
    · have hlength : length < 2 ^ 32 :=
        lt_of_le_of_lt (Nat.le_mul_of_pos_right length hcost) h
      rw [Nat.mod_eq_of_lt hlength]
  refine ⟨hproduct, ?_⟩
  unfold wrappedPrice
  rw [hproduct, Nat.mod_eq_of_lt h]

theorem bytesCost_of_overflows {length cost : Nat} (h : Overflows P length cost) (vm : VM P) :
    VM.bytesCost length cost vm = .error .panic := by
  unfold Overflows at h
  unfold VM.bytesCost VM.mulU32
  rw [if_pos h]
  rfl

theorem bytesCost_eq {length cost : Nat} (h : ¬ Overflows P length cost) (vm : VM P) :
    VM.bytesCost length cost vm = .ok (wrappedPrice length cost, vm) := by
  unfold Overflows at h
  unfold VM.bytesCost VM.mulU32
  rw [if_neg h]
  rfl

/-- The payment for some bytes, and what is done if they are paid for. -/
def payThen (length cost : Nat) (rest : Run P (Except TrapKind α)) :
    Run P (Except TrapKind α) := do
  let amount ← VM.bytesCost length cost
  match ← VM.useGas amount with
  | .error trap => pure (.error trap)
  | .ok () => rest

/-- When the payment for some bytes is the whole price, in a frame with gas. -/
theorem payment_iff {length cost gas : Nat} {vm vm₁ : VM P}
    {rest : Run P (Except TrapKind α)} (hgas : vm.gas = some gas) (hgas₁ : vm₁.gas = some gas)
    (hmemory : vm₁.memory = vm.memory) (hstorage : vm₁.storage = vm.storage)
    (hrest : ∀ s, ∃ a s', rest s = .ok (.ok a, s') ∧ s'.gas = s.gas) :
    PaysInFull length cost vm (payThen length cost rest vm₁) ↔
      Affordable P gas length cost := by
  by_cases hover : Overflows P length cost
  · have hrun : payThen length cost rest vm₁ = .error .panic :=
      bind_of_error (bytesCost_of_overflows hover vm₁)
    rw [hrun]
    refine ⟨False.elim, ?_⟩
    rintro (hfits | ⟨hno, _⟩)
    · have hlarge := hover.2
      rw [(wrappedPrice_of_lt hfits).1] at hlarge
      exact absurd hfits (Nat.not_lt.mpr hlarge)
    · exact absurd hover hno
  · have hprice := bytesCost_eq hover vm₁
    by_cases hlt : gas < wrappedPrice length cost
    · have hrun : payThen length cost rest vm₁ = .ok (.error .outOfGas, vm₁) :=
        (bind_of_ok hprice).trans (bind_of_ok (useGas_refused hgas₁ hlt))
      rw [hrun]
      exact ⟨fun _ => .inr ⟨hover, hlt⟩,
        fun _ => ⟨rfl, hgas₁.trans hgas.symm, hmemory, hstorage⟩⟩
    · have hle := Nat.not_lt.mp hlt
      obtain ⟨a, vm', hdone, hleft⟩ :=
        hrest { vm₁ with gas := some (gas - wrappedPrice length cost) }
      have hrun : payThen length cost rest vm₁ = .ok (.ok a, vm') :=
        (bind_of_ok hprice).trans ((bind_of_ok (useGas_paid hgas₁ hle)).trans hdone)
      rw [hrun]
      constructor
      · rintro ⟨gas', hgas', hfull, hpaid⟩
        cases hgas.symm.trans hgas'
        have hsame := Option.some.inj (hleft.symm.trans hpaid)
        have hbound := wrappedPrice_lt length cost
        exact .inl (by omega)
      · rintro (hfits | ⟨_, hrefused⟩)
        · rw [(wrappedPrice_of_lt hfits).2] at hle hleft
          exact ⟨gas, hgas, hle, hleft⟩
        · exact absurd hrefused hlt

/-! ## The four host functions -/

/-- Of a read, once its key is known and the entry is found. -/
theorem getState_iff {lookup : Bytes → Run P Bytes} {cost gas : Nat} {keyPointer : I32}
    {key value : Bytes} {vm vm₁ : VM P} (hgas : vm.gas = some gas)
    (hkey : VM.readPointer keyPointer vm = .ok (key, vm))
    (hlookup : lookup (vm.namespacedKey key) vm = .ok (value, vm₁))
    (hgas₁ : vm₁.gas = vm.gas) (hmemory : vm₁.memory = vm.memory)
    (hstorage : vm₁.storage = vm.storage) :
    PaysInFull value.length cost vm (VM.getState lookup cost keyPointer vm) ↔
      Affordable P gas value.length cost := by
  have hrun : VM.getState lookup cost keyPointer vm =
      payThen value.length cost (pure (.ok value)) vm₁ :=
    (bind_of_ok hkey).trans ((bind_of_ok rfl).trans (bind_of_ok hlookup))
  rw [hrun]
  exact payment_iff hgas (hgas₁.trans hgas) hmemory hstorage fun s => ⟨value, s, rfl, rfl⟩

/-- Of a write, once key and value are known. -/
theorem setState_iff {write : Bytes → Bytes → Run P Unit} {cost gas : Nat}
    {keyPointer valuePointer : I32} {key value : Bytes} {vm : VM P}
    (hgas : vm.gas = some gas) (hkey : VM.readPointer keyPointer vm = .ok (key, vm))
    (hvalue : VM.readPointer valuePointer vm = .ok (value, vm))
    (hwrite : ∀ s key, ∃ s', write key value s = .ok ((), s') ∧ s'.gas = s.gas) :
    PaysInFull value.length cost vm (VM.setState write cost keyPointer valuePointer vm) ↔
      Affordable P gas value.length cost := by
  have hrun : VM.setState write cost keyPointer valuePointer vm =
      payThen value.length cost (do
        write (← VM.read fun vm => vm.namespacedKey key) value
        pure (.ok none)) vm :=
    (bind_of_ok hkey).trans (bind_of_ok hvalue)
  rw [hrun]
  refine payment_iff hgas hgas rfl rfl fun s => ?_
  obtain ⟨s', hdone, hleft⟩ := hwrite s (s.namespacedKey key)
  exact ⟨none, s', (bind_of_ok rfl).trans (bind_of_ok hdone), hleft⟩

/-- **When a host function costs its price.**  In a frame with gas, at pointers that can
be read, each of the four either takes length times cost or traps and changes nothing,
exactly if that product fits 32 bits, or is refused although it wrapped around. -/
theorem pays_in_full_iff {vm : VM P} {gas : Nat} {keyPointer : I32} {key : Bytes}
    (hgas : vm.gas = some gas) (hkey : VM.readPointer keyPointer vm = .ok (key, vm)) :
    (∀ value, vm.memory.get (vm.namespacedKey key) = some value →
      (PaysInFull value.length GET_BYTE_MEMORY vm (VM.getMemory keyPointer vm) ↔
        Affordable P gas value.length GET_BYTE_MEMORY)) ∧
    (∀ value, vm.storage.get (vm.namespacedKey key) = some value →
      (PaysInFull value.length GET_BYTE_STORAGE vm (VM.getStorage keyPointer vm) ↔
        Affordable P gas value.length GET_BYTE_STORAGE)) ∧
    ∀ valuePointer value, VM.readPointer valuePointer vm = .ok (value, vm) →
      (PaysInFull value.length SET_BYTE_MEMORY vm (VM.setMemory keyPointer valuePointer vm) ↔
        Affordable P gas value.length SET_BYTE_MEMORY) ∧
      (PaysInFull value.length SET_BYTE_STORAGE vm
          (VM.setStorage keyPointer valuePointer vm) ↔
        Affordable P gas value.length SET_BYTE_STORAGE) := by
  refine ⟨fun value hvalue => ?_, fun value hvalue => ?_, fun valuePointer value hvalue => ?_⟩
  · have hlookup : VM.memoryGet (vm.namespacedKey key) vm =
        .ok (value, { vm with trace := vm.trace ++ [.getMemory (vm.namespacedKey key)] }) :=
      (bind_of_ok rfl).trans ((bind_of_ok rfl).trans
        (lift_eq_ok.mpr ⟨unwrap_eq_ok.mpr hvalue, rfl⟩))
    exact getState_iff hgas hkey hlookup rfl rfl rfl
  · have hlookup : VM.storageGet (vm.namespacedKey key) vm =
        .ok (value, { vm with trace := vm.trace ++ [.getStorage (vm.namespacedKey key)] }) :=
      (bind_of_ok rfl).trans ((bind_of_ok rfl).trans
        (lift_eq_ok.mpr ⟨unwrap_eq_ok.mpr hvalue, rfl⟩))
    exact getState_iff hgas hkey hlookup rfl rfl rfl
  · exact ⟨setState_iff hgas hkey hvalue fun s key => ⟨_, rfl, rfl⟩,
      setState_iff hgas hkey hvalue fun s key => ⟨_, rfl, rfl⟩⟩

/-! ## A long value -/

namespace Script

/-- A platform of a build without overflow checks. -/
def releasePlatform : Platform where
  __ := platform []
  overflowChecks := false

/-- A frame whose linear memory begins with some bytes, at the pointer zero. -/
def frameWith (bytes : Bytes) (gas : Nat) : VM releasePlatform where
  moduleInstance := { globals := [], memory := .memory (slot bytes) }
  memory := Memory.new ∅ ∅
  storage := Storage.new ∅ ∅ ∅
  transaction := callA "f"
  gas := some gas
  env := firstBlock
  trace := []

/-- Some bytes that are no longer than a pointer's length can say. -/
theorem readPointer_frameWith {bytes : Bytes} {gas : Nat} (h : bytes.length < 2 ^ 31) :
    VM.readPointer 0 (frameWith bytes gas) = .ok (bytes, frameWith bytes gas) := by
  have hsize := length_leBytes 4 bytes.length
  have hslot : (slot bytes).length = 4 + bytes.length := by
    rw [slot, List.length_append, hsize]
  have hfour : (slot bytes).take 4 = leBytes 4 bytes.length := List.take_left' hsize
  have hrest : (slot bytes).drop 4 = bytes := List.drop_left' hsize
  have hoffset : (0 + 4 : I32).toNat = 4 := rfl
  have hoverflow : ¬ (releasePlatform.overflowChecks ∧ (0 : I32).saddOverflow 4) := by decide
  have hmemory : (frameWith bytes gas).moduleInstance.memory = .memory (slot bytes) := rfl
  have hhead : (0 : I32).toNat + 4 ≤ (slot bytes).length := by
    rw [hslot]
    exact Nat.le_add_right 4 _
  rw [readPointer_at hmemory h hhead hfour, if_neg hoverflow, hoffset, hrest,
    List.take_length, if_pos (Nat.le_of_eq hslot.symm)]

end Script

open Script in
/-- 858994 bytes are written for a gas of 2704; their price is 4294970000. -/
theorem long_value_for_less :
    ¬ ∀ (P : Platform) (vm : VM P) (gas : Nat) (keyPointer valuePointer : I32)
      (key value : Bytes), vm.gas = some gas →
        VM.readPointer keyPointer vm = .ok (key, vm) →
          VM.readPointer valuePointer vm = .ok (value, vm) →
            PaysInFull value.length SET_BYTE_MEMORY vm
              (VM.setMemory keyPointer valuePointer vm) := by
  intro h
  obtain ⟨value, hlength⟩ : ∃ value : Bytes, value.length = 858994 :=
    ⟨List.replicate 858994 0, List.length_replicate⟩
  have hread : VM.readPointer 0 (frameWith value 2704) = .ok (value, frameWith value 2704) :=
    readPointer_frameWith (by rw [hlength]; decide)
  have hfull := h releasePlatform (frameWith value 2704) 2704 0 0 value value rfl hread hread
  have hwrite : ∀ (s : VM releasePlatform) key,
      ∃ s', VM.memorySet key value s = .ok ((), s') ∧ s'.gas = s.gas :=
    fun s key => ⟨_, rfl, rfl⟩
  have hprice := (setState_iff rfl hread hread hwrite).mp hfull
  rw [hlength] at hprice
  rcases hprice with hfits | ⟨_, hrefused⟩
  · exact absurd hfits (by decide)
  · exact absurd hrefused (by decide)

open Script in
/-- A byte that can be paid for. -/
theorem pays_in_full_at_one_byte :
    PaysInFull [9].length SET_BYTE_MEMORY (frameWith [9] 6000)
      (VM.setMemory 0 0 (frameWith [9] 6000)) := by
  have hread : VM.readPointer 0 (frameWith [9] 6000) = .ok ([9], frameWith [9] 6000) :=
    readPointer_frameWith (by decide)
  exact (((pays_in_full_iff rfl hread).2.2 0 [9] hread).1).mpr (.inl (by decide))

end Ellipticoind.Ports
