import Ellipticoind.Ports.VM
import Ellipticoind.Verified.StateRun

/-!
# Relations kept by every run of the virtual machine

`FrameRelation R` says what a relation between the states of a frame has to
allow: one clause for each primitive action on a `VM`, and one that carries it
from a callee's frame back to the caller's.  `FrameRelation.runGuest` is the
induction over the interpreter's budget, made once: every such relation holds
from the start to the end of any run, nested calls of any depth included.
-/

namespace Ellipticoind.Ports

open Ellipticoind.Verified.LittleEndian
open Ellipticoind.Verified.StateRun

variable {P : Platform}

/-! ## Reading the frame -/

theorem read_eq_ok {α : Type} {field : VM P → α} {vm vm' : VM P} {a : α} :
    VM.read field vm = .ok (a, vm') ↔ a = field vm ∧ vm' = vm := by
  show Except.ok (field vm, vm) = .ok (a, vm') ↔ _
  simp [eq_comm]

theorem read_bind {α β : Type} (field : VM P → α) (f : α → Run P β) (vm : VM P) :
    (VM.read field >>= f) vm = f (field vm) vm := rfl

/-- A length that a positive `i32` can say. -/
theorem asUsize_ofNat {n : Nat} (h : n < 2 ^ 31) : VM.asUsize (BitVec.ofNat 32 n) = n := by
  have hword : (BitVec.ofNat 32 n).toNat = n := by
    rw [BitVec.toNat_ofNat]
    omega
  unfold VM.asUsize
  rw [BitVec.signExtend_eq_setWidth_of_msb_false, BitVec.toNat_setWidth, hword]
  · omega
  · rw [BitVec.msb_eq_decide, hword]
    simpa using h

theorem readMemory_memory {vm : VM P} {bytes : Bytes}
    (h : vm.moduleInstance.memory = .memory bytes) (pointer length : I32) :
    VM.readMemory pointer length vm =
      if pointer.toNat + VM.asUsize length ≤ bytes.length then
        .ok ((bytes.drop pointer.toNat).take (VM.asUsize length), vm)
      else .error .panic := by
  unfold VM.readMemory
  rw [read_bind, h]
  dsimp only
  split <;> rfl

theorem readI32_memory {vm : VM P} {bytes : Bytes}
    (h : vm.moduleInstance.memory = .memory bytes) (ptr : I32) :
    VM.readI32 ptr vm =
      if ptr.toNat + 4 ≤ bytes.length then
        .ok (BitVec.ofNat 32 (leNat ((bytes.drop ptr.toNat).take 4)), vm)
      else .error .panic := by
  have hfour : VM.asUsize 4 = 4 := by decide
  show Except.bind (VM.readMemory ptr 4 vm) (fun p => (if p.1.length = 4
    then pure (BitVec.ofNat 32 (leNat p.1)) else VM.panic : Run P I32) p.2) = _
  rw [readMemory_memory h, hfour]
  by_cases hfits : ptr.toNat + 4 ≤ bytes.length
  · have hslice : ((bytes.drop ptr.toNat).take 4).length = 4 := by
      rw [List.length_take, List.length_drop]
      omega
    rw [if_pos hfits, if_pos hfits]
    dsimp only [Except.bind]
    rw [if_pos hslice]
    rfl
  · rw [if_neg hfits, if_neg hfits]
    rfl

theorem addI32_eq (a b : I32) (vm : VM P) :
    VM.addI32 a b vm =
      if P.overflowChecks ∧ a.saddOverflow b then .error .panic else .ok (a + b, vm) := by
  unfold VM.addI32
  split <;> rfl

/-- A pointer is read where its length lies, and as many bytes after it. -/
theorem readPointer_at {vm : VM P} {bytes : Bytes}
    (h : vm.moduleInstance.memory = .memory bytes) {ptr : I32} {n : Nat} (hn : n < 2 ^ 31)
    (hhead : ptr.toNat + 4 ≤ bytes.length)
    (hword : (bytes.drop ptr.toNat).take 4 = leBytes 4 n) :
    VM.readPointer ptr vm =
      if P.overflowChecks ∧ ptr.saddOverflow 4 then .error .panic
      else if (ptr + 4).toNat + n ≤ bytes.length then
        .ok ((bytes.drop (ptr + 4).toNat).take n, vm)
      else .error .panic := by
  have hlength : leNat (leBytes 4 n) = n := by
    rw [leNat_leBytes]
    omega
  have hread : VM.readI32 ptr vm = .ok (BitVec.ofNat 32 n, vm) := by
    rw [readI32_memory h, if_pos hhead, hword, hlength]
  unfold VM.readPointer
  rw [bind_of_ok hread]
  by_cases hoverflow : P.overflowChecks ∧ ptr.saddOverflow 4
  · have hadd : VM.addI32 ptr 4 vm = .error .panic := by
      rw [addI32_eq, if_pos hoverflow]
    rw [if_pos hoverflow, bind_of_error hadd]
  · have hadd : VM.addI32 ptr 4 vm = .ok (ptr + 4, vm) := by
      rw [addI32_eq, if_neg hoverflow]
    rw [if_neg hoverflow, bind_of_ok hadd, readMemory_memory h, asUsize_ofNat hn]

/-- Reading the guest's memory changes nothing in the frame. -/
theorem readMemory_state {pointer length : I32} {vm vm' : VM P} {bytes : Bytes}
    (h : VM.readMemory pointer length vm = .ok (bytes, vm')) : vm' = vm := by
  unfold VM.readMemory at h
  obtain ⟨mem, vm₁, hread, h⟩ := bind_eq_ok.mp h
  cases (read_eq_ok.mp hread).2
  cases mem with
  | absent => cases throw_ne_ok h
  | other =>
      cases pure_eq_ok.mp h
      rfl
  | memory bytes =>
      dsimp only at h
      split at h
      · cases pure_eq_ok.mp h
        rfl
      · cases throw_ne_ok h

theorem readPointer_state {ptr : I32} {vm vm' : VM P} {bytes : Bytes}
    (h : VM.readPointer ptr vm = .ok (bytes, vm')) : vm' = vm := by
  unfold VM.readPointer VM.readI32 VM.addI32 at h
  obtain ⟨_, vm₁, hlength, h⟩ := bind_eq_ok.mp h
  obtain ⟨_, vm₂, hoffset, h⟩ := bind_eq_ok.mp h
  obtain ⟨_, vm₃, hread, hlength⟩ := bind_eq_ok.mp hlength
  have hsame : vm₁ = vm₃ := by
    split at hlength
    · cases pure_eq_ok.mp hlength
      rfl
    · cases throw_ne_ok hlength
  have hsame' : vm₂ = vm₁ := by
    split at hoffset
    · cases throw_ne_ok hoffset
    · cases pure_eq_ok.mp hoffset
      rfl
  rw [readMemory_state h, hsame', hsame, readMemory_state hread]

/-! ## Paying -/

theorem useGas_refused {vm : VM P} {gas amount : Nat} (hgas : vm.gas = some gas)
    (h : gas < amount) : VM.useGas amount vm = .ok (.error .outOfGas, vm) := by
  unfold VM.useGas
  rw [hgas]
  exact if_pos h

theorem useGas_paid {vm : VM P} {gas amount : Nat} (hgas : vm.gas = some gas)
    (h : amount ≤ gas) :
    VM.useGas amount vm = .ok (.ok (), { vm with gas := some (gas - amount) }) := by
  unfold VM.useGas
  rw [hgas]
  exact if_neg (Nat.not_lt.mpr h)

/-- What a callee has used, if it has no more than its caller. -/
theorem gasUsed_eq {vm : VM P} {n m : Nat} (hn : vm.gas = some n) (hle : m ≤ n) :
    VM.gasUsed (some m) vm = .ok (n - m, vm) := by
  have hread : VM.read VM.gas vm = .ok (some n, vm) := by
    rw [← hn]
    rfl
  unfold VM.gasUsed
  refine bind_eq_ok.mpr ⟨some n, vm, hread, ?_⟩
  refine bind_eq_ok.mpr ⟨n, vm, lift_eq_ok.mpr ⟨rfl, rfl⟩, ?_⟩
  refine bind_eq_ok.mpr ⟨m, vm, lift_eq_ok.mpr ⟨rfl, rfl⟩, ?_⟩
  rw [if_pos hle]
  rfl

/-! ## The relations -/

/-- What a relation on the states of one frame has to allow. -/
structure FrameRelation (R : VM P → VM P → Prop) : Prop where
  refl : ∀ vm, R vm vm
  trans : ∀ {a b c}, R a b → R b c → R a c
  /-- Paying for something that can be paid. -/
  useGas : ∀ vm gas amount, vm.gas = some gas → amount ≤ gas →
    R vm { vm with gas := some (gas - amount) }
  /-- A step of the guest, or the host writing into its memory. -/
  moduleInstance : ∀ vm inst, R vm { vm with moduleInstance := inst }
  host : ∀ vm index, R vm { vm with trace := vm.trace ++ [.host index] }
  memoryGet : ∀ vm key, R vm { vm with trace := vm.trace ++ [.getMemory key] }
  storageGet : ∀ vm key, R vm { vm with trace := vm.trace ++ [.getStorage key] }
  memorySet : ∀ vm key value, R vm { vm with
    memory := vm.memory.set (vm.namespacedKey key) value
    trace := vm.trace ++ [.setMemory (vm.namespacedKey key) value] }
  storageSet : ∀ vm key value, R vm { vm with
    storage := vm.storage.set (vm.namespacedKey key) value
    trace := vm.trace ++ [.setStorage (vm.namespacedKey key) value] }
  commit : ∀ vm, R vm { vm with
    memory := vm.memory.commit
    storage := vm.storage.commit
    trace := vm.trace ++ [.commit] }
  rollback : ∀ vm, R vm { vm with
    memory := vm.memory.rollback
    storage := vm.storage.rollback
    trace := vm.trace ++ [.rollback] }
  /-- A nested frame, from its start to its end, and back in the caller. -/
  nested : ∀ vm inst address name callee callEnd,
    R (vm.calleeFrame inst address name) callee →
      R vm { vm with
        memory := callee.memory
        storage := callee.storage
        trace := callee.trace ++ [.frameEnd callEnd] }

namespace FrameRelation

variable {R : VM P → VM P → Prop} (h : FrameRelation R)

include h

private theorem bind {α β : Type} {x : Run P α} {f : α → Run P β}
    (hx : Guarantee R x) (hf : ∀ a, Guarantee R (f a)) : Guarantee R (x >>= f) :=
  Guarantee.bind h.trans hx hf

private theorem pure {α : Type} (a : α) : Guarantee R (Pure.pure a : Run P α) :=
  Guarantee.pure h.refl a

private theorem lift {α : Type} (x : Except Stop α) :
    Guarantee R (liftM x : Run P α) :=
  Guarantee.lift h.refl x

theorem guarantee_read {α : Type} (field : VM P → α) :
    Guarantee R (VM.read field) := by
  intro vm a vm' hrun
  obtain ⟨_, rfl⟩ := read_eq_ok.mp hrun
  exact h.refl _

/-! ### Gas and the guest's memory -/

theorem guarantee_useGas (amount : Nat) : Guarantee R (VM.useGas amount) := by
  intro vm r vm' hrun
  cases hgas : vm.gas with
  | none =>
      unfold VM.useGas at hrun
      rw [hgas] at hrun
      cases hrun
      exact h.refl vm
  | some gas =>
      by_cases hlt : gas < amount
      · cases (useGas_refused hgas hlt).symm.trans hrun
        exact h.refl vm
      · have hle := Nat.not_lt.mp hlt
        cases (useGas_paid hgas hle).symm.trans hrun
        exact h.useGas vm gas amount hgas hle

theorem guarantee_bytesCost (length cost : Nat) :
    Guarantee R (VM.bytesCost length cost : Run P Nat) := by
  unfold VM.bytesCost VM.mulU32
  split
  · exact Guarantee.throw _
  · exact h.pure _

theorem guarantee_readPointer (ptr : I32) :
    Guarantee R (VM.readPointer ptr : Run P Bytes) := by
  intro vm bytes vm' hrun
  rw [readPointer_state hrun]
  exact h.refl vm

theorem guarantee_writeMemory (pointer : I32) (value : Bytes) :
    Guarantee R (VM.writeMemory pointer value : Run P Unit) := by
  unfold VM.writeMemory
  refine h.bind (h.guarantee_read _) fun vm => ?_
  split
  · exact Guarantee.throw _
  · split
    · exact Guarantee.modify fun vm => h.moduleInstance vm _
    · exact Guarantee.throw _
  · split
    · exact h.pure _
    · exact Guarantee.throw _

/-! ### Calls back into the guest -/

theorem guarantee_writePointer {invoke : Invoke P}
    (hinvoke : ∀ name args, Guarantee R (invoke name args)) (vec : Bytes) :
    Guarantee R (VM.writePointer invoke vec) := by
  unfold VM.writePointer VM.malloc
  refine h.bind (h.bind (hinvoke _ _) fun r => ?_) fun r => ?_
  · split
    · exact h.pure _
    · exact h.pure _
    · exact Guarantee.throw _
  · split
    · exact h.bind (h.guarantee_writeMemory _ _) fun _ => h.pure _
    · exact h.pure _

theorem guarantee_writeArguments {invoke : Invoke P}
    (hinvoke : ∀ name args, Guarantee R (invoke name args)) :
    ∀ arguments : List Value, Guarantee R (VM.writeArguments invoke arguments) := by
  intro arguments
  induction arguments with
  | nil => exact h.pure _
  | cons arg rest ih =>
      unfold VM.writeArguments
      refine h.bind (h.guarantee_writePointer hinvoke _) fun r => ?_
      split
      · refine h.bind ih fun r => ?_
        split
        · exact h.pure _
        · exact h.pure _
      · exact h.pure _
      · exact h.pure _

theorem guarantee_call {invoke : Invoke P}
    (hinvoke : ∀ name args, Guarantee R (invoke name args)) (func : String)
    (arguments : List Value) : Guarantee R (VM.call invoke func arguments) := by
  unfold VM.call
  refine h.bind (h.guarantee_writeArguments hinvoke arguments) fun r => ?_
  split
  · exact h.pure _
  · refine h.bind (hinvoke _ _) fun r => ?_
    split
    · refine h.bind (Guarantee.modify h.commit) fun _ =>
        h.bind (h.guarantee_readPointer _) fun bytes =>
          h.bind (h.lift _) fun result => h.pure _
    · exact h.bind (Guarantee.modify h.rollback) fun _ => h.pure _
    · exact Guarantee.throw _
    · exact Guarantee.throw _

theorem guarantee_nestedCall {invoke : Invoke P}
    (hinvoke : ∀ name args, Guarantee R (invoke name args))
    (inst : Instance P.Globals) (address : Bytes) (name : String)
    (arguments : List Value) :
    Guarantee R (VM.nestedCall invoke inst address name arguments) := by
  intro vm r vm' hrun
  unfold VM.nestedCall at hrun
  cases hcall : VM.call invoke name arguments (vm.calleeFrame inst address name) with
  | error stop =>
      rw [hcall] at hrun
      cases hrun
  | ok p =>
      obtain ⟨callEnd, callee⟩ := p
      rw [hcall] at hrun
      cases hrun
      exact h.nested vm inst address name callee callEnd
        (h.guarantee_call hinvoke name arguments _ _ _ hcall)

theorem guarantee_memoryGet (key : Bytes) :
    Guarantee R (VM.memoryGet key : Run P Bytes) :=
  h.bind (Guarantee.modify fun vm => h.memoryGet vm key) fun _ =>
    h.bind (h.guarantee_read _) fun _ => h.lift _

theorem guarantee_storageGet (key : Bytes) :
    Guarantee R (VM.storageGet key : Run P Bytes) :=
  h.bind (Guarantee.modify fun vm => h.storageGet vm key) fun _ =>
    h.bind (h.guarantee_read _) fun _ => h.lift _

theorem guarantee_externalCall
    {newModuleInstance : Bytes → Except Stop (Instance P.Globals)}
    {invoke : Invoke P} (hinvoke : ∀ name args, Guarantee R (invoke name args))
    (a f g : I32) :
    Guarantee R (VM.externalCall newModuleInstance invoke a f g) := by
  unfold VM.externalCall VM.gasUsed
  refine h.bind (h.guarantee_readPointer _) fun address =>
    h.bind (h.guarantee_readPointer _) fun nameBytes =>
      h.bind (h.lift _) fun name =>
        h.bind (h.guarantee_readPointer _) fun argumentsBytes =>
          h.bind (h.lift _) fun arguments =>
            h.bind (h.guarantee_storageGet _) fun code => ?_
  split
  · exact h.bind (h.guarantee_read _) fun vm => h.pure _
  · refine h.bind (h.lift _) fun inst =>
      h.bind (h.guarantee_nestedCall hinvoke _ _ _ _) fun r =>
        h.bind (h.bind (h.guarantee_read _) fun vm =>
          h.bind (h.lift _) fun gas => h.bind (h.lift _) fun left => ?_) fun used =>
          h.bind (h.guarantee_useGas _) fun r => ?_
    · split
      · exact h.pure _
      · split
        · exact Guarantee.throw _
        · exact h.pure _
    · split
      · exact h.pure _
      · exact h.pure _

/-! ### Host functions and the interpreter loop -/

theorem guarantee_getState {lookup : Bytes → Run P Bytes}
    (hlookup : ∀ key, Guarantee R (lookup key)) (cost : Nat) (keyPointer : I32) :
    Guarantee R (VM.getState lookup cost keyPointer) := by
  unfold VM.getState
  refine h.bind (h.guarantee_readPointer _) fun key =>
    h.bind (h.guarantee_read _) fun vm => h.bind (hlookup _) fun value =>
      h.bind (h.guarantee_bytesCost _ _) fun amount =>
        h.bind (h.guarantee_useGas _) fun r => ?_
  split
  · exact h.pure _
  · exact h.pure _

omit h in
/-- The key written is the frame's own, so the write is followed from the
state that names it. -/
theorem guarantee_namespaced {write : Bytes → Bytes → Run P Unit}
    (hwrite : ∀ vm key value r vm',
      write (vm.namespacedKey key) value vm = .ok (r, vm') → R vm vm')
    (key value : Bytes) :
    Guarantee R (VM.read (fun vm => vm.namespacedKey key) >>= fun k => write k value) := by
  intro vm r vm' hrun
  obtain ⟨_, vm₁, hread, hset⟩ := bind_eq_ok.mp hrun
  obtain ⟨rfl, rfl⟩ := read_eq_ok.mp hread
  exact hwrite _ key value r vm' hset

omit h in
theorem guarantee_write {write : Bytes → Bytes → Run P Unit}
    (hwrite : ∀ vm key value r vm',
      write (vm.namespacedKey key) value vm = .ok (r, vm') → R vm vm')
    (key value : Bytes) :
    Guarantee R (do
      write (← VM.read fun vm => vm.namespacedKey key) value
      Pure.pure (.ok none) : Run P (Except TrapKind (Option RuntimeValue))) := by
  intro vm r vm' hrun
  rw [← bind_assoc] at hrun
  obtain ⟨u, vm₁, hset, hend⟩ := bind_eq_ok.mp hrun
  cases pure_eq_ok.mp hend
  exact guarantee_namespaced hwrite key value vm u _ hset

theorem guarantee_setState {write : Bytes → Bytes → Run P Unit}
    (hwrite : ∀ vm key value r vm',
      write (vm.namespacedKey key) value vm = .ok (r, vm') → R vm vm')
    (cost : Nat) (keyPointer valuePointer : I32) :
    Guarantee R (VM.setState write cost keyPointer valuePointer) := by
  unfold VM.setState
  refine h.bind (h.guarantee_readPointer _) fun key =>
    h.bind (h.guarantee_readPointer _) fun value =>
      h.bind (h.guarantee_bytesCost _ _) fun amount =>
        h.bind (h.guarantee_useGas _) fun r => ?_
  split
  · exact h.pure _
  · exact guarantee_write hwrite key value

theorem guarantee_memorySet (vm : VM P) (key value : Bytes) (r : Unit) (vm' : VM P)
    (hset : VM.memorySet (vm.namespacedKey key) value vm = .ok (r, vm')) :
    R vm vm' := by
  cases modify_eq_ok.mp hset
  exact h.memorySet vm key value

theorem guarantee_storageSet (vm : VM P) (key value : Bytes) (r : Unit) (vm' : VM P)
    (hset : VM.storageSet (vm.namespacedKey key) value vm = .ok (r, vm')) :
    R vm vm' := by
  cases modify_eq_ok.mp hset
  exact h.storageSet vm key value

theorem guarantee_nth (args : List I32) (index : Nat) :
    Guarantee R (VM.nth args index : Run P I32) := h.lift _

theorem guarantee_answer {invoke : Invoke P}
    (hinvoke : ∀ name args, Guarantee R (invoke name args))
    (r : Except TrapKind Bytes) : Guarantee R (VM.answer invoke r) := by
  cases r with
  | error trap => exact h.pure _
  | ok bytes => exact h.guarantee_writePointer hinvoke _

theorem guarantee_invokeIndex
    {newModuleInstance : Bytes → Except Stop (Instance P.Globals)}
    {invoke : Invoke P} (hinvoke : ∀ name args, Guarantee R (invoke name args))
    (index : Nat) (args : List I32) :
    Guarantee R (VM.invokeIndex newModuleInstance invoke index args) := by
  have hfield : ∀ field : VM P → Bytes,
      Guarantee R (do VM.writePointer invoke (← VM.read field)) := fun field =>
    h.bind (h.guarantee_read _) fun bytes => h.guarantee_writePointer hinvoke bytes
  have hread : ∀ (lookup : Bytes → Run P Bytes) (cost : Nat),
      (∀ key, Guarantee R (lookup key)) →
        Guarantee R (do
          VM.answer invoke (← VM.getState lookup cost (← VM.nth args 0))) := by
    intro lookup cost hlookup
    exact h.bind (h.guarantee_nth _ _) fun key =>
      h.bind (h.guarantee_getState hlookup _ _) fun r => h.guarantee_answer hinvoke r
  have hwrite : ∀ (write : Bytes → Bytes → Run P Unit) (cost : Nat),
      (∀ vm key value r vm',
        write (vm.namespacedKey key) value vm = .ok (r, vm') → R vm vm') →
        Guarantee R (do VM.setState write cost (← VM.nth args 0) (← VM.nth args 1)) := by
    intro write cost hwrite
    exact h.bind (h.guarantee_nth _ _) fun key => h.bind (h.guarantee_nth _ _)
      fun value => h.guarantee_setState hwrite _ _ _
  unfold VM.invokeIndex VM.invokeIndexWith
  refine h.bind (Guarantee.modify fun vm => h.host vm index) fun _ => ?_
  split
  · exact hfield _
  · exact hfield _
  · exact hfield _
  · exact hfield _
  · exact hfield _
  · exact hfield _
  · exact hread VM.memoryGet _ h.guarantee_memoryGet
  · exact hwrite VM.memorySet _ h.guarantee_memorySet
  · exact hread VM.storageGet _ h.guarantee_storageGet
  · exact hwrite VM.storageSet _ h.guarantee_storageSet
  · exact h.pure _
  · exact h.bind (h.guarantee_nth _ _) fun a => h.bind (h.guarantee_nth _ _)
      fun f => h.bind (h.guarantee_nth _ _) fun g =>
        h.bind (h.guarantee_externalCall hinvoke _ _ _) fun r =>
          h.guarantee_answer hinvoke r
  · unfold VM.log
    exact h.bind (h.guarantee_nth _ _) fun level => h.bind (h.guarantee_nth _ _)
      fun message => h.bind (h.guarantee_readPointer _) fun _ =>
        h.bind (h.guarantee_readPointer _) fun _ => h.bind (h.lift _) fun _ =>
          h.pure _
  · exact Guarantee.throw _

theorem guarantee_invokeExport
    {guest : P.Act → Run P (Except TrapKind (Option RuntimeValue))}
    (hguest : ∀ act, Guarantee R (guest act)) (name : String)
    (args : List RuntimeValue) : Guarantee R (invokeExport guest name args) := by
  unfold invokeExport
  refine h.bind (h.guarantee_read _) fun vm => ?_
  split
  · exact h.pure _
  · refine h.bind (hguest _) fun r => ?_
    split
    · exact h.pure _
    · exact h.pure _

theorem guarantee_enter (names : List String) :
    Guarantee R (VM.enter names : Run P Unit) := by
  unfold VM.enter
  split
  · exact h.pure _
  · exact Guarantee.throw _

theorem guarantee_invokeWithin
    {guest : List String → P.Act → Run P (Except TrapKind (Option RuntimeValue))}
    (hguest : ∀ stack act, Guarantee R (guest stack act)) (stack : List String)
    (name : String) (args : List RuntimeValue) :
    Guarantee R (invokeWithin P guest stack name args) := by
  unfold invokeWithin
  exact h.bind (h.guarantee_enter _) fun _ => h.guarantee_invokeExport (hguest _) name args

/-- **Every run keeps the relation.**  The induction is on the budget: a step
of the guest leaves one step less, and whatever the host calls back runs on
the rest of it. -/
theorem guarantee_runGuest :
    ∀ (fuel : Nat) (stack : List String) (act : P.Act),
      Guarantee R (runGuest P fuel stack act) := by
  intro fuel
  induction fuel with
  | zero => exact fun stack act => Guarantee.throw _
  | succ fuel ih =>
      intro stack act
      unfold runGuest
      refine h.bind (h.guarantee_read _) fun vm => ?_
      split
      · refine h.bind (h.guarantee_useGas _) fun r => ?_
        split
        · exact h.pure _
        · exact h.bind (Guarantee.modify fun vm => h.moduleInstance vm _) fun _ => ih _ _
      · refine h.bind (h.guarantee_invokeIndex
          (h.guarantee_invokeWithin ih stack) _ _) fun r => ?_
        split
        · exact h.pure _
        · exact ih _ _
      · exact h.pure _
      · exact h.pure _

theorem guarantee_invoke (fuel : Nat) (stack : List String) (name : String)
    (args : List RuntimeValue) : Guarantee R (invoke P fuel stack name args) :=
  h.guarantee_invokeWithin (h.guarantee_runGuest fuel) stack name args

end FrameRelation

end Ellipticoind.Ports
