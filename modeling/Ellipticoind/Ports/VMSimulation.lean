import Ellipticoind.Ports.VMRun

/-!
# Two runs of the same guest

`FrameSimulation R good` says what a relation between the frames of two runs
has to provide for the runs to stay in step: the guest, the gas and the
transaction are the same on both sides, and so is every answer of the host.
`good` may exclude host calls that the two sides answer differently; it is
asked of the end of the first run and inherited by what came before.

`FrameSimulation.simulates_runGuest` is the induction over the interpreter's
budget, as `FrameRelation.guarantee_runGuest` is for one run.
-/

namespace Ellipticoind.Ports

open Ellipticoind.Verified.StateRun

variable {P : Platform}

/-- What a relation between the frames of two runs has to provide. -/
structure FrameSimulation (R : VM P → VM P → Prop) (good : VM P → Prop) :
    Prop where
  inherited : FrameRelation fun vm vm' : VM P => good vm' → good vm
  moduleInstance : ∀ {s t}, R s t → s.moduleInstance = t.moduleInstance
  gas : ∀ {s t}, R s t → s.gas = t.gas
  transaction : ∀ {s t}, R s t → s.transaction = t.transaction
  blockNumber : ∀ {s t}, R s t → s.env.blockNumber = t.env.blockNumber
  blockWinner : ∀ {s t}, R s t → s.env.blockWinner = t.env.blockWinner
  caller : ∀ {s t}, R s t → s.env.caller = t.env.caller
  /-- An entry of the memory that may be read differently ends a good run. -/
  memoryGet : ∀ {s t} key, R s t →
    good { s with trace := s.trace ++ [.getMemory key] } →
    R { s with trace := s.trace ++ [.getMemory key] }
      { t with trace := t.trace ++ [.getMemory key] } ∧
    s.memory.get key = t.memory.get key
  /-- An entry of the storage, likewise. -/
  storageGet : ∀ {s t} key, R s t →
    good { s with trace := s.trace ++ [.getStorage key] } →
    R { s with trace := s.trace ++ [.getStorage key] }
      { t with trace := t.trace ++ [.getStorage key] } ∧
    s.storage.get key = t.storage.get key
  setGas : ∀ {s t} gas, R s t → R { s with gas := gas } { t with gas := gas }
  setInstance : ∀ {s t} inst, R s t →
    R { s with moduleInstance := inst } { t with moduleInstance := inst }
  /-- A host call that may be answered differently ends a good run. -/
  host : ∀ {s t} index, R s t → good { s with trace := s.trace ++ [.host index] } →
    R { s with trace := s.trace ++ [.host index] }
      { t with trace := t.trace ++ [.host index] } ∧
    (index = BLOCK_HASH_FUNC_INDEX → s.env.blockHash = t.env.blockHash)
  memorySet : ∀ {s t} key value, R s t →
    R { s with
        memory := s.memory.set key value
        trace := s.trace ++ [.setMemory key value] }
      { t with
        memory := t.memory.set key value
        trace := t.trace ++ [.setMemory key value] }
  storageSet : ∀ {s t} key value, R s t →
    R { s with
        storage := s.storage.set key value
        trace := s.trace ++ [.setStorage key value] }
      { t with
        storage := t.storage.set key value
        trace := t.trace ++ [.setStorage key value] }
  commit : ∀ {s t}, R s t →
    R { s with
        memory := s.memory.commit
        storage := s.storage.commit
        trace := s.trace ++ [.commit] }
      { t with
        memory := t.memory.commit
        storage := t.storage.commit
        trace := t.trace ++ [.commit] }
  rollback : ∀ {s t}, R s t →
    R { s with
        memory := s.memory.rollback
        storage := s.storage.rollback
        trace := s.trace ++ [.rollback] }
      { t with
        memory := t.memory.rollback
        storage := t.storage.rollback
        trace := t.trace ++ [.rollback] }
  calleeFrame : ∀ {s t} inst address name, R s t →
    R (s.calleeFrame inst address name) (t.calleeFrame inst address name)
  nested : ∀ {s t callee callee'} callEnd, R s t → R callee callee' →
    R { s with
        memory := callee.memory
        storage := callee.storage
        trace := callee.trace ++ [.frameEnd callEnd] }
      { t with
        memory := callee'.memory
        storage := callee'.storage
        trace := callee'.trace ++ [.frameEnd callEnd] }
  /-- A good run had good calls in it. -/
  nestedGood : ∀ {s callee : VM P} callEnd,
    good { s with
      memory := callee.memory
      storage := callee.storage
      trace := callee.trace ++ [.frameEnd callEnd] } → good callee

namespace FrameSimulation

variable {R : VM P → VM P → Prop} {good : VM P → Prop}

theorem simulates_bytesCost (length cost : Nat) :
    Simulates R good (VM.bytesCost length cost : Run P Nat)
      (VM.bytesCost length cost) := by
  unfold VM.bytesCost VM.mulU32
  split
  · exact Simulates.throw _ _
  · exact Simulates.pure _

theorem simulates_nth (args : List I32) (index : Nat) :
    Simulates R good (VM.nth args index : Run P I32) (VM.nth args index) :=
  Simulates.lift _

/-- The host reads the guest's memory alike where the two sides have the same. -/
theorem simulates_readPointer_of
    (hmemory : Simulates R good (VM.read fun vm : VM P => vm.moduleInstance.memory)
      (VM.read fun vm => vm.moduleInstance.memory)) (ptr : I32) :
    Simulates R good (VM.readPointer ptr : Run P Bytes) (VM.readPointer ptr) := by
  have hread : ∀ pointer length : I32,
      Simulates R good (VM.readMemory pointer length : Run P Bytes)
        (VM.readMemory pointer length) := by
    intro pointer length
    unfold VM.readMemory
    refine hmemory.bind fun mem => ?_
    cases mem with
    | absent => exact Simulates.throw _ _
    | other => exact Simulates.pure _
    | memory bytes =>
        dsimp only
        split
        · exact Simulates.pure _
        · exact Simulates.throw _ _
  unfold VM.readPointer VM.readI32 VM.addI32
  refine ((hread _ _).bind fun slice => ?_).bind fun length =>
    Simulates.bind ?_ fun offset => hread _ _
  · split
    · exact Simulates.pure _
    · exact Simulates.throw _ _
  · split
    · exact Simulates.throw _ _
    · exact Simulates.pure _

/-- So it writes it. -/
theorem simulates_writeMemory_of
    (hmemory : Simulates R good (VM.read fun vm : VM P => vm.moduleInstance.memory)
      (VM.read fun vm => vm.moduleInstance.memory))
    (hset : ∀ memory : MemoryExport, Simulates R good
      (modify fun vm => { vm with
        moduleInstance := { vm.moduleInstance with memory := memory } } : Run P Unit)
      (modify fun vm => { vm with
        moduleInstance := { vm.moduleInstance with memory := memory } }))
    (pointer : I32) (value : Bytes) :
    Simulates R good (VM.writeMemory pointer value : Run P Unit)
      (VM.writeMemory pointer value) := by
  unfold VM.writeMemory
  refine hmemory.bind fun mem => ?_
  cases mem with
  | absent => exact Simulates.throw _ _
  | memory bytes =>
      dsimp only
      split
      · exact hset _
      · exact Simulates.throw _ _
  | other =>
      dsimp only
      split
      · exact Simulates.pure _
      · exact Simulates.throw _ _

variable (h : FrameSimulation R good)

include h

/-! ### Reading and paying -/

theorem simulates_read {α : Type} {field : VM P → α}
    (hfield : ∀ {s t}, R s t → field s = field t) :
    Simulates R good (VM.read field) (VM.read field) where
  inherited := h.inherited.guarantee_read field
  matched := by
    intro s t a s' hR hrun _
    obtain ⟨rfl, rfl⟩ := read_eq_ok.mp hrun
    exact ⟨t, read_eq_ok.mpr ⟨hfield hR, rfl⟩, hR⟩

theorem simulates_useGas (amount : Nat) :
    Simulates R good (VM.useGas amount) (VM.useGas amount) where
  inherited := h.inherited.guarantee_useGas amount
  matched := by
    intro s t r s' hR hrun _
    unfold VM.useGas at hrun ⊢
    rw [← h.gas hR]
    cases hgas : s.gas with
    | none =>
        rw [hgas] at hrun
        cases hrun
        exact ⟨t, rfl, hR⟩
    | some gas =>
        rw [hgas] at hrun
        by_cases hlt : gas < amount
        · simp only [if_pos hlt] at hrun ⊢
          cases hrun
          exact ⟨t, rfl, hR⟩
        · simp only [if_neg hlt] at hrun ⊢
          cases hrun
          exact ⟨_, rfl, h.setGas _ hR⟩

theorem simulates_memory :
    Simulates R good (VM.read fun vm : VM P => vm.moduleInstance.memory)
      (VM.read fun vm => vm.moduleInstance.memory) :=
  h.simulates_read fun hR => by rw [h.moduleInstance hR]

theorem simulates_readPointer (ptr : I32) :
    Simulates R good (VM.readPointer ptr : Run P Bytes) (VM.readPointer ptr) :=
  simulates_readPointer_of h.simulates_memory ptr

theorem simulates_writeMemory (pointer : I32) (value : Bytes) :
    Simulates R good (VM.writeMemory pointer value : Run P Unit)
      (VM.writeMemory pointer value) := by
  refine simulates_writeMemory_of h.simulates_memory (fun memory => ?_) pointer value
  refine Simulates.modify (fun vm => h.inherited.moduleInstance vm _) fun s t hR _ => ?_
  rw [← h.moduleInstance hR]
  exact h.setInstance _ hR

/-! ### Calls back into the guest -/

theorem simulates_writePointer {invoke invoke' : Invoke P}
    (hinvoke : ∀ name args, Simulates R good (invoke name args) (invoke' name args))
    (vec : Bytes) :
    Simulates R good (VM.writePointer invoke vec) (VM.writePointer invoke' vec) := by
  unfold VM.writePointer VM.malloc
  refine ((hinvoke _ _).bind fun r => ?_).bind fun r => ?_
  · split
    · exact Simulates.pure _
    · exact Simulates.pure _
    · exact Simulates.throw _ _
  · split
    · exact (h.simulates_writeMemory _ _).bind fun _ => Simulates.pure _
    · exact Simulates.pure _

theorem simulates_answer {invoke invoke' : Invoke P}
    (hinvoke : ∀ name args, Simulates R good (invoke name args) (invoke' name args))
    (r : Except TrapKind Bytes) :
    Simulates R good (VM.answer invoke r) (VM.answer invoke' r) := by
  cases r with
  | error trap => exact Simulates.pure _
  | ok bytes => exact h.simulates_writePointer hinvoke bytes

theorem simulates_writeArguments {invoke invoke' : Invoke P}
    (hinvoke : ∀ name args, Simulates R good (invoke name args) (invoke' name args)) :
    ∀ arguments : List Value,
      Simulates R good (VM.writeArguments invoke arguments)
        (VM.writeArguments invoke' arguments) := by
  intro arguments
  induction arguments with
  | nil => exact Simulates.pure _
  | cons arg rest ih =>
      unfold VM.writeArguments
      refine (h.simulates_writePointer hinvoke _).bind fun r => ?_
      split
      · refine ih.bind fun r => ?_
        split
        · exact Simulates.pure _
        · exact Simulates.pure _
      · exact Simulates.pure _
      · exact Simulates.pure _

theorem simulates_call {invoke invoke' : Invoke P}
    (hinvoke : ∀ name args, Simulates R good (invoke name args) (invoke' name args))
    (func : String) (arguments : List Value) :
    Simulates R good (VM.call invoke func arguments)
      (VM.call invoke' func arguments) := by
  unfold VM.call
  refine (h.simulates_writeArguments hinvoke arguments).bind fun r => ?_
  split
  · exact Simulates.pure _
  · refine (hinvoke _ _).bind fun r => ?_
    split
    · exact (Simulates.modify h.inherited.commit fun s t hR _ => h.commit hR).bind
        fun _ => (h.simulates_readPointer _).bind fun bytes =>
          (Simulates.lift _).bind fun result => Simulates.pure _
    · exact (Simulates.modify h.inherited.rollback fun s t hR _ => h.rollback hR).bind
        fun _ => Simulates.pure _
    · exact Simulates.throw _ _
    · exact Simulates.throw _ _

theorem simulates_nestedCall {invoke invoke' : Invoke P}
    (hinvoke : ∀ name args, Simulates R good (invoke name args) (invoke' name args))
    (inst : Instance P.Globals) (address : Bytes) (name : String)
    (arguments : List Value) :
    Simulates R good (VM.nestedCall invoke inst address name arguments)
      (VM.nestedCall invoke' inst address name arguments) where
  inherited := h.inherited.guarantee_nestedCall
    (fun name args => (hinvoke name args).inherited) inst address name arguments
  matched := by
    intro s t r s' hR hrun hgood
    unfold VM.nestedCall at hrun ⊢
    obtain ⟨⟨callEnd, callee⟩, hcall, hrun⟩ := except_bind_eq_ok.mp hrun
    cases hrun
    obtain ⟨callee', hcall', hR'⟩ := (h.simulates_call hinvoke name arguments).matched
      _ _ _ _ (h.calleeFrame inst address name hR) hcall (h.nestedGood callEnd hgood)
    refine ⟨_, except_bind_eq_ok.mpr ⟨(callEnd, callee'), hcall', ?_⟩,
      h.nested callEnd hR hR'⟩
    rw [h.gas hR']
    rfl

theorem simulates_gasUsed (gasLeft : Option Nat) :
    Simulates R good (VM.gasUsed gasLeft : Run P Nat) (VM.gasUsed gasLeft) := by
  unfold VM.gasUsed
  refine (h.simulates_read h.gas).bind fun _ => (Simulates.lift _).bind fun gas =>
    (Simulates.lift _).bind fun left => ?_
  split
  · exact Simulates.pure _
  · split
    · exact Simulates.throw _ _
    · exact Simulates.pure _

theorem simulates_memoryGet (key : Bytes) :
    Simulates R good (VM.memoryGet key : Run P Bytes) (VM.memoryGet key) where
  inherited := h.inherited.guarantee_memoryGet key
  matched := by
    intro s t value s' hR hrun hgood
    obtain ⟨_, s₁, hemit, hrun⟩ := bind_eq_ok.mp hrun
    cases modify_eq_ok.mp hemit
    obtain ⟨_, s₂, hread, hrun⟩ := bind_eq_ok.mp hrun
    obtain ⟨rfl, rfl⟩ := read_eq_ok.mp hread
    obtain ⟨hvalue, rfl⟩ := lift_eq_ok.mp hrun
    obtain ⟨hR', hsame⟩ := h.memoryGet key hR hgood
    refine ⟨_, bind_eq_ok.mpr ⟨_, _, modify_eq_ok.mpr rfl, ?_⟩, hR'⟩
    exact bind_eq_ok.mpr ⟨_, _, read_eq_ok.mpr ⟨hsame, rfl⟩, lift_eq_ok.mpr ⟨hvalue, rfl⟩⟩

theorem simulates_storageGet (key : Bytes) :
    Simulates R good (VM.storageGet key : Run P Bytes) (VM.storageGet key) where
  inherited := h.inherited.guarantee_storageGet key
  matched := by
    intro s t value s' hR hrun hgood
    obtain ⟨_, s₁, hemit, hrun⟩ := bind_eq_ok.mp hrun
    cases modify_eq_ok.mp hemit
    obtain ⟨_, s₂, hread, hrun⟩ := bind_eq_ok.mp hrun
    obtain ⟨rfl, rfl⟩ := read_eq_ok.mp hread
    obtain ⟨hvalue, rfl⟩ := lift_eq_ok.mp hrun
    obtain ⟨hR', hsame⟩ := h.storageGet key hR hgood
    refine ⟨_, bind_eq_ok.mpr ⟨_, _, modify_eq_ok.mpr rfl, ?_⟩, hR'⟩
    exact bind_eq_ok.mpr ⟨_, _, read_eq_ok.mpr ⟨hsame, rfl⟩, lift_eq_ok.mpr ⟨hvalue, rfl⟩⟩

theorem simulates_externalCall
    {newModuleInstance newModuleInstance' : Bytes → Except Stop (Instance P.Globals)}
    {invoke invoke' : Invoke P}
    (hnew : ∀ code inst, newModuleInstance code = .ok inst →
      newModuleInstance' code = .ok inst)
    (hinvoke : ∀ name args, Simulates R good (invoke name args) (invoke' name args))
    (a f g : I32) :
    Simulates R good (VM.externalCall newModuleInstance invoke a f g)
      (VM.externalCall newModuleInstance' invoke' a f g) := by
  unfold VM.externalCall
  refine (h.simulates_readPointer _).bind fun address =>
    (h.simulates_readPointer _).bind fun nameBytes => (Simulates.lift _).bind fun name =>
      (h.simulates_readPointer _).bind fun argumentsBytes =>
        (Simulates.lift _).bind fun arguments =>
          (h.simulates_storageGet _).bind fun code => ?_
  split
  · exact (h.simulates_read fun hR => by rw [h.transaction hR]).bind fun gasLimit =>
      Simulates.pure _
  · refine (Simulates.lift_of_imp (hnew code)).bind fun inst =>
      (h.simulates_nestedCall hinvoke _ _ _ _).bind fun r =>
        (h.simulates_gasUsed _).bind fun used => (h.simulates_useGas _).bind fun r => ?_
    split
    · exact Simulates.pure _
    · exact Simulates.pure _

/-! ### Host functions and the interpreter loop -/

theorem simulates_namespacedKey (key : Bytes) :
    Simulates R good (VM.read fun vm : VM P => vm.namespacedKey key)
      (VM.read fun vm => vm.namespacedKey key) :=
  h.simulates_read fun hR => by simp only [VM.namespacedKey, h.transaction hR]

theorem simulates_getState {lookup : Bytes → Run P Bytes}
    (hlookup : ∀ key, Simulates R good (lookup key) (lookup key)) (cost : Nat)
    (keyPointer : I32) :
    Simulates R good (VM.getState lookup cost keyPointer)
      (VM.getState lookup cost keyPointer) := by
  unfold VM.getState
  refine (h.simulates_readPointer _).bind fun key =>
    (h.simulates_namespacedKey key).bind fun key' => (hlookup _).bind fun value =>
      (simulates_bytesCost _ _).bind fun amount => (h.simulates_useGas _).bind fun r => ?_
  split
  · exact Simulates.pure _
  · exact Simulates.pure _

theorem simulates_setState {write : Bytes → Bytes → Run P Unit}
    (hinherited : ∀ vm key value r vm',
      write (vm.namespacedKey key) value vm = .ok (r, vm') → good vm' → good vm)
    (hwrite : ∀ s t key value r s', R s t → write key value s = .ok (r, s') →
      ∃ t', write key value t = .ok (r, t') ∧ R s' t')
    (cost : Nat) (keyPointer valuePointer : I32) :
    Simulates R good (VM.setState write cost keyPointer valuePointer)
      (VM.setState write cost keyPointer valuePointer) := by
  unfold VM.setState
  refine (h.simulates_readPointer _).bind fun key =>
    (h.simulates_readPointer _).bind fun value => (simulates_bytesCost _ _).bind
      fun amount => (h.simulates_useGas _).bind fun r => ?_
  split
  · exact Simulates.pure _
  · -- the key is the frame's own, so the two parts go together
    refine ⟨FrameRelation.guarantee_write hinherited key value, ?_⟩
    intro s t r s' hR hrun _
    obtain ⟨_, s₁, hread, hrun⟩ := bind_eq_ok.mp hrun
    obtain ⟨rfl, rfl⟩ := read_eq_ok.mp hread
    obtain ⟨u, s₂, hset, hend⟩ := bind_eq_ok.mp hrun
    cases pure_eq_ok.mp hend
    obtain ⟨t₂, hset', hR'⟩ := hwrite _ _ _ _ _ _ hR hset
    have hkey : s₁.namespacedKey key = t.namespacedKey key := by
      simp only [VM.namespacedKey, h.transaction hR]
    exact ⟨t₂, bind_eq_ok.mpr ⟨_, t, read_eq_ok.mpr ⟨hkey, rfl⟩,
      bind_eq_ok.mpr ⟨u, t₂, hset', rfl⟩⟩, hR'⟩

theorem simulates_log (level message : I32) :
    Simulates R good (VM.log level message :
      Run P (Except TrapKind (Option RuntimeValue))) (VM.log level message) := by
  unfold VM.log
  exact (h.simulates_readPointer _).bind fun _ => (h.simulates_readPointer _).bind
    fun _ => (Simulates.lift _).bind fun _ => Simulates.pure _

theorem simulates_memorySet {s t s' : VM P} (key value : Bytes) (r : Unit)
    (hR : R s t) (hset : VM.memorySet key value s = .ok (r, s')) :
    ∃ t', VM.memorySet key value t = .ok (r, t') ∧ R s' t' := by
  cases modify_eq_ok.mp hset
  exact ⟨_, modify_eq_ok.mpr rfl, h.memorySet key value hR⟩

theorem simulates_storageSet {s t s' : VM P} (key value : Bytes) (r : Unit)
    (hR : R s t) (hset : VM.storageSet key value s = .ok (r, s')) :
    ∃ t', VM.storageSet key value t = .ok (r, t') ∧ R s' t' := by
  cases modify_eq_ok.mp hset
  exact ⟨_, modify_eq_ok.mpr rfl, h.storageSet key value hR⟩

theorem simulates_emit (index : Nat) :
    Simulates R good (VM.emit (.host index) : Run P Unit) (VM.emit (.host index)) :=
  Simulates.modify (fun vm => h.inherited.host vm index)
    fun _ _ hR hgood => (h.host index hR hgood).1

/-- The one host function that may tell the two sides apart: a good run has
not called it, unless the two sides answer the same. -/
theorem simulates_blockHash {invoke invoke' : Invoke P}
    (hinvoke : ∀ name args, Simulates R good (invoke name args) (invoke' name args)) :
    Simulates R good
      (do
        VM.emit (.host BLOCK_HASH_FUNC_INDEX)
        VM.writePointer invoke (← VM.read fun vm => vm.env.blockHash))
      (do
        VM.emit (.host BLOCK_HASH_FUNC_INDEX)
        VM.writePointer invoke' (← VM.read fun vm => vm.env.blockHash)) := by
  have hwrite := h.simulates_writePointer hinvoke
  constructor
  · exact Guarantee.bind h.inherited.trans (h.simulates_emit _).inherited fun _ =>
      Guarantee.bind h.inherited.trans (h.inherited.guarantee_read _) fun _ =>
        (hwrite _).inherited
  · intro s t r s' hR hrun hgood
    obtain ⟨_, s₁, hemit, hrun⟩ := bind_eq_ok.mp hrun
    cases modify_eq_ok.mp hemit
    obtain ⟨hash, s₂, hread, hrun⟩ := bind_eq_ok.mp hrun
    obtain ⟨rfl, rfl⟩ := read_eq_ok.mp hread
    obtain ⟨hR₁, hhash⟩ :=
      h.host BLOCK_HASH_FUNC_INDEX hR ((hwrite _).inherited _ _ _ hrun hgood)
    obtain ⟨t', hrun', hR'⟩ := (hwrite _).matched _ _ _ _ hR₁ hrun hgood
    refine ⟨t', bind_eq_ok.mpr ⟨_, _, modify_eq_ok.mpr rfl, ?_⟩, hR'⟩
    exact bind_eq_ok.mpr ⟨_, _, read_eq_ok.mpr ⟨hhash rfl, rfl⟩, hrun'⟩

theorem simulates_invokeIndex
    {newModuleInstance newModuleInstance' : Bytes → Except Stop (Instance P.Globals)}
    {invoke invoke' : Invoke P}
    (hnew : ∀ code inst, newModuleInstance code = .ok inst →
      newModuleInstance' code = .ok inst)
    (hinvoke : ∀ name args, Simulates R good (invoke name args) (invoke' name args))
    (index : Nat) (args : List I32) :
    Simulates R good (VM.invokeIndex newModuleInstance invoke index args)
      (VM.invokeIndex newModuleInstance' invoke' index args) := by
  have hfield : ∀ field : VM P → Bytes, (∀ {s t}, R s t → field s = field t) →
      Simulates R good (do VM.writePointer invoke (← VM.read field))
        (do VM.writePointer invoke' (← VM.read field)) := fun field hfield =>
    (h.simulates_read hfield).bind fun bytes => h.simulates_writePointer hinvoke bytes
  have hread : ∀ (lookup : Bytes → Run P Bytes) (cost : Nat),
      (∀ key, Simulates R good (lookup key) (lookup key)) →
        Simulates R good
          (do VM.answer invoke (← VM.getState lookup cost (← VM.nth args 0)))
          (do VM.answer invoke' (← VM.getState lookup cost (← VM.nth args 0))) :=
    fun lookup cost hlookup => (simulates_nth _ _).bind fun key =>
      (h.simulates_getState hlookup _ _).bind fun r => h.simulates_answer hinvoke r
  by_cases hindex : index = BLOCK_HASH_FUNC_INDEX
  · rw [hindex]
    exact h.simulates_blockHash hinvoke
  · unfold VM.invokeIndex VM.invokeIndexWith
    refine (h.simulates_emit index).bind fun _ => ?_
    split
    · exact hfield _ fun hR => by rw [h.transaction hR]
    · exact hfield _ fun hR => by rw [h.transaction hR]
    · exact absurd rfl hindex
    · exact hfield _ fun hR => by simp only [VM.blockNumber, h.blockNumber hR]
    · exact hfield _ fun hR => h.blockWinner hR
    · exact hfield _ fun hR => by simp only [VM.caller, h.caller hR]
    · exact hread VM.memoryGet _ h.simulates_memoryGet
    · exact (simulates_nth _ _).bind fun key => (simulates_nth _ _).bind fun value =>
        h.simulates_setState h.inherited.guarantee_memorySet
          (fun s t key value r s' => h.simulates_memorySet key value r) _ _ _
    · exact hread VM.storageGet _ h.simulates_storageGet
    · exact (simulates_nth _ _).bind fun key => (simulates_nth _ _).bind fun value =>
        h.simulates_setState h.inherited.guarantee_storageSet
          (fun s t key value r s' => h.simulates_storageSet key value r) _ _ _
    · exact Simulates.pure _
    · exact (simulates_nth _ _).bind fun a => (simulates_nth _ _).bind fun f =>
        (simulates_nth _ _).bind fun g => (h.simulates_externalCall hnew hinvoke _ _ _).bind
          fun r => h.simulates_answer hinvoke r
    · exact (simulates_nth _ _).bind fun level => (simulates_nth _ _).bind
        fun message => h.simulates_log level message
    · exact Simulates.throw _ _

theorem simulates_invokeExport
    {guest guest' : P.Act → Run P (Except TrapKind (Option RuntimeValue))}
    (hguest : ∀ act, Simulates R good (guest act) (guest' act)) (name : String)
    (args : List RuntimeValue) :
    Simulates R good (invokeExport guest name args) (invokeExport guest' name args) := by
  unfold invokeExport
  refine (h.simulates_read h.moduleInstance).bind fun inst => ?_
  split
  · exact Simulates.pure _
  · refine (hguest _).bind fun r => ?_
    split
    · exact Simulates.pure _
    · exact Simulates.pure _

omit h in
theorem simulates_enter (names : List String) :
    Simulates R good (VM.enter names : Run P Unit) (VM.enter names) := by
  unfold VM.enter
  split
  · exact Simulates.pure _
  · exact Simulates.throw _ _

theorem simulates_invokeWithin
    {guest guest' : List String → P.Act → Run P (Except TrapKind (Option RuntimeValue))}
    (hguest : ∀ stack act, Simulates R good (guest stack act) (guest' stack act))
    (stack : List String) (name : String) (args : List RuntimeValue) :
    Simulates R good (invokeWithin P guest stack name args)
      (invokeWithin P guest' stack name args) := by
  unfold invokeWithin
  exact (simulates_enter _).bind fun _ => h.simulates_invokeExport (hguest _) name args

omit h in
/-- A start function that ends does so on every larger budget. -/
theorem runStart_of_le {fuel fuel' : Nat} (hle : fuel ≤ fuel') {act : P.Act}
    {inst inst' : Instance P.Globals} (hrun : runStart P fuel act inst = .ok inst') :
    runStart P fuel' act inst = .ok inst' := by
  induction fuel generalizing fuel' act inst with
  | zero => cases hrun
  | succ fuel ih =>
      cases fuel' with
      | zero => exact absurd hle (Nat.not_succ_le_zero fuel)
      | succ fuel' =>
          unfold runStart at hrun ⊢
          cases hstep : P.step act inst with
          | instruction act' next =>
              rw [hstep] at hrun
              exact ih (Nat.le_of_succ_le_succ hle) hrun
          | finished value =>
              rw [hstep] at hrun
              exact hrun
          | host index args resume =>
              rw [hstep] at hrun
              cases hrun
          | trap kind =>
              rw [hstep] at hrun
              cases hrun

omit h in
theorem newModuleInstance_of_le {fuel fuel' : Nat} (hle : fuel ≤ fuel') (code : Bytes)
    (inst : Instance P.Globals) (hrun : newModuleInstance P fuel code = .ok inst) :
    newModuleInstance P fuel' code = .ok inst := by
  unfold newModuleInstance at hrun ⊢
  split at hrun
  · cases hrun
  · exact hrun
  · exact runStart_of_le hle hrun

/-- **Two frames related at the start of a guest's run stay in step**, with
every nested call, for as long as the first run is a good one.  The second may have a
larger budget. -/
theorem simulates_runGuest {fuel fuel' : Nat} (hle : fuel ≤ fuel') (stack : List String)
    (act : P.Act) : Simulates R good (runGuest P fuel stack act)
      (runGuest P fuel' stack act) := by
  induction fuel generalizing fuel' stack act with
  | zero => exact Simulates.throw _ _
  | succ fuel ih =>
      cases fuel' with
      | zero => exact absurd hle (Nat.not_succ_le_zero fuel)
      | succ fuel' =>
          have hle' := Nat.le_of_succ_le_succ hle
          unfold runGuest
          refine (h.simulates_read h.moduleInstance).bind fun inst => ?_
          split
          · refine (h.simulates_useGas _).bind fun r => ?_
            split
            · exact Simulates.pure _
            · exact (Simulates.modify (fun vm => h.inherited.moduleInstance vm _)
                fun _ _ hR _ => h.setInstance _ hR).bind fun _ => ih hle' _ _
          · refine (h.simulates_invokeIndex (newModuleInstance_of_le hle')
              (h.simulates_invokeWithin (ih hle') stack) _ _).bind fun r => ?_
            split
            · exact Simulates.pure _
            · exact ih hle' _ _
          · exact Simulates.pure _
          · exact Simulates.pure _

theorem simulates_invoke {fuel fuel' : Nat} (hle : fuel ≤ fuel') (stack : List String)
    (name : String) (args : List RuntimeValue) :
    Simulates R good (invoke P fuel stack name args) (invoke P fuel' stack name args) :=
  h.simulates_invokeWithin (h.simulates_runGuest hle) stack name args

end FrameSimulation

end Ellipticoind.Ports
