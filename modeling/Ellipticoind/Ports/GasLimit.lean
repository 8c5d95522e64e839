import Ellipticoind.Ports.OutOfGas
import Ellipticoind.Ports.VMSimulation

/-!
# The same transaction on another gas limit

`Transaction::run` starts its counter with the gas limit's low 32 bits, and
`external_call` tells a contract those bits when it asks for a contract that has no code.
Otherwise the limit is not seen: a run that no `OutOfGas` trap ends in any of its frames
goes the same on every counter that holds what it is charged.

## Main results

* `guardedRule_steady` — a guest's run on another counter.
* `same_run_under_limit` — when a transaction runs the same on another limit.
-/

namespace Ellipticoind.Ports

open Ellipticoind.Verified.Account
open Ellipticoind.Verified.StateRun

variable {P : Platform}

/-! ## What the premise and the condition say of a run -/

/-- No nested frame was ended by an `OutOfGas` trap. -/
def NoneOutOfGas (trace : List Event) : Prop :=
  ∀ callEnd, .frameEnd callEnd ∈ trace → callEnd.isOutOfGas = false

/-- No call was of a contract without code: after the arguments of a call its code was
found. -/
def NoneMissing (entries : List Mark) : Prop :=
  ∀ before bytes after, entries ≠ before ++ .arguments bytes :: .entry (some []) :: after

/-- The low bits of the limits are the same, or the guest was not told any. -/
def Untold (limit limit' : Nat) (entries : List Mark) : Prop :=
  limit % 2 ^ 32 = limit' % 2 ^ 32 ∨ NoneMissing entries

theorem NoneOutOfGas.before {xs ys : List Event} (h : NoneOutOfGas (xs ++ ys)) :
    NoneOutOfGas xs := fun callEnd hmem => h callEnd (List.mem_append_left ys hmem)

theorem Untold.append {limit limit' : Nat} {xs ys : List Mark}
    (h : Untold limit limit' (xs ++ ys)) : Untold limit limit' xs ∧ Untold limit limit' ys := by
  rcases h with hsame | hnone
  · exact ⟨.inl hsame, .inl hsame⟩
  · refine ⟨.inr fun before bytes after hxs => ?_, .inr fun before bytes after hys => ?_⟩
    · exact hnone before bytes (after ++ ys) (by rw [hxs, List.append_assoc]; rfl)
    · exact hnone (xs ++ before) bytes after (by rw [hys, List.append_assoc])

/-! ## Two counters -/

/-- A frame on the counter and under the limit of the other transaction. -/
def VM.relimited (limit limit' : Nat) (vm : VM P) : VM P := { vm with
  gas := vm.gas.map fun gas => gas + limit' % 2 ^ 32 - limit % 2 ^ 32
  transaction := { vm.transaction with gasLimit := limit' } }

/-- Where no operation of a frame leads: to another transaction, to more gas, or out of the
frames that ended in an `OutOfGas` trap. -/
structure Onward (vm vm' : VM P) : Prop where
  gasLimit : vm'.transaction.gasLimit = vm.transaction.gasLimit
  shrinks : Shrinks VM.gas vm vm'
  noneOutOfGas : NoneOutOfGas vm'.trace → NoneOutOfGas vm.trace

/-- What is left of the run is there on the other counter, too. -/
structure Stays (limit limit' : Nat) (vm : VM P) : Prop where
  noneOutOfGas : NoneOutOfGas vm.trace
  gas : ∀ gas, vm.gas = some gas → limit % 2 ^ 32 ≤ gas + limit' % 2 ^ 32

theorem Stays.before {limit limit' : Nat} {vm vm' : VM P} (h : Stays limit limit' vm')
    (honward : Onward vm vm') : Stays limit limit' vm := by
  refine ⟨honward.noneOutOfGas h.noneOutOfGas, fun gas hgas => ?_⟩
  obtain ⟨gas', hgas', hle⟩ := honward.shrinks gas hgas
  exact (h.gas gas' hgas').trans (Nat.add_le_add_right hle _)

/-- An operation that adds to the record and leaves gas and transaction alone. -/
private theorem onward_of_trace {vm vm' : VM P} {events : List Event}
    (hgas : vm'.gas = vm.gas) (htransaction : vm'.transaction = vm.transaction)
    (htrace : vm'.trace = vm.trace ++ events) : Onward vm vm' where
  gasLimit := congrArg _ htransaction
  shrinks n hn := ⟨n, hgas.trans hn, le_rfl⟩
  noneOutOfGas h := by
    rw [htrace] at h
    exact h.before

theorem frameRelation_onward : FrameRelation (Onward (P := P)) where
  refl _ := onward_of_trace rfl rfl (List.append_nil _).symm
  trans h₁ h₂ := {
    gasLimit := h₂.gasLimit.trans h₁.gasLimit
    shrinks := Metered.frameRelation_shrinks.trans h₁.shrinks h₂.shrinks
    noneOutOfGas := fun h => h₁.noneOutOfGas (h₂.noneOutOfGas h) }
  useGas vm gas amount hgas hle := {
    gasLimit := rfl
    shrinks := Metered.frameRelation_shrinks.useGas vm gas amount hgas hle
    noneOutOfGas := id }
  moduleInstance _ _ := onward_of_trace rfl rfl (List.append_nil _).symm
  host _ _ := onward_of_trace rfl rfl rfl
  memoryGet _ _ := onward_of_trace rfl rfl rfl
  storageGet _ _ := onward_of_trace rfl rfl rfl
  memorySet _ _ _ := onward_of_trace rfl rfl rfl
  storageSet _ _ _ := onward_of_trace rfl rfl rfl
  commit _ := onward_of_trace rfl rfl rfl
  rollback _ := onward_of_trace rfl rfl rfl
  nested _ _ _ _ _ _ hcallee := {
    gasLimit := rfl
    shrinks := fun n hn => ⟨n, hn, le_rfl⟩
    noneOutOfGas := fun h => (hcallee.noneOutOfGas h.before).before }

/-! ## Runs on both -/

namespace Metered

open Logged (quiet asked note)

variable {limit limit' : Nat} {α : Type} {F : α → Prop}

/-- A run on the first counter, other than one to an excluded result, goes the same on the
second, as long as nothing tells them apart. -/
structure Steady (limit limit' : Nat) (F : α → Prop) (x : Metered P α) : Prop where
  onward : Guarantee Onward x.run
  matched : ∀ vm n a vm', vm.gas = some n → vm.transaction.gasLimit = limit →
    x.run vm = .ok (a, vm') → Stays limit limit' vm' → Untold limit limit' (x vm).2 → ¬ F a →
      x.run (vm.relimited limit limit') = .ok (a, vm'.relimited limit limit')

/-- One frame is the other on the other counter. -/
abbrev Alike {α : Type} (limit limit' : Nat) (x : Run P α) : Prop :=
  Simulates (fun s t => t = s.relimited limit limit') (fun _ => True) x x

theorem Alike.read {field : VM P → α}
    (hfield : ∀ vm gas limit, field { vm with
      gas := gas
      transaction := { vm.transaction with gasLimit := limit } } = field vm) :
    Alike limit limit' (VM.read field) where
  inherited := fun _ _ _ _ _ => trivial
  matched := by
    rintro s _ a s' rfl hrun -
    obtain ⟨rfl, rfl⟩ := read_eq_ok.mp hrun
    exact ⟨_, read_eq_ok.mpr ⟨(hfield _ _ _).symm, rfl⟩, rfl⟩

theorem Alike.modify {f : VM P → VM P}
    (h : ∀ s, f (s.relimited limit limit') = (f s).relimited limit limit') :
    Alike limit limit' (modify f : Run P PUnit) :=
  Simulates.modify (fun _ _ => trivial) (by rintro s _ rfl -; exact h s)

theorem alike_memory : Alike limit limit' (VM.read fun vm : VM P => vm.moduleInstance.memory) :=
  Alike.read fun _ _ _ => rfl

theorem alike_emit (event : Event) : Alike limit limit' (VM.emit event : Run P Unit) :=
  Alike.modify fun _ => rfl

theorem alike_memoryGet (key : Bytes) :
    Alike limit limit' (VM.memoryGet key : Run P Bytes) := by
  unfold VM.memoryGet
  exact (alike_emit _).bind fun _ => (Alike.read fun _ _ _ => rfl).bind fun _ =>
    Simulates.lift _

theorem alike_storageGet (key : Bytes) :
    Alike limit limit' (VM.storageGet key : Run P Bytes) := by
  unfold VM.storageGet
  exact (alike_emit _).bind fun _ => (Alike.read fun _ _ _ => rfl).bind fun _ =>
    Simulates.lift _

theorem alike_memorySet (key value : Bytes) :
    Alike limit limit' (VM.memorySet key value : Run P Unit) := Alike.modify fun _ => rfl

theorem alike_storageSet (key value : Bytes) :
    Alike limit limit' (VM.storageSet key value : Run P Unit) := Alike.modify fun _ => rfl

theorem alike_write {write : Bytes → Bytes → Run P Unit}
    (hwrite : ∀ key value, Alike limit limit' (write key value)) (key value : Bytes) :
    Alike limit limit'
      (VM.read (fun vm => vm.namespacedKey key) >>= fun k => write k value) :=
  (Alike.read fun _ _ _ => rfl).bind fun k => hwrite k value

/-- A computation that goes alike everywhere logs what it likes. -/
theorem Steady.of_alike {x : Metered P α} (honward : Guarantee Onward x.run)
    (hx : Alike limit limit' x.run) : Steady limit limit' F x where
  onward := honward
  matched := by
    intro vm n a vm' _ _ hrun _ _ _
    obtain ⟨_, hrun', rfl⟩ := hx.matched vm _ a vm' rfl hrun trivial
    exact hrun'

theorem Steady.pure (a : α) : Steady limit limit' F (Pure.pure a : Metered P α) :=
  Steady.of_alike (Guarantee.pure frameRelation_onward.refl a) (Simulates.pure a)

theorem Steady.bind {β : Type} {G : β → Prop} {x : Metered P α} {f : α → Metered P β}
    (hx : Steady limit limit' F x) (hF : ∀ a, F a → Gives G (f a))
    (hf : ∀ a, Steady limit limit' G (f a)) : Steady limit limit' G (x >>= f) where
  onward := by
    rw [Logged.run_bind]
    exact Guarantee.bind frameRelation_onward.trans hx.onward fun a => (hf a).onward
  matched := by
    intro vm n b vm'' hn hlimit hrun hstays huntold hG
    rw [Logged.run_bind] at hrun
    obtain ⟨a, vm', hfirst, hrest⟩ := bind_eq_ok.mp hrun
    rw [Logged.log_bind hfirst] at huntold
    have honward := hx.onward vm a vm' hfirst
    obtain ⟨m, hm, _⟩ := honward.shrinks n hn
    have hfirst' := hx.matched vm n a vm' hn hlimit hfirst
      (hstays.before ((hf a).onward vm' b vm'' hrest)) huntold.append.1
      fun hout => hG (hF a hout vm' b vm'' hrest)
    have hrest' := (hf a).matched vm' m b vm'' hm (honward.gasLimit.trans hlimit) hrest hstays
      huntold.append.2 hG
    rw [Logged.run_bind]
    exact bind_eq_ok.mpr ⟨a, _, hfirst', hrest'⟩

theorem relimited_gas {vm : VM P} {n : Nat} (hn : vm.gas = some n) :
    (vm.relimited limit limit').gas = some (n + limit' % 2 ^ 32 - limit % 2 ^ 32) :=
  congrArg (Option.map _) hn

/-- What the first counter is charged, the second can pay. -/
theorem useGas_relimited {vm vm' : VM P} {n amount : Nat} {r : Except TrapKind Unit}
    (hn : vm.gas = some n) (hrun : VM.useGas amount vm = .ok (r, vm'))
    (hstays : Stays limit limit' vm') (hr : r ≠ .error .outOfGas) :
    VM.useGas amount (vm.relimited limit limit') =
      .ok (r, vm'.relimited limit limit') := by
  by_cases hlt : n < amount
  · cases (useGas_refused hn hlt).symm.trans hrun
    exact absurd rfl hr
  · have hle := Nat.not_lt.mp hlt
    cases (useGas_paid hn hle).symm.trans hrun
    have hleft := hstays.gas (n - amount) rfl
    rw [useGas_paid (relimited_gas hn) (by omega)]
    have hsame : n + limit' % 2 ^ 32 - limit % 2 ^ 32 - amount =
        n - amount + limit' % 2 ^ 32 - limit % 2 ^ 32 := by omega
    rw [hsame]
    rfl

theorem steady_useGas (amount : Nat) :
    Steady limit limit' OutOfGas (quiet (VM.useGas amount) : Metered P _) where
  onward := frameRelation_onward.guarantee_useGas amount
  matched := fun _ _ _ _ hn _ hrun hstays _ hr => useGas_relimited hn hrun hstays hr

theorem steady_payInstruction :
    Steady limit limit' OutOfGas (payInstruction : Metered P (Except TrapKind Unit)) where
  onward := by
    rw [run_payInstruction]
    exact frameRelation_onward.guarantee_useGas INSTRUCTION
  matched := by
    rw [run_payInstruction]
    exact fun _ _ _ _ hn _ hrun hstays _ hr => useGas_relimited hn hrun hstays hr

theorem steady_payment {length cost : Nat} {f : Except TrapKind Unit → Metered P α}
    (hout : Gives F (f (.error .outOfGas))) (hf : ∀ r, Steady limit limit' F (f r)) :
    Steady limit limit' F
      (bytesCost length cost >>= fun amount => quiet (VM.useGas amount) >>= f) := by
  have hcost : Steady limit limit' Never (bytesCost length cost : Metered P Nat) :=
    Steady.of_alike (frameRelation_onward.guarantee_bytesCost length cost)
      (FrameSimulation.simulates_bytesCost length cost)
  refine hcost.bind (fun _ => False.elim) fun amount => (steady_useGas amount).bind ?_ hf
  rintro _ rfl
  exact hout

/-- What a missing contract's caller is told, under its own limit. -/
theorem run_notFound (vm : VM P) :
    (notFound : Metered P (Except TrapKind Bytes)).run vm =
      .ok (.ok (P.toVec (.array
        [ .array [.integer contractNotFound.1, contractNotFound.2]
        , .integer (vm.transaction.gasLimit % 2 ^ 32 : Nat) ])), vm) := rfl

theorem storageGet_value {key value : Bytes} {vm vm' : VM P}
    (h : VM.storageGet key vm = .ok (value, vm')) : vm.storage.get key = some value := by
  obtain ⟨_, vm₁, hemit, h⟩ := bind_eq_ok.mp h
  cases modify_eq_ok.mp hemit
  obtain ⟨_, vm₂, hread, h⟩ := bind_eq_ok.mp h
  rw [← unwrap_eq_ok, ← (lift_eq_ok.mp h).1, (read_eq_ok.mp hread).1]

/-- The answer to a call of a missing contract is the one place that shows the limit. -/
theorem steady_findCode {F : Except TrapKind Bytes → Prop} (bytes address : Bytes)
    {f : List Value → Bytes → Metered P (Except TrapKind Bytes)}
    (hf : ∀ arguments code, Steady limit limit' F (f arguments code)) :
    Steady limit limit' F
      (asked (fun _ => .arguments bytes) (liftM (unwrap (P.fromSliceVec bytes))) >>=
        fun arguments => storageGet address >>= fun code =>
          if code.length = 0 then notFound else f arguments code) where
  onward := by
    simp only [Logged.run_bind, Logged.run_asked]
    refine Guarantee.bind frameRelation_onward.trans
      (Guarantee.lift frameRelation_onward.refl _) fun arguments =>
        Guarantee.bind frameRelation_onward.trans
          (frameRelation_onward.guarantee_storageGet address) fun code => ?_
    split
    · intro vm a vm' hrun
      cases (run_notFound vm).symm.trans hrun
      exact frameRelation_onward.refl vm
    · exact (hf arguments code).onward
  matched := by
    intro vm n a vm' hn hlimit hrun hstays huntold hF
    rw [Logged.run_bind] at hrun
    obtain ⟨arguments, vm₁, harguments, hlookup⟩ := bind_eq_ok.mp hrun
    rw [Logged.log_bind harguments] at huntold
    obtain ⟨harguments', hsame⟩ := lift_eq_ok.mp harguments
    rw [hsame] at hlookup huntold
    rw [Logged.run_bind] at hlookup
    obtain ⟨code, vm₂, hcode, hrest⟩ := bind_eq_ok.mp hlookup
    rw [Logged.log_bind hcode] at huntold
    obtain ⟨_, hcode', rfl⟩ := (alike_storageGet address).matched vm _ code vm₂ rfl hcode trivial
    have honward := frameRelation_onward.guarantee_storageGet address vm code vm₂ hcode
    rw [Logged.run_bind]
    refine bind_eq_ok.mpr ⟨arguments, _, lift_eq_ok.mpr ⟨harguments', rfl⟩, ?_⟩
    rw [Logged.run_bind]
    refine bind_eq_ok.mpr ⟨code, _, hcode', ?_⟩
    split at hrest
    · rename_i hempty
      rw [if_pos hempty]
      cases (run_notFound vm₂).symm.trans hrest
      rcases huntold with hlow | hnone
      · rw [run_notFound, honward.gasLimit, hlimit, hlow]
        rfl
      · have hentry : (storageGet address vm).2 = [.entry (some [])] := by
          show [Mark.entry (vm.storage.get address)] = _
          rw [storageGet_value hcode, List.length_eq_zero_iff.mp hempty]
        rw [hentry] at hnone
        exact absurd rfl (hnone [] bytes _)
    · rename_i hfound
      rw [if_neg hfound] at huntold ⊢
      obtain ⟨m, hm, _⟩ := honward.shrinks n hn
      exact (hf arguments code).matched vm₂ m a vm' hm (honward.gasLimit.trans hlimit) hrest
        hstays huntold.append.2.append.2 hF

/-- A callee starts on the two counters as its caller stands on them, and what its caller
pays is the difference. -/
theorem steady_settle {β : Type} {F : β → Prop} {invoke : MeteredInvoke P}
    {inst : Instance P.Globals} {address : Bytes} {name : String} {arguments : List Value}
    {f : CallEnd × Option Nat → Except TrapKind Unit → Metered P β}
    (hcall : Steady limit limit' (fun callEnd => callEnd.isOutOfGas = true)
      (call invoke name arguments))
    (hpure : ∀ callEnd paid, ∃ b, ∀ left, f (callEnd, left) paid = Pure.pure b) :
    Steady limit limit' F (nestedCall invoke inst address name arguments >>= fun r =>
      gasUsed r.2 >>= fun used => quiet (VM.useGas used) >>= f r) where
  onward := by
    intro vm b vm' hrun
    rw [Logged.run_bind] at hrun
    obtain ⟨⟨callEnd, left⟩, vm₁, hnested, hrest⟩ := bind_eq_ok.mp hrun
    obtain ⟨callee, hcallee, -, rfl⟩ := nestedCall_run.mp hnested
    refine frameRelation_onward.trans (frameRelation_onward.nested vm inst address name callee
      callEnd (hcall.onward _ _ _ hcallee)) ?_
    rw [Logged.run_bind] at hrest
    obtain ⟨used, vm₂, hused, hrest⟩ := bind_eq_ok.mp hrest
    cases gasUsed_state hused
    rw [Logged.run_bind] at hrest
    obtain ⟨paid, vm₃, hpaid, hrest⟩ := bind_eq_ok.mp hrest
    obtain ⟨c, hc⟩ := hpure callEnd paid
    rw [hc left] at hrest
    cases hrest
    exact frameRelation_onward.guarantee_useGas used _ _ _ hpaid
  matched := by
    intro vm n b vm' hn hlimit hrun hstays huntold _
    rw [Logged.run_bind] at hrun
    obtain ⟨⟨callEnd, left⟩, vm₁, hnested, hrest⟩ := bind_eq_ok.mp hrun
    rw [Logged.log_bind hnested] at huntold
    obtain ⟨callee, hcallee, rfl, hvm₁⟩ := nestedCall_run.mp hnested
    obtain ⟨m, hm, hle⟩ := (hcall.onward _ _ _ hcallee).shrinks n hn
    have hn₁ : vm₁.gas = some n := by
      rw [hvm₁]
      exact hn
    obtain ⟨c, hc⟩ := hpure callEnd (.ok ())
    rw [hm] at hrest
    have hend := (run_settle (f := f (callEnd, some m)) hn₁ hle).symm.trans hrest
    rw [hc (some m)] at hend
    cases hend
    have hleft := hstays.gas m rfl
    have hnone : NoneOutOfGas (callee.trace ++ [.frameEnd callEnd]) := by
      have hnone := hstays.noneOutOfGas
      rwa [hvm₁] at hnone
    have hcallee' := hcall.matched (vm.calleeFrame inst address name) n callEnd callee hn
      hlimit hcallee ⟨hnone.before, fun gas hgas => ?_⟩ huntold.append.1 ?_
    · have hm' : (callee.relimited limit limit').gas =
          some (m + limit' % 2 ^ 32 - limit % 2 ^ 32) := relimited_gas hm
      have hn₁' : (vm₁.relimited limit limit').gas =
          some (n + limit' % 2 ^ 32 - limit % 2 ^ 32) := relimited_gas hn₁
      rw [Logged.run_bind]
      refine bind_eq_ok.mpr ⟨(callEnd, (callee.relimited limit limit').gas),
        vm₁.relimited limit limit', nestedCall_run.mpr ⟨_, hcallee', rfl, ?_⟩, ?_⟩
      · rw [hvm₁]
        rfl
      · rw [hm']
        refine (run_settle hn₁' (by omega)).trans ?_
        rw [hc]
        rfl
    · cases hm.symm.trans hgas
      exact hleft
    · rw [hnone callEnd (List.mem_append_right _ List.mem_cons_self)]
      exact Bool.false_ne_true

/-- A guest's run, nested calls of any depth included, goes the same on both counters. -/
theorem guardedRule_steady (limit limit' : Nat) :
    GuardedRule (P := P) fun {_} F x => Steady limit limit' F x where
  pure := Steady.pure
  bind := Steady.bind
  read field hfield := Steady.of_alike (frameRelation_onward.guarantee_read field)
    (Alike.read hfield)
  payment _ _ _ := steady_payment
  payInstruction := steady_payInstruction
  moduleInstance inst := Steady.of_alike
    (Guarantee.modify fun vm => frameRelation_onward.moduleInstance vm inst)
    (Alike.modify fun _ => rfl)
  host index := Steady.of_alike
    (Guarantee.modify fun vm => frameRelation_onward.host vm index) (alike_emit _)
  commit := Steady.of_alike (Guarantee.modify frameRelation_onward.commit)
    (Alike.modify fun _ => rfl)
  rollback := Steady.of_alike (Guarantee.modify frameRelation_onward.rollback)
    (Alike.modify fun _ => rfl)
  readPointer ptr := Steady.of_alike (frameRelation_onward.guarantee_readPointer ptr)
    (FrameSimulation.simulates_readPointer_of alike_memory ptr)
  writeMemory pointer value := Steady.of_alike
    (frameRelation_onward.guarantee_writeMemory pointer value)
    (FrameSimulation.simulates_writeMemory_of alike_memory
      (fun _ => Alike.modify fun _ => rfl) pointer value)
  nth args index := Steady.of_alike (frameRelation_onward.guarantee_nth args index)
    (Simulates.lift _)
  memoryGet key := Steady.of_alike (frameRelation_onward.guarantee_memoryGet key)
    (alike_memoryGet key)
  storageGet key := Steady.of_alike (frameRelation_onward.guarantee_storageGet key)
    (alike_storageGet key)
  memorySet key value := Steady.of_alike
    (FrameRelation.guarantee_namespaced frameRelation_onward.guarantee_memorySet key value)
    (alike_write alike_memorySet key value)
  storageSet key value := Steady.of_alike
    (FrameRelation.guarantee_namespaced frameRelation_onward.guarantee_storageSet key value)
    (alike_write alike_storageSet key value)
  text _ := Steady.of_alike (Guarantee.lift frameRelation_onward.refl _) (Simulates.lift _)
  result _ := Steady.of_alike (Guarantee.lift frameRelation_onward.refl _) (Simulates.lift _)
  newModuleInstance _ _ := Steady.of_alike (Guarantee.lift frameRelation_onward.refl _)
    (Simulates.lift _)
  enter names := Steady.of_alike (frameRelation_onward.guarantee_enter names)
    (FrameSimulation.simulates_enter names)
  noPointer _ := Steady.of_alike (Guarantee.throw _) (Simulates.throw _ _)
  noExport _ := Steady.of_alike (Guarantee.throw _) (Simulates.throw _ _)
  noHost _ := Steady.of_alike (Guarantee.throw _) (Simulates.throw _ _)
  outOfFuel := Steady.of_alike (Guarantee.throw _) (Simulates.throw _ _)
  findCode := steady_findCode
  settle _ _ _ _ _ := steady_settle

end Metered

/-! ## Transactions -/

/-- What `run_transaction` takes for the gas used. -/
def Transaction.gasUsed (P : Platform) (t : Transaction) (e : Executed) : Except Stop Nat := do
  let gasUsed ← subU64 P t.gasLimit (← unwrap e.gasLeft)
  return gasUsed % 2 ^ 32

/-- The same transaction, under another limit. -/
def Transaction.withLimit (t : Transaction) (limit : Nat) : Transaction :=
  { t with gasLimit := limit }

/-- Under the other limit the transaction gives the same: its result, the two changesets,
and the gas used. -/
def SameRun (P : Platform) (fuel : Nat) (t : Transaction) (limit : Nat) (memory : Memory)
    (storage : Storage) (env : Env) (e : Executed) : Prop :=
  ∃ e', (t.withLimit limit).execute P fuel memory storage env = .ok e' ∧
    e'.ending.result = e.ending.result ∧ e'.memoryChangeset = e.memoryChangeset ∧
    e'.storageChangeset = e.storageChangeset ∧
    (t.withLimit limit).gasUsed P e' = t.gasUsed P e

theorem gasUsed_of_gasLeft {t : Transaction} {e : Executed} {left amount : Nat}
    (hleft : e.gasLeft = some left) (hsum : left + amount = t.gasLimit % 2 ^ 32) :
    t.gasUsed P e = .ok amount := by
  obtain ⟨hused, hamount⟩ := gasUsed_of_left (P := P) hsum
  unfold Transaction.gasUsed
  rw [hleft]
  show (subU64 P t.gasLimit left >>= fun gasUsed => pure (gasUsed % 2 ^ 32)) = _
  rw [hused, ← hamount]
  rfl

/-- The other transaction starts where the first does, on its own counter. -/
theorem frame_relimited (t : Transaction) (limit : Nat) (inst : Instance P.Globals)
    (memory : Memory) (storage : Storage) (env : Env) :
    (t.frame inst memory storage env).relimited t.gasLimit limit =
      (t.withLimit limit).frame inst memory storage env := by
  have hgas : t.gasLimit % 2 ^ 32 + limit % 2 ^ 32 - t.gasLimit % 2 ^ 32 = limit % 2 ^ 32 :=
    Nat.add_sub_cancel_left _ _
  show ({ t.frame inst memory storage env with
    gas := some (t.gasLimit % 2 ^ 32 + limit % 2 ^ 32 - t.gasLimit % 2 ^ 32)
    transaction := { t with gasLimit := limit } } : VM P) = _
  rw [hgas]
  rfl

/-- A run that no `OutOfGas` trap ended and that was not told the limit is the same on
every counter that holds what it is charged. -/
theorem sameRun_of_enough {fuel limit : Nat} {t : Transaction} {memory : Memory}
    {storage : Storage} {env : Env} {e : Executed}
    (h : t.execute P fuel memory storage env = .ok e) (hend : e.ending.isOutOfGas = false)
    (hnone : NoneOutOfGas e.trace)
    (huntold : Untold t.gasLimit limit (Metered.execute P fuel t memory storage env ()).2)
    (henough : t.gasCharged P fuel memory storage env ≤ limit % 2 ^ 32) :
    SameRun P fuel t limit memory storage env e := by
  obtain ⟨left, hleft, hsum⟩ := execute_gasLeft h
  unfold Transaction.startGas at hsum
  obtain ⟨code, hcode, ⟨hempty, hlog, rfl⟩ | ⟨hfound, inst, callEnd, vm, hinst, hcall, hlog,
    rfl⟩⟩ := execute_cases h
  · have hrun : (t.withLimit limit).execute P fuel memory storage env = .ok {
        memoryChangeset := memory.changeset
        storageChangeset := storage.changeset
        ending := .contractNotFound
        gasLeft := some (limit % 2 ^ 32)
        trace := [] } := by
      unfold Transaction.execute
      refine except_bind_eq_ok.mpr ⟨code, unwrap_eq_ok.mpr hcode, ?_⟩
      rw [if_pos hempty]
      rfl
    refine ⟨_, hrun, rfl, rfl, rfl, ?_⟩
    rw [gasUsed_of_gasLeft hleft hsum]
    cases hleft
    refine gasUsed_of_gasLeft rfl ?_
    show limit % 2 ^ 32 + _ = limit % 2 ^ 32
    unfold Transaction.startGas at hsum
    omega
  · rw [hlog] at huntold
    have hentries : Untold t.gasLimit limit
        ([.entry (some code), .start code fuel] ++ _) := huntold
    have hstays : Stays t.gasLimit limit vm := ⟨hnone, fun gas hgas => by
      cases hgas.symm.trans hleft
      omega⟩
    have hcall' := ((Metered.guardedRule_steady t.gasLimit limit).callOn fuel [] t.function
      t.arguments).matched _ _ callEnd vm rfl rfl hcall hstays hentries.append.2
      (Bool.not_eq_true _ ▸ hend)
    rw [frame_relimited, Metered.run_call, Metered.forget_invoke] at hcall'
    have hrun : (t.withLimit limit).execute P fuel memory storage env = .ok {
        memoryChangeset := vm.memory.changeset
        storageChangeset := vm.storage.changeset
        ending := .called callEnd
        gasLeft := (vm.relimited t.gasLimit limit).gas
        trace := vm.trace } := by
      unfold Transaction.execute
      refine except_bind_eq_ok.mpr ⟨code, unwrap_eq_ok.mpr hcode, ?_⟩
      rw [if_neg hfound]
      refine except_bind_eq_ok.mpr ⟨inst, hinst, ?_⟩
      exact except_bind_eq_ok.mpr ⟨_, hcall', rfl⟩
    refine ⟨_, hrun, rfl, rfl, rfl, ?_⟩
    rw [gasUsed_of_gasLeft hleft hsum]
    refine gasUsed_of_gasLeft (Metered.relimited_gas hleft) ?_
    show left + limit % 2 ^ 32 - t.gasLimit % 2 ^ 32 + _ = limit % 2 ^ 32
    omega

/-- A limit under which it is the same holds what it is charged. -/
theorem SameRun.enough {fuel limit : Nat} {t : Transaction} {memory : Memory}
    {storage : Storage} {env : Env} {e : Executed}
    (h : t.execute P fuel memory storage env = .ok e)
    (hsame : SameRun P fuel t limit memory storage env e) :
    t.gasCharged P fuel memory storage env ≤ limit % 2 ^ 32 := by
  obtain ⟨left, hleft, hsum⟩ := execute_gasLeft h
  obtain ⟨e', hrun, _, _, _, hused⟩ := hsame
  obtain ⟨left', hleft', hsum'⟩ := execute_gasLeft hrun
  rw [gasUsed_of_gasLeft hleft hsum, gasUsed_of_gasLeft hleft' hsum'] at hused
  have hstart : (t.withLimit limit).startGas = limit % 2 ^ 32 := rfl
  have hcharged := Except.ok.inj hused
  omega

/-- **When a transaction runs the same on another limit.**  If no `OutOfGas` trap ends the
run in any frame, it is the same under every limit whose low 32 bits hold what it is
charged, so under every limit whose low bits are no smaller, if the low bits are the same
or no call is of a missing contract.  Where the low bits do not hold the charge it is never
the same. -/
theorem same_run_under_limit {fuel limit : Nat} {t : Transaction} {memory : Memory}
    {storage : Storage} {env : Env} {e : Executed}
    (h : t.execute P fuel memory storage env = .ok e) (hend : e.ending.isOutOfGas = false)
    (hnone : NoneOutOfGas e.trace) :
    (t.gasLimit % 2 ^ 32 ≤ limit % 2 ^ 32 →
      Untold t.gasLimit limit (Metered.execute P fuel t memory storage env ()).2 →
        SameRun P fuel t limit memory storage env e) ∧
    (Untold t.gasLimit limit (Metered.execute P fuel t memory storage env ()).2 →
      (SameRun P fuel t limit memory storage env e ↔
        t.gasCharged P fuel memory storage env ≤ limit % 2 ^ 32)) ∧
    (limit % 2 ^ 32 < t.gasCharged P fuel memory storage env →
      ¬ SameRun P fuel t limit memory storage env e) := by
  refine ⟨fun hle huntold => ?_, fun huntold => ?_, fun hlt hsame => ?_⟩
  · refine sameRun_of_enough h hend hnone huntold (le_trans ?_ hle)
    obtain ⟨left, _, hsum⟩ := execute_gasLeft h
    exact Nat.le.intro ((Nat.add_comm _ _).trans hsum)
  · exact ⟨SameRun.enough h, sameRun_of_enough h hend hnone huntold⟩
  · exact absurd (SameRun.enough h hsame) (Nat.not_le.mpr hlt)

/-! ## A limit that is cut off -/

/-- The entry is of a call's arguments. -/
def Mark.isArguments : Mark → Bool
  | .arguments _ => true
  | _ => false

/-- Where nothing is called, nothing missing is. -/
theorem noneMissing_of_no_call {entries : List Mark}
    (h : entries.any Mark.isArguments = false) : NoneMissing entries := by
  rintro before bytes after rfl
  simp [Mark.isArguments] at h

open Script in
/-- A run of two instructions, on the gas that they cost. -/
theorem runOn_two : ∃ memoryChangeset storageChangeset result,
    runOn [2] 2 = .ok {
      memoryChangeset := memoryChangeset
      storageChangeset := storageChangeset
      ending := .called (.returned result)
      gasLeft := some 0
      trace := [.commit] } := ⟨_, _, _, rfl⟩

theorem noneOutOfGas_commit : NoneOutOfGas [.commit] := by
  intro callEnd hmem
  cases List.mem_singleton.mp hmem

open Script in
/-- Two instructions run on a limit of 2, and not on one of `2 ^ 32`. -/
theorem limit_cut_off :
    ¬ ∀ (P : Platform) (fuel : Nat) (t : Transaction) (limit : Nat) (memory : Memory)
      (storage : Storage) (env : Env) (e : Executed),
      t.execute P fuel memory storage env = .ok e → e.ending.isOutOfGas = false →
        NoneOutOfGas e.trace → t.gasLimit ≤ limit → limit < 2 ^ 64 →
          SameRun P fuel t limit memory storage env e := by
  intro h
  obtain ⟨memoryChangeset, storageChangeset, result, hrun⟩ := runOn_two
  have hsame := h byteWriterPlatform 10 (callOn 2) (2 ^ 32) _ _ firstBlock _ hrun rfl
    noneOutOfGas_commit (by decide) (by decide)
  have hcharged : (callOn 2).gasCharged byteWriterPlatform 10 (Memory.new ∅ ∅)
      (Storage.new ∅ ∅ (deployed [([65], [2])])) firstBlock = 2 := by rfl
  have hle := hsame.enough hrun
  rw [hcharged] at hle
  exact absurd hle (by decide)

open Script in
/-- They run the same on a limit of `2 ^ 32 + 3`. -/
theorem same_run_at_two_instructions :
    ∃ e, runOn [2] 2 = .ok e ∧ SameRun byteWriterPlatform 10 (callOn 2) (2 ^ 32 + 3)
      (Memory.new ∅ ∅) (Storage.new ∅ ∅ (deployed [([65], [2])])) firstBlock e := by
  obtain ⟨memoryChangeset, storageChangeset, result, hrun⟩ := runOn_two
  exact ⟨_, hrun, (same_run_under_limit hrun rfl noneOutOfGas_commit).1 (by decide)
    (.inr (noneMissing_of_no_call rfl))⟩

end Ellipticoind.Ports
