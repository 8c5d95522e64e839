import Ellipticoind.Ports.Isolation
import Ellipticoind.Ports.Node
import Ellipticoind.Ports.ReadBack
import Ellipticoind.Ports.VMSimulation

/-!
# Splitting a block

A block's transactions run on the changesets of those before them, over the
persisted state.  If the changesets are written half-way, the rest runs on empty
changesets over the new state.  The two ways differ in the persisted values alone,
and a frame that starts from the block's changesets reads the same through them.

The payment for the gas does not: it runs on an empty storage changeset, so that
what the block has written to the base token's storage, its code included, is seen
by it only after the split.

## Main results

* `frameSimulation_over` — frames over a changeset and frames over the stores it was
  written to stay in step.
* `agree_run` — the rest of a block, with and without the split.
* `splits_alike` — when a split does not change the effect of a block.
-/

namespace Ellipticoind.Ports

open Ellipticoind.Verified.Overlay
open Ellipticoind.Verified.StateRun

variable {P : Platform}

/-! ## Reading through a changeset -/

/-- What the native processor reads of the persisted storage. -/
def Stores.getFromStorage (s : Stores) (key : Bytes) : Option Bytes :=
  (Storage.new s.redis s.rocksdb ∅).getFromStorage key

/-- Reading through two changesets is reading through the one what is read through
the other. -/
theorem readThrough_union (a b : Changeset) (persisted : Option Bytes) (key : Bytes) :
    readThrough (a ∪ b) persisted key = readThrough a (readThrough b persisted key) key := by
  unfold readThrough
  rw [lookup_union, Option.map_map]
  refine congrFun (congrArg Option.map (funext fun value => ?_)) persisted
  cases a.lookup key <;> rfl

/-- Every key of `b` is one of `a`. -/
def Extends (a b : Changeset) : Prop := ∀ key, a.lookup key = none → b.lookup key = none

/-- The changeset of a block over a base, extended by a transaction's. -/
theorem union_over {a b : Changeset} (h : Extends a b) (base : Changeset) :
    (a ∪ base) ∪ (b ∪ base) = (a ∪ b) ∪ base := by
  refine Finmap.ext_lookup fun key => ?_
  simp only [lookup_union]
  cases ha : a.lookup key with
  | some value => simp
  | none => simp [h key ha]

/-! ## Frames over a changeset -/

/-- The memory over a further changeset, and over another store. -/
def Memory.over (q : Stores) (base : Changeset) (m : Memory) : Memory :=
  { m with redis := q.redis, changeset := m.changeset ∪ base }

def Storage.over (q : Stores) (base : Changeset) (s : Storage) : Storage :=
  { s with redis := q.redis, rocksdb := q.rocksdb, changeset := s.changeset ∪ base }

def VM.over (q : Stores) (m c : Changeset) (vm : VM P) : VM P :=
  { vm with memory := vm.memory.over q m, storage := vm.storage.over q c }

/-- The two states are over the given stores. -/
structure On (q : Stores) (memory : Memory) (storage : Storage) : Prop where
  memory : memory.redis = q.redis
  redis : storage.redis = q.redis
  rocksdb : storage.rocksdb = q.rocksdb

/-- The frame `s` is the frame `t` over the stores `q` and a base of changesets,
where `t` is over the stores `q'` alone. -/
def IsOver (q q' : Stores) (m c : Changeset) (s t : VM P) : Prop :=
  s = t.over q m c ∧ On q' t.memory t.storage

/-- The entries that were read are, in the stores `q'`, what is read of them through
the changesets over the stores `q`. -/
def ReadAlike (q q' : Stores) (m c : Changeset) (trace : List Event) : Prop :=
  (∀ key, .getMemory key ∈ trace →
    q'.getFromMemory key = readThrough m (q.getFromMemory key) key) ∧
  ∀ key, .getStorage key ∈ trace →
    q'.getFromStorage key = readThrough c (q.getFromStorage key) key

variable {q q' : Stores} {m c : Changeset}

theorem readAlike_append {xs ys : List Event} :
    ReadAlike q q' m c (xs ++ ys) ↔ ReadAlike q q' m c xs ∧ ReadAlike q q' m c ys := by
  simp only [ReadAlike, List.mem_append, or_imp, forall_and]
  exact and_and_and_comm

/-- The record only grows. -/
theorem frameRelation_readAlike (q q' : Stores) (m c : Changeset) :
    FrameRelation fun vm vm' : VM P =>
      ReadAlike q q' m c vm'.trace → ReadAlike q q' m c vm.trace where
  refl _ h := h
  trans h₁ h₂ h := h₁ (h₂ h)
  useGas _ _ _ _ _ h := h
  moduleInstance _ _ h := h
  host _ _ h := (readAlike_append.mp h).1
  memoryGet _ _ h := (readAlike_append.mp h).1
  storageGet _ _ h := (readAlike_append.mp h).1
  memorySet _ _ _ h := (readAlike_append.mp h).1
  storageSet _ _ _ h := (readAlike_append.mp h).1
  commit _ h := (readAlike_append.mp h).1
  rollback _ h := (readAlike_append.mp h).1
  nested _ _ _ _ _ _ hcallee h := (readAlike_append.mp (hcallee (readAlike_append.mp h).1)).1

theorem Memory.get_over {memory : Memory} {key : Bytes} (hredis : memory.redis = q'.redis)
    (hread : q'.getFromMemory key = readThrough m (q.getFromMemory key) key) :
    (memory.over q m).get key = memory.get key := by
  have hpersisted : memory.getFromMemory key = q'.getFromMemory key := by
    unfold Stores.getFromMemory Memory.getFromMemory Memory.new
    rw [hredis]
  rw [Memory.get, Memory.get, hpersisted, hread, ← readThrough_union]
  rfl

theorem Storage.get_over {storage : Storage} {key : Bytes}
    (hredis : storage.redis = q'.redis) (hrocksdb : storage.rocksdb = q'.rocksdb)
    (hread : q'.getFromStorage key = readThrough c (q.getFromStorage key) key) :
    (storage.over q c).get key = storage.get key := by
  have hpersisted : storage.getFromStorage key = q'.getFromStorage key := by
    unfold Stores.getFromStorage Storage.getFromStorage Storage.new
    rw [hredis, hrocksdb]
  rw [Storage.get, Storage.get, hpersisted, hread, ← readThrough_union]
  rfl

/-- What is committed over a base is what is committed, over the base. -/
theorem Memory.commit_over (memory : Memory) :
    (memory.over q m).commit = memory.commit.over q m := by
  unfold Memory.commit Memory.over
  rw [Finmap.union_assoc]

theorem Storage.commit_over (storage : Storage) :
    (storage.over q c).commit = storage.commit.over q c := by
  unfold Storage.commit Storage.over
  rw [Finmap.union_assoc]

/-- A frame over the base and the frame without it stay in step as long as what is
read is alike. -/
theorem frameSimulation_over (q q' : Stores) (m c : Changeset) :
    FrameSimulation (IsOver (P := P) q q' m c) fun vm => ReadAlike q q' m c vm.trace where
  inherited := frameRelation_readAlike q q' m c
  moduleInstance := by rintro _ t ⟨rfl, _⟩; rfl
  gas := by rintro _ t ⟨rfl, _⟩; rfl
  transaction := by rintro _ t ⟨rfl, _⟩; rfl
  blockNumber := by rintro _ t ⟨rfl, _⟩; rfl
  blockWinner := by rintro _ t ⟨rfl, _⟩; rfl
  caller := by rintro _ t ⟨rfl, _⟩; rfl
  memoryGet := by
    rintro _ t key ⟨rfl, hon⟩ hgood
    have hread := (readAlike_append.mp hgood).2.1 key List.mem_cons_self
    exact ⟨⟨rfl, hon⟩, Memory.get_over hon.memory hread⟩
  storageGet := by
    rintro _ t key ⟨rfl, hon⟩ hgood
    have hread := (readAlike_append.mp hgood).2.2 key List.mem_cons_self
    exact ⟨⟨rfl, hon⟩, Storage.get_over hon.redis hon.rocksdb hread⟩
  setGas := by rintro _ t gas ⟨rfl, hon⟩; exact ⟨rfl, hon⟩
  setInstance := by rintro _ t inst ⟨rfl, hon⟩; exact ⟨rfl, hon⟩
  host := by rintro _ t index ⟨rfl, hon⟩ _; exact ⟨⟨rfl, hon⟩, fun _ => rfl⟩
  memorySet := by
    rintro _ t key value ⟨rfl, hon⟩
    exact ⟨rfl, hon.memory, hon.redis, hon.rocksdb⟩
  storageSet := by
    rintro _ t key value ⟨rfl, hon⟩
    exact ⟨rfl, hon.memory, hon.redis, hon.rocksdb⟩
  commit := by
    rintro _ t ⟨rfl, hon⟩
    refine ⟨?_, hon.memory, hon.redis, hon.rocksdb⟩
    simp only [VM.over, Memory.commit_over, Storage.commit_over]
  rollback := by
    rintro _ t ⟨rfl, hon⟩
    exact ⟨rfl, hon.memory, hon.redis, hon.rocksdb⟩
  calleeFrame := by rintro _ t inst address name ⟨rfl, hon⟩; exact ⟨rfl, hon⟩
  nested := by
    rintro _ t _ callee callEnd ⟨rfl, _⟩ ⟨rfl, hcallee⟩
    exact ⟨rfl, hcallee⟩
  nestedGood _ h := (readAlike_append.mp h).1

/-- A simulation that asks for nothing but the record goes both ways. -/
theorem FrameSimulation.symm {R : VM P → VM P → Prop} {good : List Event → Prop}
    (h : FrameSimulation R fun vm => good vm.trace)
    (htrace : ∀ {s t}, R s t → s.trace = t.trace) :
    FrameSimulation (fun s t => R t s) fun vm => good vm.trace where
  inherited := h.inherited
  moduleInstance hR := (h.moduleInstance hR).symm
  gas hR := (h.gas hR).symm
  transaction hR := (h.transaction hR).symm
  blockNumber hR := (h.blockNumber hR).symm
  blockWinner hR := (h.blockWinner hR).symm
  caller hR := (h.caller hR).symm
  memoryGet key hR hgood := by
    rw [← htrace hR] at hgood ⊢
    obtain ⟨hR', hsame⟩ := h.memoryGet key hR hgood
    rw [← htrace hR] at hR'
    exact ⟨hR', hsame.symm⟩
  storageGet key hR hgood := by
    rw [← htrace hR] at hgood ⊢
    obtain ⟨hR', hsame⟩ := h.storageGet key hR hgood
    rw [← htrace hR] at hR'
    exact ⟨hR', hsame.symm⟩
  setGas gas hR := h.setGas gas hR
  setInstance inst hR := h.setInstance inst hR
  host index hR hgood := by
    rw [← htrace hR] at hgood ⊢
    obtain ⟨hR', hsame⟩ := h.host index hR hgood
    rw [← htrace hR] at hR'
    exact ⟨hR', fun hindex => (hsame hindex).symm⟩
  memorySet key value hR := h.memorySet key value hR
  storageSet key value hR := h.storageSet key value hR
  commit hR := h.commit hR
  rollback hR := h.rollback hR
  calleeFrame inst address name hR := h.calleeFrame inst address name hR
  nested callEnd hR hcallee := h.nested callEnd hR hcallee
  nestedGood := h.nestedGood

/-- Two calls whose records read alike. -/
theorem agree_call {fuel : Nat} {func : String} {arguments : List Value} (vm : VM P)
    (hon : On q' vm.memory vm.storage)
    (hwhole : ∀ r, VM.call (invoke P fuel []) func arguments (vm.over q m c) = .ok r →
      ReadAlike q q' m c r.2.trace)
    (hsplit : ∀ r, VM.call (invoke P fuel []) func arguments vm = .ok r →
      ReadAlike q q' m c r.2.trace) :
    Agree (fun r r' => r = (r'.1, r'.2.over q m c))
      (VM.call (invoke P fuel []) func arguments (vm.over q m c))
      (VM.call (invoke P fuel []) func arguments vm) := by
  have hsim := frameSimulation_over (P := P) q q' m c
  have hsim' : FrameSimulation (fun s t : VM P => IsOver q q' m c t s) fun vm =>
      ReadAlike q q' m c vm.trace := hsim.symm fun hR => by rw [hR.1]; rfl
  constructor
  · rintro ⟨callEnd, whole⟩ hrun
    obtain ⟨split, hrun', hover, _⟩ := (hsim.simulates_call (hsim.simulates_invoke le_rfl [])
      func arguments).matched _ vm _ _ ⟨rfl, hon⟩ hrun (hwhole _ hrun)
    exact ⟨(callEnd, split), hrun', by rw [hover]⟩
  · rintro ⟨callEnd, split⟩ hrun
    obtain ⟨whole, hrun', hover, _⟩ := (hsim'.simulates_call (hsim'.simulates_invoke le_rfl [])
      func arguments).matched vm (vm.over q m c) _ _ ⟨rfl, hon⟩ hrun (hsplit _ hrun)
    exact ⟨(callEnd, whole), hrun', by rw [hover]⟩

/-! ## Transactions over a changeset -/

/-- A call only adds keys to the two changesets. -/
theorem extends_of_call {fuel : Nat} {func : String} {arguments : List Value}
    {vm vm' : VM P} {callEnd : CallEnd}
    (h : VM.call (invoke P fuel []) func arguments vm = .ok (callEnd, vm'))
    (hmemory : vm.memory.workingChangeset = ∅) (hstorage : vm.storage.workingChangeset = ∅) :
    Extends vm'.memory.changeset vm.memory.changeset ∧
      Extends vm'.storage.changeset vm.storage.changeset := by
  obtain ⟨events, _, hmemory', hstorage'⟩ := journaled_call fuel _ _ _ _ _ _ h
  constructor
  · intro key hnone
    have hrun := congrArg (fun m => (Memory.layers m).committed.lookup key) hmemory'
    simp only [Memory.layers_run] at hrun
    rw [lookup_committed_run hmemory] at hrun
    exact (Option.or_eq_none_iff.mp (hrun.symm.trans hnone)).2
  · intro key hnone
    have hrun := congrArg (fun s => (Storage.layers s).committed.lookup key) hstorage'
    simp only [Storage.layers_run] at hrun
    rw [lookup_committed_run hstorage] at hrun
    exact (Option.or_eq_none_iff.mp (hrun.symm.trans hnone)).2

theorem extends_of_execute {fuel : Nat} {t : Transaction} {memory : Memory}
    {storage : Storage} {env : Env} {e : Executed}
    (h : t.execute P fuel memory storage env = .ok e)
    (hmemory : memory.workingChangeset = ∅) (hstorage : storage.workingChangeset = ∅) :
    Extends e.memoryChangeset memory.changeset ∧
      Extends e.storageChangeset storage.changeset := by
  unfold Transaction.execute at h
  obtain ⟨code, _, h⟩ := except_bind_eq_ok.mp h
  split at h
  · cases h
    exact ⟨fun _ hnone => hnone, fun _ hnone => hnone⟩
  · obtain ⟨inst, _, h⟩ := except_bind_eq_ok.mp h
    obtain ⟨⟨callEnd, vm⟩, hcall, h⟩ := except_bind_eq_ok.mp h
    cases h
    exact extends_of_call hcall hmemory hstorage

/-- The run of a transaction whose contract has code. -/
theorem execute_of_call {fuel : Nat} {t : Transaction} {memory : Memory} {storage : Storage}
    {env : Env} {code : Bytes} {inst : Instance P.Globals} {r : CallEnd × VM P}
    (hcode : unwrap (storage.get (codeSlot t.contractAddress)) = .ok code)
    (hlength : ¬ code.length = 0) (hinst : newModuleInstance P fuel code = .ok inst)
    (hcall : VM.call (invoke P fuel []) t.function t.arguments
      (t.frame inst memory storage env) = .ok r) :
    t.execute P fuel memory storage env = .ok {
      memoryChangeset := r.2.memory.changeset
      storageChangeset := r.2.storage.changeset
      ending := .called r.1
      gasLeft := r.2.gas
      trace := r.2.trace } := by
  unfold Transaction.execute
  refine except_bind_eq_ok.mpr ⟨code, hcode, ?_⟩
  rw [if_neg hlength]
  exact except_bind_eq_ok.mpr ⟨inst, hinst, except_bind_eq_ok.mpr ⟨r, hcall, rfl⟩⟩

def Executed.over (m c : Changeset) (e : Executed) : Executed :=
  { e with memoryChangeset := e.memoryChangeset ∪ m, storageChangeset := e.storageChangeset ∪ c }

/-- A transaction's own run, over the base and without it. -/
theorem agree_execute {fuel : Nat} {t : Transaction} (memory : Memory) (storage : Storage)
    {env : Env} (hon : On q' memory storage)
    (hcode : q'.getFromStorage (codeSlot t.contractAddress) =
      readThrough c (q.getFromStorage (codeSlot t.contractAddress))
        (codeSlot t.contractAddress))
    (hwhole : ∀ e, t.execute P fuel (memory.over q m) (storage.over q c) env = .ok e →
      ReadAlike q q' m c e.trace)
    (hsplit : ∀ e, t.execute P fuel memory storage env = .ok e →
      ReadAlike q q' m c e.trace) :
    Agree (fun e e' => e = e'.over m c)
      (t.execute P fuel (memory.over q m) (storage.over q c) env)
      (t.execute P fuel memory storage env) := by
  refine Agree.bind (Agree.of_eq (congrArg unwrap
    (Storage.get_over hon.redis hon.rocksdb hcode))) ?_
  rintro code _ hget hget' rfl
  split
  · exact Agree.ok rfl
  · rename_i hlength
    refine Agree.bind (Agree.of_eq rfl) ?_
    rintro inst _ hinst - rfl
    have hcall : Agree _ _ _ := agree_call (t.frame inst memory storage env) hon
      (fun r hr => hwhole _ (execute_of_call hget hlength hinst hr))
      (fun r hr => hsplit _ (execute_of_call hget' hlength hinst hr))
    refine hcall.bind ?_
    rintro _ ⟨callEnd, split⟩ - - rfl
    exact Agree.ok rfl

/-- The gas payment of a user's transaction that has run, in `run_transaction`. -/
def gasPayment (P : Platform) (fuel : Nat) (r : Stores) (t : Transaction) (env : Env)
    (e : Executed) : Except Stop Outcome := do
  let gasUsed ← subU64 P t.gasLimit (← unwrap e.gasLeft)
  SystemContracts.transfer P fuel t r.redis r.rocksdb e.memoryChangeset ∅ env
    (gasUsed % 2 ^ 32) t.sender env.blockWinner

/-- The frame of the payment: unmetered, on an empty storage changeset. -/
def paymentFrame (r : Stores) (t : Transaction) (memoryChangeset : Changeset) (env : Env)
    (inst : Instance P.Globals) : VM P :=
  { t.frame inst (Memory.new r.redis memoryChangeset) (Storage.new r.redis r.rocksdb ∅) env
    with gas := none }

/-- Only its memory is over a base. -/
theorem paymentFrame_over (t : Transaction) (memoryChangeset : Changeset) (env : Env)
    (inst : Instance P.Globals) :
    (paymentFrame (P := P) q' t memoryChangeset env inst).over q m ∅ =
      paymentFrame q t (memoryChangeset ∪ m) env inst := by
  unfold VM.over paymentFrame Transaction.frame Storage.over Storage.new
  rw [Finmap.empty_union]
  rfl

theorem transfer_of_call {fuel : Nat} {r : Stores} {t : Transaction} {env : Env}
    {memoryChangeset : Changeset} {amount : Nat} {sender winner code : Bytes}
    {inst : Instance P.Globals} {result : CallEnd × VM P}
    (hcode : unwrap ((Storage.new r.redis r.rocksdb ∅).get
      (codeSlot SystemContracts.baseTokenAddress)) = .ok code)
    (hinst : newModuleInstance P fuel code = .ok inst)
    (hcall : VM.call (invoke P fuel []) "transfer"
      (SystemContracts.transferTransaction t amount sender winner).arguments
      (paymentFrame r (SystemContracts.transferTransaction t amount sender winner)
        memoryChangeset env inst) = .ok result) :
    SystemContracts.transfer P fuel t r.redis r.rocksdb memoryChangeset ∅ env amount
      sender winner = .ok {
        memoryChangeset := result.2.memory.changeset
        storageChangeset := result.2.storage.changeset
        result := result.1.result
        trace := result.2.trace } :=
  except_bind_eq_ok.mpr ⟨code, hcode, except_bind_eq_ok.mpr ⟨inst, hinst,
    except_bind_eq_ok.mpr ⟨result, hcall, rfl⟩⟩⟩

/-- The base token's two calls. -/
theorem agree_payment {fuel : Nat} {t : Transaction} {memoryChangeset : Changeset} {env : Env}
    {inst : Instance P.Globals} {func : String} {arguments : List Value}
    (hwhole : ∀ r, VM.call (invoke P fuel []) func arguments
      (paymentFrame q t (memoryChangeset ∪ m) env inst) = .ok r →
        ReadAlike q q' m ∅ r.2.trace)
    (hsplit : ∀ r, VM.call (invoke P fuel []) func arguments
      (paymentFrame q' t memoryChangeset env inst) = .ok r → ReadAlike q q' m ∅ r.2.trace) :
    Agree (fun r r' => r = (r'.1, r'.2.over q m ∅))
      (VM.call (invoke P fuel []) func arguments
        (paymentFrame q t (memoryChangeset ∪ m) env inst))
      (VM.call (invoke P fuel []) func arguments
        (paymentFrame q' t memoryChangeset env inst)) := by
  rw [← paymentFrame_over] at hwhole ⊢
  exact agree_call _ ⟨rfl, rfl, rfl⟩ hwhole hsplit

/-- The two payments: neither is over the storage's base. -/
theorem agree_transfer {fuel : Nat} {t : Transaction} {memoryChangeset : Changeset}
    {env : Env} {amount : Nat} {sender winner : Bytes}
    (hcode : q'.getFromStorage (codeSlot SystemContracts.baseTokenAddress) =
      q.getFromStorage (codeSlot SystemContracts.baseTokenAddress))
    (hwhole : ∀ o, SystemContracts.transfer P fuel t q.redis q.rocksdb
      (memoryChangeset ∪ m) ∅ env amount sender winner = .ok o →
        ReadAlike q q' m ∅ o.trace)
    (hsplit : ∀ o, SystemContracts.transfer P fuel t q'.redis q'.rocksdb
      memoryChangeset ∅ env amount sender winner = .ok o → ReadAlike q q' m ∅ o.trace) :
    Agree (fun o o' => o.memoryChangeset = o'.memoryChangeset ∪ m ∧ o.trace = o'.trace)
      (SystemContracts.transfer P fuel t q.redis q.rocksdb (memoryChangeset ∪ m) ∅ env
        amount sender winner)
      (SystemContracts.transfer P fuel t q'.redis q'.rocksdb memoryChangeset ∅ env
        amount sender winner) := by
  have hsame : (Storage.new q.redis q.rocksdb ∅).get
      (codeSlot SystemContracts.baseTokenAddress) =
        (Storage.new q'.redis q'.rocksdb ∅).get
          (codeSlot SystemContracts.baseTokenAddress) :=
    congrArg (fun p => readThrough ∅ p _) hcode.symm
  refine Agree.bind (Agree.of_eq (congrArg unwrap hsame)) ?_
  rintro code _ hget hget' rfl
  refine Agree.bind (Agree.of_eq rfl) ?_
  rintro inst _ hinst - rfl
  have hcall := agree_payment
    (fun r hr => hwhole _ (transfer_of_call hget hinst hr))
    (fun r hr => hsplit _ (transfer_of_call hget' hinst hr))
  refine Agree.bind hcall ?_
  rintro _ ⟨callEnd, split⟩ - - rfl
  exact Agree.ok ⟨rfl, rfl⟩

/-- The outcomes of a transaction over the base and without it: they extend a block's
changesets alike. -/
structure OutcomeOver (m c : Changeset) (b : Processed) (o o' : Outcome) : Prop where
  memory : o.memoryChangeset ∪ (b.memoryChangeset ∪ m) =
    (o'.memoryChangeset ∪ b.memoryChangeset) ∪ m
  storage : o.storageChangeset ∪ (b.storageChangeset ∪ c) =
    (o'.storageChangeset ∪ b.storageChangeset) ∪ c
  result : o.result = o'.result
  trace : o.trace = o'.trace

theorem outcomeOver_ignored (m c : Changeset) (b : Processed) :
    OutcomeOver m c b SystemContracts.ignored SystemContracts.ignored where
  memory := by simp only [SystemContracts.ignored, Finmap.empty_union]
  storage := by simp only [SystemContracts.ignored, Finmap.empty_union]
  result := rfl
  trace := rfl

/-- A committed write adds its key. -/
theorem extends_set_commit (storage : Storage) (key value : Bytes)
    (h : storage.workingChangeset = ∅) :
    Extends (storage.set key value).commit.changeset storage.changeset := by
  intro k hnone
  simp only [Storage.commit, Storage.set, h, lookup_union] at hnone
  exact (Option.or_eq_none_iff.mp hnone).2

theorem Extends.trans {x y z : Changeset} (h : Extends x y) (h' : Extends y z) :
    Extends x z := fun key hnone => h' key (h key hnone)

/-- The transaction that runs the constructor. -/
def constructorTransaction (t : Transaction) (name : String) (arguments : List Value) :
    Transaction where
  function := "constructor"
  arguments := arguments
  sender := t.sender
  nonce := t.nonce
  gasLimit := t.gasLimit
  contractAddress := t.sender ++ utf8 name

theorem runConstructor_eq (fuel : Nat) (t : Transaction) (memory : Memory) (storage : Storage)
    (env : Env) (name : String) (arguments : List Value) :
    SystemContracts.runConstructor P fuel t memory storage env name arguments =
      (constructorTransaction t name arguments).execute P fuel memory storage env >>=
        fun e => .ok {
          memoryChangeset := e.memoryChangeset
          storageChangeset := e.storageChangeset
          result := e.ending.result
          trace := e.trace } := rfl

/-- The constructor, over the base and without it. -/
theorem agree_constructor {fuel : Nat} {t : Transaction} {b : Processed} {storage : Storage}
    {env : Env} {name : String} {arguments : List Value}
    (hon : On q' (Memory.new q'.redis b.memoryChangeset) storage)
    (hworking : storage.workingChangeset = ∅)
    (hextends : Extends storage.changeset b.storageChangeset)
    (hcode : q'.getFromStorage (codeSlot (t.sender ++ utf8 name)) =
      readThrough c (q.getFromStorage (codeSlot (t.sender ++ utf8 name)))
        (codeSlot (t.sender ++ utf8 name)))
    (hwhole : ∀ o, SystemContracts.runConstructor P fuel t
      (Memory.new q.redis (b.memoryChangeset ∪ m)) (storage.over q c) env name arguments =
        .ok o → ReadAlike q q' m c o.trace)
    (hsplit : ∀ o, SystemContracts.runConstructor P fuel t
      (Memory.new q'.redis b.memoryChangeset) storage env name arguments = .ok o →
        ReadAlike q q' m c o.trace) :
    Agree (OutcomeOver m c b)
      (SystemContracts.runConstructor P fuel t
        (Memory.new q.redis (b.memoryChangeset ∪ m)) (storage.over q c) env name arguments)
      (SystemContracts.runConstructor P fuel t (Memory.new q'.redis b.memoryChangeset)
        storage env name arguments) := by
  simp only [runConstructor_eq] at hwhole hsplit ⊢
  refine Agree.bind (agree_execute (Memory.new q'.redis b.memoryChangeset) storage hon hcode
    (fun e he => hwhole _ (except_bind_eq_ok.mpr ⟨e, he, rfl⟩))
    (fun e he => hsplit _ (except_bind_eq_ok.mpr ⟨e, he, rfl⟩))) ?_
  rintro _ e - he rfl
  obtain ⟨hmemory, hstorage⟩ := extends_of_execute he rfl hworking
  exact Agree.ok ⟨union_over hmemory m, union_over (hstorage.trans hextends) c, rfl, rfl⟩

/-- The code is committed over the base as without it. -/
theorem Storage.set_commit_over (q q' : Stores) (c changeset : Changeset) (key value : Bytes) :
    ((Storage.new q.redis q.rocksdb (changeset ∪ c)).set key value).commit =
      ((Storage.new q'.redis q'.rocksdb changeset).set key value).commit.over q c :=
  Storage.commit_over ((Storage.new q'.redis q'.rocksdb changeset).set key value)

/-- A system transaction, over the base and without it. -/
theorem agree_system {fuel : Nat} {t : Transaction} {b : Processed} {env : Env}
    (hsystem : SystemContracts.isSystemContract t = true)
    (hcode : ∀ address, t.target = some address → q'.getFromStorage (codeSlot address) =
      readThrough c (q.getFromStorage (codeSlot address)) (codeSlot address))
    (hwhole : ∀ o, SystemContracts.run P fuel t
      (Memory.new q.redis (b.memoryChangeset ∪ m))
      (Storage.new q.redis q.rocksdb (b.storageChangeset ∪ c)) env = .ok o →
        ReadAlike q q' m c o.trace)
    (hsplit : ∀ o, SystemContracts.run P fuel t (Memory.new q'.redis b.memoryChangeset)
      (Storage.new q'.redis q'.rocksdb b.storageChangeset) env = .ok o →
        ReadAlike q q' m c o.trace) :
    Agree (OutcomeOver m c b)
      (SystemContracts.run P fuel t (Memory.new q.redis (b.memoryChangeset ∪ m))
        (Storage.new q.redis q.rocksdb (b.storageChangeset ∪ c)) env)
      (SystemContracts.run P fuel t (Memory.new q'.redis b.memoryChangeset)
        (Storage.new q'.redis q'.rocksdb b.storageChangeset) env) := by
  unfold SystemContracts.run SystemContracts.createContract at hwhole hsplit ⊢
  unfold Transaction.target at hcode
  rw [if_pos hsystem] at hcode
  split
  · rename_i hfunction
    rw [if_pos hfunction] at hcode hwhole hsplit
    split
    · rename_i name code arguments harguments
      rw [harguments] at hcode
      simp only [harguments] at hwhole hsplit
      dsimp only
      rw [Storage.set_commit_over q q'] at hwhole ⊢
      exact agree_constructor ⟨rfl, rfl, rfl⟩ rfl (extends_set_commit _ _ _ rfl)
        (hcode _ rfl) hwhole hsplit
    · exact Agree.ok (outcomeOver_ignored m c b)
  · exact Agree.ok (outcomeOver_ignored m c b)

/-! ## What a split leaves to be read -/

/-- Writing what has been processed, at a block number, got to the end, and the keys of
the set read back: what was written of them, else as before. -/
structure WritesBack (K : Bytes → Prop) (toList : Changeset → List (Bytes × Bytes))
    (s : Stores) (b : Processed) (blockNumber : Nat) (s' : Stores) : Prop where
  written : s.writeAll toList b blockNumber [.memory, .storage] = (s', true)
  memory : ∀ key, K key →
    s'.getFromMemory key = (b.memoryChangeset.lookup key).or (s.getFromMemory key)
  storage : ∀ key, K key →
    s'.getFromStorage key = (b.storageChangeset.lookup key).or (s.getFromStorage key)

/-- The key is of the set, and if its entry could not be read then it was left alone. -/
structure Legible (K : Bytes → Prop) (persisted : Bytes → Option Bytes)
    (changeset : Changeset) (key : Bytes) : Prop where
  known : K key
  readable : persisted key = none → changeset.lookup key = none

/-- The key is of the set, and if its entry was written then with what it had. -/
structure Untouched (K : Bytes → Prop) (persisted : Bytes → Option Bytes)
    (changeset : Changeset) (key : Bytes) : Prop where
  known : K key
  same : ∀ value, changeset.lookup key = some value → persisted key = some value

/-- The entries that a record has read. -/
structure Reads (memory storage : Bytes → Prop) (trace : List Event) : Prop where
  memory : ∀ key, .getMemory key ∈ trace → memory key
  storage : ∀ key, .getStorage key ∈ trace → storage key

/-- One transaction of the rest, run on the stores `r` and the block `b`, where the first
part `first` was run on the stores `s`.  It reads legible entries, and its gas payment
reads no storage that the first part has changed, the base token's code included. -/
structure TransactionApart (P : Platform) (fuel : Nat) (K : Bytes → Prop) (s : Stores)
    (first : Processed) (r : Stores) (env : Env) (b : Processed) (t : Transaction) :
    Prop where
  code : ∀ address, t.target = some address →
    Legible K s.getFromStorage first.storageChangeset (codeSlot address)
  system : ∀ o, SystemContracts.isSystemContract t = true →
    SystemContracts.run P fuel t (Memory.new r.redis b.memoryChangeset)
        (Storage.new r.redis r.rocksdb b.storageChangeset) env = .ok o →
      Reads (Legible K s.getFromMemory first.memoryChangeset)
        (Legible K s.getFromStorage first.storageChangeset) o.trace
  user : ∀ e, SystemContracts.isSystemContract t = false →
    t.execute P fuel (Memory.new r.redis b.memoryChangeset)
        (Storage.new r.redis r.rocksdb b.storageChangeset) env = .ok e →
      Reads (Legible K s.getFromMemory first.memoryChangeset)
        (Legible K s.getFromStorage first.storageChangeset) e.trace
  token : ∀ e, SystemContracts.isSystemContract t = false →
    t.execute P fuel (Memory.new r.redis b.memoryChangeset)
        (Storage.new r.redis r.rocksdb b.storageChangeset) env = .ok e →
      Untouched K s.getFromStorage first.storageChangeset
        (codeSlot SystemContracts.baseTokenAddress)
  payment : ∀ e gas, SystemContracts.isSystemContract t = false →
    t.execute P fuel (Memory.new r.redis b.memoryChangeset)
        (Storage.new r.redis r.rocksdb b.storageChangeset) env = .ok e →
      gasPayment P fuel r t env e = .ok gas →
        Reads (Legible K s.getFromMemory first.memoryChangeset)
          (Untouched K s.getFromStorage first.storageChangeset) gas.trace

/-- So is every one of the rest, one after the other. -/
def RunApart (P : Platform) (fuel : Nat) (K : Bytes → Prop) (s : Stores) (first : Processed)
    (r : Stores) (env : Env) : Processed → List Transaction → Prop
  | _, [] => True
  | b, t :: rest =>
      TransactionApart P fuel K s first r env b t ∧
      ∀ b', runTransaction P fuel r.redis r.rocksdb env b t = .ok b' →
        RunApart P fuel K s first r env b' rest

section Split

variable {K : Bytes → Prop} {toList : Changeset → List (Bytes × Bytes)} {fuel : Nat}
  {s s₁ : Stores} {first : Processed} {env : Env}

theorem read_of_legible {persisted persisted' : Bytes → Option Bytes} {changeset : Changeset}
    {key : Bytes} (hread : persisted' key = (changeset.lookup key).or (persisted key))
    (h : Legible K persisted changeset key) :
    persisted' key = readThrough changeset (persisted key) key := by
  rw [hread, readThrough]
  cases hpersisted : persisted key with
  | none => rw [h.readable hpersisted]; rfl
  | some value => cases changeset.lookup key <;> rfl

theorem read_of_untouched {persisted persisted' : Bytes → Option Bytes} {changeset : Changeset}
    {key : Bytes} (hread : persisted' key = (changeset.lookup key).or (persisted key))
    (h : Untouched K persisted changeset key) : persisted' key = persisted key := by
  rw [hread]
  cases hlookup : changeset.lookup key with
  | none => rfl
  | some value => exact (h.same value hlookup).symm

/-- Over the changesets of the first part, legible entries are read alike. -/
theorem readAlike_of_legible {n : Nat} {trace : List Event}
    (hw : WritesBack K toList s first n s₁)
    (h : Reads (Legible K s.getFromMemory first.memoryChangeset)
      (Legible K s.getFromStorage first.storageChangeset) trace) :
    ReadAlike s s₁ first.memoryChangeset first.storageChangeset trace :=
  ⟨fun key hkey => read_of_legible (hw.memory key (h.memory key hkey).known)
    (h.memory key hkey),
    fun key hkey => read_of_legible (hw.storage key (h.storage key hkey).known)
      (h.storage key hkey)⟩

/-- Storage that the first part left alone is read alike without its changeset. -/
theorem readAlike_of_untouched {n : Nat} {trace : List Event}
    (hw : WritesBack K toList s first n s₁)
    (h : Reads (Legible K s.getFromMemory first.memoryChangeset)
      (Untouched K s.getFromStorage first.storageChangeset) trace) :
    ReadAlike s s₁ first.memoryChangeset ∅ trace := by
  refine ⟨fun key hkey => read_of_legible (hw.memory key (h.memory key hkey).known)
    (h.memory key hkey), fun key hkey => ?_⟩
  rw [read_of_untouched (hw.storage key (h.storage key hkey).known) (h.storage key hkey)]
  exact Option.map_id'.symm

/-- What has been processed after the first part, with it. -/
def Processed.over (first b : Processed) : Processed where
  memoryChangeset := b.memoryChangeset ∪ first.memoryChangeset
  storageChangeset := b.storageChangeset ∪ first.storageChangeset
  transactions := first.transactions ++ b.transactions
  trace := first.trace ++ b.trace

theorem Processed.over_empty (first : Processed) : first.over .empty = first := by
  unfold Processed.over Processed.empty
  simp only [Finmap.empty_union, List.append_nil]

/-- A user's transaction runs, and then pays. -/
theorem runOutcome_user {t : Transaction} (huser : SystemContracts.isSystemContract t = false)
    (r : Stores) (memoryChangeset storageChangeset : Changeset) :
    runOutcome P fuel r.redis r.rocksdb t env memoryChangeset storageChangeset =
      t.execute P fuel (Memory.new r.redis memoryChangeset)
        (Storage.new r.redis r.rocksdb storageChangeset) env >>= fun e =>
          gasPayment P fuel r t env e >>= fun gas => .ok {
            memoryChangeset := gas.memoryChangeset
            storageChangeset := e.storageChangeset
            result := e.ending.result
            trace := e.trace ++ gas.trace } := by
  unfold runOutcome gasPayment
  rw [if_neg (by rw [huser]; decide)]
  refine congrArg (fun f => Bind.bind _ f) (funext fun e => ?_)
  cases unwrap e.gasLeft with
  | error stop => rfl
  | ok left =>
      show (subU64 P t.gasLimit left >>= _) = (subU64 P t.gasLimit left >>= _) >>= _
      cases subU64 P t.gasLimit left <;> rfl

/-- The payment only adds keys to the memory. -/
theorem extends_of_gasPayment {r : Stores} {t : Transaction} {e : Executed} {gas : Outcome}
    (h : gasPayment P fuel r t env e = .ok gas) :
    Extends gas.memoryChangeset e.memoryChangeset := by
  unfold gasPayment SystemContracts.transfer at h
  obtain ⟨left, _, h⟩ := except_bind_eq_ok.mp h
  obtain ⟨gasUsed, _, h⟩ := except_bind_eq_ok.mp h
  obtain ⟨code, _, h⟩ := except_bind_eq_ok.mp h
  obtain ⟨inst, _, h⟩ := except_bind_eq_ok.mp h
  obtain ⟨⟨callEnd, vm⟩, hcall, h⟩ := except_bind_eq_ok.mp h
  cases h
  exact (extends_of_call hcall rfl rfl).1

/-- The two payments for a transaction that has run. -/
theorem agree_gasPayment {t : Transaction} {e : Executed}
    (hcode : s₁.getFromStorage (codeSlot SystemContracts.baseTokenAddress) =
      s.getFromStorage (codeSlot SystemContracts.baseTokenAddress))
    (hwhole : ∀ gas, gasPayment P fuel s t env (e.over m c) = .ok gas →
      ReadAlike s s₁ m ∅ gas.trace)
    (hsplit : ∀ gas, gasPayment P fuel s₁ t env e = .ok gas → ReadAlike s s₁ m ∅ gas.trace) :
    Agree (fun o o' => o.memoryChangeset = o'.memoryChangeset ∪ m ∧ o.trace = o'.trace)
      (gasPayment P fuel s t env (e.over m c)) (gasPayment P fuel s₁ t env e) := by
  unfold gasPayment at hwhole hsplit ⊢
  refine Agree.bind (Agree.of_eq rfl) ?_
  rintro left _ hleft - rfl
  refine Agree.bind (Agree.of_eq rfl) ?_
  rintro gasUsed _ hused - rfl
  exact agree_transfer hcode
    (fun o ho => hwhole o (except_bind_eq_ok.mpr ⟨left, hleft,
      except_bind_eq_ok.mpr ⟨gasUsed, hused, ho⟩⟩))
    (fun o ho => hsplit o (except_bind_eq_ok.mpr ⟨left, hleft,
      except_bind_eq_ok.mpr ⟨gasUsed, hused, ho⟩⟩))

/-- One transaction, with and without the split. -/
theorem agree_outcome {n : Nat} (hw : WritesBack K toList s first n s₁) {b : Processed}
    {t : Transaction} (hwhole : TransactionApart P fuel K s first s env (first.over b) t)
    (hsplit : TransactionApart P fuel K s first s₁ env b t) :
    Agree (OutcomeOver first.memoryChangeset first.storageChangeset b)
      (runOutcome P fuel s.redis s.rocksdb t env (first.over b).memoryChangeset
        (first.over b).storageChangeset)
      (runOutcome P fuel s₁.redis s₁.rocksdb t env b.memoryChangeset b.storageChangeset) := by
  have hcode : ∀ address, t.target = some address → s₁.getFromStorage (codeSlot address) =
      readThrough first.storageChangeset (s.getFromStorage (codeSlot address))
        (codeSlot address) := fun address htarget =>
    read_of_legible (hw.storage _ (hwhole.code address htarget).known)
      (hwhole.code address htarget)
  cases hsystem : SystemContracts.isSystemContract t with
  | true =>
      unfold runOutcome
      rw [if_pos hsystem, if_pos hsystem]
      exact agree_system hsystem hcode
        (fun o ho => readAlike_of_legible hw (hwhole.system o hsystem ho))
        (fun o ho => readAlike_of_legible hw (hsplit.system o hsystem ho))
  | false =>
      rw [runOutcome_user hsystem, runOutcome_user hsystem]
      have htarget : t.target = some t.contractAddress :=
        if_neg (by rw [hsystem]; decide)
      refine Agree.bind (agree_execute (Memory.new s₁.redis b.memoryChangeset)
        (Storage.new s₁.redis s₁.rocksdb b.storageChangeset) ⟨rfl, rfl, rfl⟩ (hcode _ htarget)
        (fun e he => readAlike_of_legible hw (hwhole.user e hsystem he))
        (fun e he => readAlike_of_legible hw (hsplit.user e hsystem he))) ?_
      rintro _ e he he' rfl
      have htoken := hsplit.token e hsystem he'
      refine Agree.bind (agree_gasPayment
        (read_of_untouched (hw.storage _ htoken.known) htoken)
        (fun gas hgas => readAlike_of_untouched hw (hwhole.payment _ gas hsystem he hgas))
        (fun gas hgas => readAlike_of_untouched hw (hsplit.payment _ gas hsystem he' hgas))) ?_
      rintro gas gas' - hgas' ⟨hmemory, htrace⟩
      obtain ⟨hextends, hextends'⟩ := extends_of_execute he' rfl rfl
      refine Agree.ok ⟨?_, union_over hextends' _, rfl, congrArg (e.trace ++ ·) htrace⟩
      rw [hmemory]
      exact union_over ((extends_of_gasPayment hgas').trans hextends) _

theorem agree_runTransaction {n : Nat} (hw : WritesBack K toList s first n s₁)
    {b : Processed} {t : Transaction}
    (hwhole : TransactionApart P fuel K s first s env (first.over b) t)
    (hsplit : TransactionApart P fuel K s first s₁ env b t) :
    Agree (fun whole rest => whole = first.over rest)
      (runTransaction P fuel s.redis s.rocksdb env (first.over b) t)
      (runTransaction P fuel s₁.redis s₁.rocksdb env b t) := by
  refine Agree.bind (agree_outcome hw hwhole hsplit) ?_
  rintro o o' - - ⟨hmemory, hstorage, hresult, htrace⟩
  refine Agree.ok ?_
  simp only [Processed.over, hmemory, hstorage, hresult, htrace, List.append_assoc]

/-- The rest of a block, with and without the split.  The induction is on the
transactions; the invariant is that the block is the rest over the first part. -/
theorem agree_run {n : Nat} (hw : WritesBack K toList s first n s₁) (ts : List Transaction)
    (b : Processed) (hwhole : RunApart P fuel K s first s env (first.over b) ts)
    (hsplit : RunApart P fuel K s first s₁ env b ts) :
    Agree (fun whole rest => whole = first.over rest)
      (ts.foldlM (runTransaction P fuel s.redis s.rocksdb env) (first.over b))
      (ts.foldlM (runTransaction P fuel s₁.redis s₁.rocksdb env) b) := by
  induction ts generalizing b with
  | nil => exact Agree.ok rfl
  | cons t rest ih =>
      rw [List.foldlM_cons, List.foldlM_cons]
      refine Agree.bind (agree_runTransaction hw hwhole.1 hsplit.1) ?_
      rintro _ b' hfirst hfirst' rfl
      exact ih b' (hwhole.2 _ hfirst) (hsplit.2 _ hfirst')

/-- Writing the two parts one over the other leaves what writing both at once does. -/
theorem read_of_over {n : Nat} {rest : Processed} {s' s₂ : Stores}
    (hw : WritesBack K toList s first n s₁)
    (hwhole : WritesBack K toList s (first.over rest) n s')
    (hrest : WritesBack K toList s₁ rest n s₂) {key : Bytes} (hkey : K key) :
    s'.getFromMemory key = s₂.getFromMemory key ∧
      s'.getFromStorage key = s₂.getFromStorage key := by
  constructor
  · rw [hwhole.memory key hkey, hrest.memory key hkey, hw.memory key hkey,
      ← Option.or_assoc, ← lookup_union]
    rfl
  · rw [hwhole.storage key hkey, hrest.storage key hkey, hw.storage key hkey,
      ← Option.or_assoc, ← lookup_union]
    rfl

/-! ## Splitting a block -/

/-- Processing the whole list and writing it has the effect of processing and writing
the two parts, one after the other: each of the two ways comes to an end if the other
does, completes the same transactions, and leaves the same to be read. -/
def SplitsAlike (P : Platform) (fuel : Nat) (K : Bytes → Prop)
    (toList : Changeset → List (Bytes × Bytes)) (s : Stores) (env : Env)
    (ts us : List Transaction) : Prop :=
  (∀ whole, processTransactions P fuel s.redis s.rocksdb env (ts ++ us) = .ok whole →
    ∃ first, processTransactions P fuel s.redis s.rocksdb env ts = .ok first) ∧
  ∀ first s₁, processTransactions P fuel s.redis s.rocksdb env ts = .ok first →
    WritesBack K toList s first env.blockNumber s₁ →
      Agree
        (fun whole rest =>
          whole.transactions = first.transactions ++ rest.transactions ∧
          ∀ s' s₂, WritesBack K toList s whole env.blockNumber s' →
            WritesBack K toList s₁ rest env.blockNumber s₂ →
              ∀ key, K key → s'.getFromMemory key = s₂.getFromMemory key ∧
                s'.getFromStorage key = s₂.getFromStorage key)
        (processTransactions P fuel s.redis s.rocksdb env (ts ++ us))
        (processTransactions P fuel s₁.redis s₁.rocksdb env us)

/-- **When a split does not change the effect of a block.**  It is enough that the
second part, run either way, reads no entry that the first part wrote over one that
could not be read, and that its gas payments read no storage entry that the first part
has changed, the base token's code among them. -/
theorem splits_alike {ts us : List Transaction}
    (h : ∀ first s₁, processTransactions P fuel s.redis s.rocksdb env ts = .ok first →
      WritesBack K toList s first env.blockNumber s₁ →
        RunApart P fuel K s first s env first us ∧
        RunApart P fuel K s first s₁ env .empty us) :
    SplitsAlike P fuel K toList s env ts us := by
  constructor
  · intro whole hwhole
    unfold processTransactions at hwhole
    rw [List.foldlM_append] at hwhole
    obtain ⟨first, hfirst, _⟩ := except_bind_eq_ok.mp hwhole
    exact ⟨first, hfirst⟩
  intro first s₁ hfirst hw
  obtain ⟨hwhole, hsplit⟩ := h first s₁ hfirst hw
  have hstart := Processed.over_empty first
  have hrest := agree_run hw us .empty (by rw [hstart]; exact hwhole) hsplit
  rw [hstart] at hrest
  have hprocess : processTransactions P fuel s.redis s.rocksdb env (ts ++ us) =
      us.foldlM (runTransaction P fuel s.redis s.rocksdb env) first := by
    unfold processTransactions at hfirst ⊢
    rw [List.foldlM_append, hfirst]
    rfl
  rw [hprocess]
  constructor
  · intro whole hrun
    obtain ⟨rest, hrun', rfl⟩ := hrest.1 whole hrun
    exact ⟨rest, hrun', rfl, fun _ _ hwrite hwrite' _ => read_of_over hw hwrite hwrite'⟩
  · intro rest hrun
    obtain ⟨whole, hrun', rfl⟩ := hrest.2 rest hrun
    exact ⟨_, hrun', rfl, fun _ _ hwrite hwrite' _ => read_of_over hw hwrite hwrite'⟩

end Split

/-! ## A base token deployed on the way -/

theorem getLatest_congr {r r' : Redis} {kind : StateType} {key : Bytes}
    (h : r'.list (blockIndexKey kind key) = r.list (blockIndexKey kind key)) :
    getLatest r' kind key = getLatest r kind key := by
  unfold getLatest Redis.lrange
  rw [h]

/-- A key of the storage that was written before reads back, and the others as they
did. -/
theorem reads_of_storageSet {s : Stores} {key : Bytes} {items : List Item}
    {fields : Finmap fun _ : Item => Item} {n : Nat} (value : Bytes) (hn : n < 2 ^ 64)
    (hlist : s.redis.list (blockIndexKey .storage key) = .ok items)
    (hindex : s.redis.lookup (indexKey .storage key) = some (.hash fields)) :
    ∃ s', s.storageSet n key value = .ok s' ∧
      (∀ k, s'.getFromMemory k = s.getFromMemory k) ∧
      s'.getFromStorage key = some value ∧
      ∀ k, k ≠ key → s'.getFromStorage k = s.getFromStorage k := by
  obtain ⟨r, hadd, hlist', -, hhash, hframe⟩ := add_of_list n hlist
  obtain ⟨fields', hindex'⟩ := hhash fields (Redis.hash_of_lookup hindex)
  have hmemory : ∀ k, r.lookup (blockIndexKey .memory k) =
      s.redis.lookup (blockIndexKey .memory k) := fun k =>
    hframe _ (fun h => by cases (blockIndexKey_inj h).1) fun h => by
      cases (blockIndexKey_inj (h.trans (indexKey_eq _ _))).1
  refine ⟨{ redis := r, rocksdb := s.rocksdb.insert (hashKey n key) value }, ?_, fun k => ?_,
    ?_, fun k hk => ?_⟩
  · simp [Stores.storageSet, hadd, bind, Except.bind, pure, Except.pure]
  · have htable := hframe _ (IsTable.ne (.inl rfl) .storage key).1
      (IsTable.ne (.inl rfl) .storage key).2
    simp only [Stores.getFromMemory, Memory.getFromMemory, Memory.new, Redis.hget,
      getLatest_congr (Redis.list_congr (hmemory k)), Redis.hash_congr htable]
  · have hlatest : getLatest r .storage key = some n :=
      (getLatest_of_cons hlist').trans (congrArg some (if_pos hn))
    simp [Stores.getFromStorage, Storage.getFromStorage, Storage.new, hlatest]
  · have hlatest : getLatest r .storage k = getLatest s.redis .storage k := by
      refine getLatest_congr ?_
      by_cases hclash : blockIndexKey .storage k = indexKey .storage key
      · rw [hclash, Redis.list_of_hash hindex, Redis.list_of_hash hindex']
      · exact Redis.list_congr (hframe _ (fun h => hk (blockIndexKey_inj h).2) hclash)
    have hrocksdb : ∀ m, (s.rocksdb.insert (hashKey n key) value).lookup (hashKey m k) =
        s.rocksdb.lookup (hashKey m k) := fun m =>
      Finmap.lookup_insert_of_ne _ fun h => hk (hashKey_eq_iff.mp h).1
    simp only [Stores.getFromStorage, Storage.getFromStorage, Storage.new, hlatest, hrocksdb]

namespace Script

/-- A base token whose constructor and transfers do nothing. -/
def idleToken : Contract where
  exports :=
    [ ("__malloc", [.answer 20])
    , ("constructor", [.answer 10])
    , ("transfer", [.answer 10]) ]
  memory := List.replicate 10 0 ++ slot [0, 0, 0, 0, 0xf6] ++ List.replicate 81 0

def tokenPlatform : Platform := platform [([1], idleToken)]

/-- The slot of the base token's code. -/
def tokenSlot : Bytes := codeSlot SystemContracts.baseTokenAddress

/-- The transaction that deploys the base token. -/
def deployToken : Transaction where
  contractAddress := List.replicate 32 0 ++ utf8 "system"
  sender := List.replicate 32 0
  nonce := 1
  gasLimit := 1000
  function := "create_contract"
  arguments := [.text "BaseToken", .bytes [1], .array []]

/-- A transaction whose contract has no code. -/
def callNobody : Transaction where
  contractAddress := [5]
  sender := [9]
  nonce := 1
  gasLimit := 1000
  function := "f"
  arguments := []

/-- The entries of some keys, as the pairs that are written. -/
def entriesOf (keys : List Bytes) (changeset : Changeset) : List (Bytes × Bytes) :=
  keys.filterMap fun key => (changeset.lookup key).map fun value => (key, value)

/-- Stores in which the base token's code was written once, with nothing. -/
def codeless : Stores where
  redis := ((∅ : Redis).insert (blockIndexKey .storage tokenSlot) (.list [.int 0])).insert
    (indexKey .storage tokenSlot) (.hash ∅)
  rocksdb := ∅

def secondBlock : Env := { firstBlock with blockNumber := 1 }

/-- A base token in the stores, and a contract to deploy. -/
def keeperTokenPlatform : Platform := platform [([1], idleToken), ([2], constantKeeper)]

/-- Stores that have the base token's code. -/
def tokenStores : Stores where
  redis := ∅
  rocksdb := Finmap.singleton (hashKey 0 tokenSlot) [1]

end Script

open Script in
/-- The first transaction deploys the base token, the second pays for its gas: that
aborts the processor, but not if the first was written before. -/
theorem payment_misses_deployed_token :
    ¬ ∀ (P : Platform) (fuel : Nat) (toList : Changeset → List (Bytes × Bytes)) (s : Stores)
      (env : Env) (ts us : List Transaction),
      SplitsAlike P fuel (fun _ => True) toList s env ts us := by
  intro h
  have hprocess : (processTransactions tokenPlatform 20 codeless.redis codeless.rocksdb
      secondBlock [deployToken]).toOption.map (fun b =>
        (b.memoryChangeset, b.storageChangeset)) =
      some (∅, Finmap.singleton tokenSlot [1]) := by rfl
  obtain ⟨first, hfirst, hchangesets⟩ := exists_ok_of_map hprocess
  obtain ⟨hmemory, hstorage⟩ := Prod.mk.inj hchangesets
  have hlist : codeless.redis.list (blockIndexKey .storage tokenSlot) = .ok [.int 0] := by rfl
  have hindex : codeless.redis.lookup (indexKey .storage tokenSlot) = some (.hash ∅) := by rfl
  have hbound : 1 < 2 ^ 64 := by decide
  obtain ⟨s₁, hset, hmemory₁, hself, hother⟩ := reads_of_storageSet [1] hbound hlist hindex
  have hw : WritesBack (fun _ => True) (entriesOf [tokenSlot]) codeless first 1 s₁ := by
    refine ⟨?_, fun key _ => ?_, fun key _ => ?_⟩
    · have hwritten : codeless.setTo .storage 1 tokenSlot [1] = (s₁, true) := set_eq_ok.mp hset
      simp [Stores.writeAll, Processed.changeset, hmemory, hstorage, entriesOf,
        Stores.writeEach, hwritten]
    · rw [hmemory, hmemory₁]
      rfl
    · rw [hstorage]
      by_cases hkey : key = tokenSlot
      · rw [hkey, hself, Finmap.lookup_singleton_eq]
        rfl
      · rw [hother key hkey, Finmap.lookup_eq_none.mpr (by simpa using hkey)]
        rfl
  have hrest : (codeless.storageSet 1 tokenSlot [1]).toOption.map (fun s =>
      (processTransactions tokenPlatform 20 s.redis s.rocksdb secondBlock
        [callNobody]).toOption.isSome) = some true := by rfl
  obtain ⟨s, hs, hsome⟩ := exists_ok_of_map hrest
  cases Except.ok.inj (hset.symm.trans hs)
  cases hrun : processTransactions tokenPlatform 20 s₁.redis s₁.rocksdb secondBlock
      [callNobody] with
  | error stop =>
      rw [hrun] at hsome
      cases hsome
  | ok rest =>
      have hwhole : processTransactions tokenPlatform 20 codeless.redis codeless.rocksdb
          secondBlock ([deployToken] ++ [callNobody]) = .error .panic := by rfl
      obtain ⟨whole, hok, _⟩ := ((h _ _ _ _ _ _ _).2 first s₁ hfirst hw).2 rest hrun
      cases hwhole.symm.trans hok

namespace Script

/-- The slots that the second transaction reads, and one that the first writes. -/
def readSlots : List Bytes := [codeSlot [5], tokenSlot, keptKey]

/-- A contract without code runs nothing, and its caller's payment reads nothing but the
base token's code. -/
theorem apart_callNobody {first b : Processed} {r : Stores}
    (hnobody : first.storageChangeset.lookup (codeSlot [5]) = none)
    (htoken : first.storageChangeset.lookup tokenSlot = none)
    (hcode : (Storage.new r.redis r.rocksdb b.storageChangeset).get (codeSlot [5]) = some [])
    (hpaid : (Storage.new r.redis r.rocksdb ∅).get tokenSlot = some [1]) :
    TransactionApart keeperTokenPlatform 20 (· ∈ readSlots) tokenStores first r secondBlock b
      callNobody := by
  have hexecute : callNobody.execute keeperTokenPlatform 20
      (Memory.new r.redis b.memoryChangeset)
      (Storage.new r.redis r.rocksdb b.storageChangeset) secondBlock = .ok {
        memoryChangeset := b.memoryChangeset
        storageChangeset := b.storageChangeset
        ending := .contractNotFound
        gasLeft := some 1000
        trace := [] } :=
    except_bind_eq_ok.mpr ⟨[], congrArg unwrap hcode, rfl⟩
  refine ⟨?_, fun o hsystem _ => ?_, fun e _ he => ?_, fun e _ he => ?_,
    fun e gas _ he hgas => ?_⟩
  · intro address htarget
    cases Option.some.inj ((show callNobody.target = some [5] by rfl).symm.trans htarget)
    exact ⟨by simp [readSlots], fun _ => hnobody⟩
  · exact absurd hsystem (by decide)
  · cases Except.ok.inj (hexecute.symm.trans he)
    exact ⟨nofun, nofun⟩
  · refine ⟨by simp [readSlots, tokenSlot], fun value hvalue => ?_⟩
    cases htoken.symm.trans hvalue
  · cases Except.ok.inj (hexecute.symm.trans he)
    obtain ⟨left, hleft, hgas⟩ := except_bind_eq_ok.mp hgas
    cases hleft
    obtain ⟨used, hused, hgas⟩ := except_bind_eq_ok.mp hgas
    have hsub : subU64 keeperTokenPlatform 1000 1000 = .ok 0 := if_pos le_rfl
    cases Except.ok.inj (hsub.symm.trans hused)
    obtain ⟨code, hget, hgas⟩ := except_bind_eq_ok.mp hgas
    cases Except.ok.inj ((congrArg unwrap hpaid).symm.trans hget)
    obtain ⟨inst, hinst, hgas⟩ := except_bind_eq_ok.mp hgas
    cases hinst
    obtain ⟨⟨callEnd, vm⟩, hcall, hgas⟩ := except_bind_eq_ok.mp hgas
    cases hgas
    have hrun := congrArg (fun r => (Except.toOption r).map fun r => r.2.trace) hcall
    have htrace : vm.trace = [.commit] :=
      (Option.some.inj (show some [.commit] = some vm.trace from hrun)).symm
    rw [htrace]
    exact ⟨fun key hkey => by simp at hkey, fun key hkey => by simp at hkey⟩

end Script

open Script in
/-- A deployment, and then a transaction whose contract has no code. -/
theorem splits_alike_at_deployment :
    SplitsAlike keeperTokenPlatform 20 (· ∈ readSlots) (entriesOf readSlots) tokenStores
      secondBlock [deploy [2]] [callNobody] := by
  refine splits_alike fun first s₁ hfirst hw => ?_
  have hprocess : (processTransactions keeperTokenPlatform 20 tokenStores.redis
      tokenStores.rocksdb secondBlock [deploy [2]]).toOption.map (fun b =>
        (b.storageChangeset.lookup (codeSlot [5]), b.storageChangeset.lookup tokenSlot)) =
      some (none, none) := by rfl
  obtain ⟨first', hfirst', hlookup⟩ := exists_ok_of_map hprocess
  cases Except.ok.inj (hfirst.symm.trans hfirst')
  obtain ⟨hnobody, htoken⟩ := Prod.mk.inj hlookup
  have hpersisted : tokenStores.getFromStorage (codeSlot [5]) = some [] := by rfl
  have hpaid : tokenStores.getFromStorage tokenSlot = some [1] := by rfl
  have hpersisted₁ := hw.storage (codeSlot [5]) (by simp [readSlots])
  have hpaid₁ := hw.storage tokenSlot (by simp [readSlots])
  rw [hnobody, hpersisted] at hpersisted₁
  rw [htoken, hpaid] at hpaid₁
  refine ⟨⟨apart_callNobody hnobody htoken ?_ ?_, fun _ _ => trivial⟩,
    ⟨apart_callNobody hnobody htoken ?_ ?_, fun _ _ => trivial⟩⟩
  · exact readThrough_eq_some_iff.mpr ⟨[], hpersisted, congrArg (Option.getD · []) hnobody⟩
  · exact readThrough_eq_some_iff.mpr ⟨[1], hpaid, rfl⟩
  · exact readThrough_eq_some_iff.mpr ⟨[], hpersisted₁, rfl⟩
  · exact readThrough_eq_some_iff.mpr ⟨[1], hpaid₁, rfl⟩

end Ellipticoind.Ports
