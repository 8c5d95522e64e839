import Ellipticoind.Ports.Processor

/-!
# Slots of different contracts

A contract's keys begin with its address, padded with zero bytes to 64; its code
is kept under the padded address itself.  Whatever a frame writes lies in its
own contract's slots, so the slots of a contract change only when a contract
runs whose slots meet them.

Two contracts' slots meet where one padded address begins the other.  Padding
does not tell a name from the same name with zero bytes after it, and it leaves
a name of more than 32 bytes as it is.

## Main results

* `writes_in_namespaces` — what one transaction changes begins with the padded address of
  a contract that had a frame.
* `processTransactions_keeps` — what a batch of transactions leaves alone.
* `isolated_iff` — when two contracts are isolated from each other.
-/

namespace Ellipticoind.Ports

open Ellipticoind.Verified.Overlay
open Ellipticoind.Verified.StateRun

variable {P : Platform}

/-! ## Slots -/

/-- The slot of a contract's code. -/
def codeSlot (address : Bytes) : Bytes := rightPadVec address 64 0

/-- The slot of a contract's key: `namespaced_key`. -/
def slot (address key : Bytes) : Bytes := codeSlot address ++ key

theorem namespacedKey_eq (vm : VM P) (key : Bytes) :
    vm.namespacedKey key = slot vm.transaction.contractAddress key := rfl

/-- The key is no slot of a contract of the set. -/
def Outside (contracts : Bytes → Prop) (key : Bytes) : Prop :=
  ∀ address, contracts address → ∀ k, key ≠ slot address k

/-! ## What a frame writes -/

/-- What an entry writes is a slot of a contract of the set. -/
def Event.writesIn (contracts : Bytes → Prop) : Event → Prop
  | .setMemory key _ => ∃ address k, contracts address ∧ key = slot address k
  | .setStorage key _ => ∃ address k, contracts address ∧ key = slot address k
  | _ => True

/-- If the frame's contract and those it calls are of the set, so is all that is
written from the one state to the other. -/
def WritesIn (contracts : Bytes → Prop) (vm vm' : VM P) : Prop :=
  vm'.transaction = vm.transaction ∧ ∃ events, vm'.trace = vm.trace ++ events ∧
    (contracts vm.transaction.contractAddress → (∀ c, .called c ∈ events → contracts c) →
      ∀ event ∈ events, event.writesIn contracts)

/-- One entry. -/
private theorem writesIn_single {contracts : Bytes → Prop} {vm vm' : VM P} (event : Event)
    (htransaction : vm'.transaction = vm.transaction)
    (htrace : vm'.trace = vm.trace ++ [event])
    (hwrites : contracts vm.transaction.contractAddress → event.writesIn contracts) :
    WritesIn contracts vm vm' := by
  refine ⟨htransaction, [event], htrace, fun hcontract _ e he => ?_⟩
  rw [List.mem_singleton.mp he]
  exact hwrites hcontract

theorem frameRelation_writesIn (contracts : Bytes → Prop) :
    FrameRelation (WritesIn (P := P) contracts) where
  refl vm := ⟨rfl, [], (List.append_nil _).symm, fun _ _ _ he => (nomatch he)⟩
  trans := by
    rintro a b c ⟨htransaction, xs, htrace, hwrites⟩ ⟨htransaction', ys, htrace', hwrites'⟩
    refine ⟨htransaction'.trans htransaction, xs ++ ys, ?_, fun hcontract hcalled => ?_⟩
    · rw [htrace', htrace, List.append_assoc]
    · rw [htransaction] at hwrites'
      refine List.forall_mem_append.mpr ⟨hwrites hcontract fun c hc => ?_,
        hwrites' hcontract fun c hc => ?_⟩
      · exact hcalled c (List.mem_append_left _ hc)
      · exact hcalled c (List.mem_append_right _ hc)
  useGas vm gas amount _ _ := ⟨rfl, [], (List.append_nil _).symm, fun _ _ _ he => (nomatch he)⟩
  moduleInstance vm inst := ⟨rfl, [], (List.append_nil _).symm, fun _ _ _ he => (nomatch he)⟩
  host vm index := writesIn_single (.host index) rfl rfl fun _ => trivial
  memoryGet vm key := writesIn_single (.getMemory key) rfl rfl fun _ => trivial
  storageGet vm key := writesIn_single (.getStorage key) rfl rfl fun _ => trivial
  memorySet vm key value :=
    writesIn_single (.setMemory _ value) rfl rfl fun h => ⟨_, key, h, namespacedKey_eq vm key⟩
  storageSet vm key value :=
    writesIn_single (.setStorage _ value) rfl rfl fun h => ⟨_, key, h, namespacedKey_eq vm key⟩
  commit vm := writesIn_single .commit rfl rfl fun _ => trivial
  rollback vm := writesIn_single .rollback rfl rfl fun _ => trivial
  nested := by
    rintro vm inst address name callee callEnd ⟨_, events, htrace, hwrites⟩
    refine ⟨rfl, .called address :: (events ++ [.frameEnd callEnd]), ?_, fun _ hcalled => ?_⟩
    · show callee.trace ++ [.frameEnd callEnd] = _
      rw [htrace]
      simp [VM.calleeFrame]
    · obtain ⟨haddress, hevents⟩ : contracts address ∧ ∀ c, .called c ∈ events → contracts c :=
        ⟨hcalled address (by simp), fun c hc => hcalled c (by simp [hc])⟩
      refine List.forall_mem_cons.mpr ⟨trivial, List.forall_mem_append.mpr
        ⟨hwrites haddress hevents, fun event he => ?_⟩⟩
      rw [List.mem_singleton.mp he]
      trivial

theorem ne_of_writesIn {contracts : Bytes → Prop} {key key' : Bytes}
    (hkey : Outside contracts key)
    (hwrites : ∃ address k, contracts address ∧ key' = slot address k) : key' ≠ key := by
  obtain ⟨address, k, hcontract, rfl⟩ := hwrites
  exact (hkey address hcontract k).symm

/-- Entries that write slots of the set make no write to another key
permanent. -/
theorem committedWrite_outside {contracts : Bytes → Prop} {events : List Event}
    (hwrites : ∀ event ∈ events, event.writesIn contracts) {key : Bytes}
    (hkey : Outside contracts key) :
    committedWrite (memoryOps events) key = none ∧
      committedWrite (storageOps events) key = none := by
  constructor <;> refine lastWrite_eq_none fun op hop => ?_ <;>
    obtain ⟨event, hevent, hvalue⟩ := List.mem_filterMap.mp hop <;>
    have hin := hwrites event hevent <;> cases event <;> cases hvalue
  · exact if_neg (ne_of_writesIn hkey hin)
  · rfl
  · rfl
  · exact if_neg (ne_of_writesIn hkey hin)
  · rfl
  · rfl

/-- A call in a fresh frame leaves the keys outside of the contracts that run
alone. -/
theorem call_keeps {contracts : Bytes → Prop} {fuel : Nat} {func : String}
    {arguments : List Value} {vm vm' : VM P} {callEnd : CallEnd}
    (hcall : VM.call (invoke P fuel []) func arguments vm = .ok (callEnd, vm'))
    (htrace : vm.trace = []) (hmemory : vm.memory.workingChangeset = ∅)
    (hstorage : vm.storage.workingChangeset = ∅)
    (hcontract : contracts vm.transaction.contractAddress)
    (hcalled : ∀ c, .called c ∈ vm'.trace → contracts c) {key : Bytes}
    (hkey : Outside contracts key) :
    vm'.memory.changeset.lookup key = vm.memory.changeset.lookup key ∧
      vm'.storage.changeset.lookup key = vm.storage.changeset.lookup key := by
  have hrelation := frameRelation_writesIn (P := P) contracts
  obtain ⟨_, events, hevents, hwrites⟩ := hrelation.guarantee_call
    (hrelation.guarantee_invoke fuel []) func arguments _ _ _ hcall
  obtain ⟨events', hevents', hmemory', hstorage'⟩ := journaled_call fuel _ _ _ _ _ _ hcall
  cases List.append_cancel_left (hevents.symm.trans hevents')
  rw [htrace, List.nil_append] at hevents
  rw [hevents] at hcalled
  obtain ⟨hm, hs⟩ := committedWrite_outside (hwrites hcontract hcalled) hkey
  constructor
  · have hrun := congrArg (fun m => (Memory.layers m).committed.lookup key) hmemory'
    simp only [Memory.layers_run] at hrun
    rwa [lookup_committed_run hmemory, hm, Option.none_or] at hrun
  · have hrun := congrArg (fun s => (Storage.layers s).committed.lookup key) hstorage'
    simp only [Storage.layers_run] at hrun
    rwa [lookup_committed_run hstorage, hs, Option.none_or] at hrun

/-! ## Transactions -/

/-- The contract a transaction runs, if it runs one: the one it names, or the one
it deploys. -/
def Transaction.target (t : Transaction) : Option Bytes :=
  if SystemContracts.isSystemContract t then
    if t.function = "create_contract" then
      match t.arguments with
      | [.text contractName, .bytes _, .array _] => some (t.sender ++ utf8 contractName)
      | _ => none
    else none
  else some t.contractAddress

/-- A transaction's own run leaves the keys outside of its contracts alone. -/
theorem execute_keeps {contracts : Bytes → Prop} {fuel : Nat} {t : Transaction}
    {memory : Memory} {storage : Storage} {env : Env} {e : Executed}
    (h : t.execute P fuel memory storage env = .ok e)
    (hmemory : memory.workingChangeset = ∅) (hstorage : storage.workingChangeset = ∅)
    (hcontract : contracts t.contractAddress)
    (hcalled : ∀ c, .called c ∈ e.trace → contracts c) {key : Bytes}
    (hkey : Outside contracts key) :
    e.memoryChangeset.lookup key = memory.changeset.lookup key ∧
      e.storageChangeset.lookup key = storage.changeset.lookup key := by
  unfold Transaction.execute at h
  obtain ⟨code, _, h⟩ := except_bind_eq_ok.mp h
  split at h
  · cases h
    exact ⟨rfl, rfl⟩
  · obtain ⟨inst, _, h⟩ := except_bind_eq_ok.mp h
    obtain ⟨⟨callEnd, vm⟩, hcall, h⟩ := except_bind_eq_ok.mp h
    cases h
    exact call_keeps hcall rfl hmemory hstorage hcontract hcalled hkey

/-- The contract has a frame in the call tree of the transaction's run. -/
def Transaction.HasFrame (t : Transaction) (e : Executed) (address : Bytes) : Prop :=
  ((∃ callEnd, e.ending = .called callEnd) ∧ address = t.contractAddress) ∨
    .called address ∈ e.trace

theorem outside_iff {contracts : Bytes → Prop} {key : Bytes} :
    Outside contracts key ↔ ∀ address, contracts address → ¬ codeSlot address <+: key := by
  constructor
  · rintro h address haddress ⟨k, hk⟩
    exact h address haddress k hk.symm
  · rintro h address haddress k rfl
    exact h address haddress ⟨k, rfl⟩

/-- A run leaves every key alone that begins with no padded address of a contract that had
a frame in it. -/
theorem execute_keeps_outside {fuel : Nat} {t : Transaction} {redis : Redis}
    {rocksdb : RocksDB} {memoryChangeset storageChangeset : Changeset} {env : Env}
    {e : Executed}
    (h : t.execute P fuel (Memory.new redis memoryChangeset)
      (Storage.new redis rocksdb storageChangeset) env = .ok e) {key : Bytes}
    (hkey : ∀ address, t.HasFrame e address → ¬ codeSlot address <+: key) :
    e.memoryChangeset.lookup key = memoryChangeset.lookup key ∧
      e.storageChangeset.lookup key = storageChangeset.lookup key := by
  cases hend : e.ending with
  | contractNotFound =>
      obtain ⟨hm, hs, _⟩ := Transaction.execute_notFound h hend
      rw [hm, hs]
      exact ⟨rfl, rfl⟩
  | called callEnd =>
      have hcontract : t.HasFrame e t.contractAddress := .inl ⟨⟨callEnd, hend⟩, rfl⟩
      exact execute_keeps h rfl rfl hcontract (fun c hc => .inr hc) (outside_iff.mpr hkey)

/-- **Writes stay in the namespaces of the contracts called.**  Whatever frames of the call
tree commit, trap or are rolled back, a key whose entry in one of the changesets has changed
begins with the padded address of a contract that had a frame, and every other key keeps its
entry in both. -/
theorem writes_in_namespaces {fuel : Nat} {t : Transaction} {redis : Redis}
    {rocksdb : RocksDB} {memoryChangeset storageChangeset : Changeset} {env : Env}
    {e : Executed}
    (h : t.execute P fuel (Memory.new redis memoryChangeset)
      (Storage.new redis rocksdb storageChangeset) env = .ok e) :
    t.run P fuel (Memory.new redis memoryChangeset)
        (Storage.new redis rocksdb storageChangeset) env =
      .ok (e.memoryChangeset, e.storageChangeset, e.ending.result, e.gasLeft) ∧
    (∀ key, e.memoryChangeset.lookup key ≠ memoryChangeset.lookup key ∨
        e.storageChangeset.lookup key ≠ storageChangeset.lookup key →
      ∃ address, t.HasFrame e address ∧ rightPadVec address 64 0 <+: key) ∧
    ∀ key, (∀ address, t.HasFrame e address → ¬ rightPadVec address 64 0 <+: key) →
      e.memoryChangeset.lookup key = memoryChangeset.lookup key ∧
        e.storageChangeset.lookup key = storageChangeset.lookup key := by
  refine ⟨congrArg (Except.map _) h, fun key hchanged => ?_, fun key hkey => ?_⟩
  · by_contra hnone
    have houtside : ∀ address, t.HasFrame e address → ¬ codeSlot address <+: key :=
      fun address hframe hslot => hnone ⟨address, hframe, hslot⟩
    obtain ⟨hm, hs⟩ := execute_keeps_outside h houtside
    exact hchanged.elim (absurd hm) (absurd hs)
  · exact execute_keeps_outside h hkey

open Script in
/-- `A` calls `B`, which writes and returns; then `A` traps.  The entry changed is `B`'s. -/
theorem writes_in_namespaces_at_nested_call :
    ∃ e, runA "f" = .ok e ∧
      e.memoryChangeset.lookup (rightPadVec [66] 64 0 ++ [1]) = some [9] ∧
      ∃ address, (callA "f").HasFrame e address ∧
        rightPadVec address 64 0 <+: rightPadVec [66] 64 0 ++ [1] := by
  have hrun : (runA "f").toOption.map (fun e =>
      e.memoryChangeset.lookup (rightPadVec [66] 64 0 ++ [1])) = some (some [9]) := by
    decide +kernel
  obtain ⟨e, he, hlookup⟩ := exists_ok_of_map hrun
  have hchanged : e.memoryChangeset.lookup (rightPadVec [66] 64 0 ++ [1]) ≠
      (∅ : Changeset).lookup (rightPadVec [66] 64 0 ++ [1]) := by
    rw [hlookup]
    exact Option.some_ne_none _
  exact ⟨e, he, hlookup, (writes_in_namespaces he).2.1 _ (.inl hchanged)⟩

theorem lookup_union_of_same {a b : Changeset} {key : Bytes}
    (h : a.lookup key = b.lookup key) : (a ∪ b).lookup key = b.lookup key := by
  rw [lookup_union, h]
  cases b.lookup key <;> rfl

theorem lookup_union_ignored (b : Changeset) (key : Bytes) :
    ((∅ : Changeset) ∪ b).lookup key = b.lookup key := by
  rw [Finmap.empty_union]

/-- A committed write is seen under its own key only. -/
theorem lookup_set_commit (redis : Redis) (rocksdb : RocksDB) (changeset : Changeset)
    {key key' : Bytes} (value : Bytes) (hne : key ≠ key') :
    ((Storage.new redis rocksdb changeset).set key' value).commit.changeset.lookup key =
      changeset.lookup key := by
  simp [Storage.commit, Storage.set, Storage.new, lookup_union, lookup_insert, hne.symm]

/-- What `create_contract` leaves alone. -/
theorem createContract_keeps {contracts : Bytes → Prop} {fuel : Nat} {t : Transaction}
    {redis : Redis} {rocksdb : RocksDB} {memoryChangeset storageChangeset : Changeset}
    {env : Env} {o : Outcome}
    (h : SystemContracts.run P fuel t (Memory.new redis memoryChangeset)
      (Storage.new redis rocksdb storageChangeset) env = .ok o)
    (hsystem : SystemContracts.isSystemContract t = true)
    (hcontract : ∀ c, t.target = some c → contracts c)
    (hcalled : ∀ c, .called c ∈ o.trace → contracts c) {key : Bytes}
    (hkey : Outside contracts key) :
    (o.memoryChangeset ∪ memoryChangeset).lookup key = memoryChangeset.lookup key ∧
      (o.storageChangeset ∪ storageChangeset).lookup key = storageChangeset.lookup key := by
  unfold SystemContracts.run at h
  unfold Transaction.target at hcontract
  rw [if_pos hsystem] at hcontract
  split at h
  · rename_i hfunction
    rw [if_pos hfunction] at hcontract
    unfold SystemContracts.createContract at h
    split at h
    · rename_i name code arguments harguments
      rw [harguments] at hcontract
      obtain ⟨e, hexecute, h⟩ := except_bind_eq_ok.mp h
      cases h
      have haddress := hcontract _ rfl
      obtain ⟨hm, hs⟩ := execute_keeps hexecute rfl rfl haddress hcalled hkey
      refine ⟨lookup_union_of_same hm, lookup_union_of_same (hs.trans ?_)⟩
      have hslot := hkey _ haddress []
      rw [slot, List.append_nil] at hslot
      exact lookup_set_commit redis rocksdb storageChangeset code hslot
    · cases h
      exact ⟨lookup_union_ignored _ _, lookup_union_ignored _ _⟩
  · cases h
    exact ⟨lookup_union_ignored _ _, lookup_union_ignored _ _⟩

/-- What one transaction leaves alone, its gas payment included. -/
theorem runTransaction_keeps {contracts : Bytes → Prop} {fuel : Nat} {redis : Redis}
    {rocksdb : RocksDB} {env : Env} {b b' : Processed} {t : Transaction}
    (h : runTransaction P fuel redis rocksdb env b t = .ok b')
    (hcontract : ∀ c, t.target = some c → contracts c)
    (htoken : contracts SystemContracts.baseTokenAddress)
    (hcalled : ∀ c, .called c ∈ b'.trace → contracts c) {key : Bytes}
    (hkey : Outside contracts key) :
    b'.memoryChangeset.lookup key = b.memoryChangeset.lookup key ∧
      b'.storageChangeset.lookup key = b.storageChangeset.lookup key := by
  unfold runTransaction runOutcome at h
  obtain ⟨o, hoc, h⟩ := except_bind_eq_ok.mp h
  cases h
  have hcalled' : ∀ c, .called c ∈ o.trace → contracts c :=
    fun c hc => hcalled c (List.mem_append_right _ hc)
  split at hoc
  · exact createContract_keeps hoc ‹_› hcontract hcalled' hkey
  · rename_i hsystem
    obtain ⟨e, hexecute, hoc⟩ := except_bind_eq_ok.mp hoc
    obtain ⟨left, _, hoc⟩ := except_bind_eq_ok.mp hoc
    obtain ⟨gasUsed, _, hoc⟩ := except_bind_eq_ok.mp hoc
    obtain ⟨gas, hgas, hoc⟩ := except_bind_eq_ok.mp hoc
    cases hoc
    have htarget := hcontract t.contractAddress (if_neg hsystem)
    obtain ⟨hm, hs⟩ := execute_keeps hexecute rfl rfl htarget
      (fun c hc => hcalled' c (List.mem_append_left _ hc)) hkey
    unfold SystemContracts.transfer at hgas
    obtain ⟨code, _, hgas⟩ := except_bind_eq_ok.mp hgas
    obtain ⟨inst, _, hgas⟩ := except_bind_eq_ok.mp hgas
    obtain ⟨⟨callEnd, vm⟩, hcall, hgas⟩ := except_bind_eq_ok.mp hgas
    cases hgas
    obtain ⟨hm', _⟩ := call_keeps hcall rfl rfl rfl htoken
      (fun c hc => hcalled' c (List.mem_append_right _ hc)) hkey
    exact ⟨lookup_union_of_same (hm'.trans hm), lookup_union_of_same hs⟩

/-- The record of a batch begins with that of its beginning. -/
theorem trace_of_run {fuel : Nat} {redis : Redis} {rocksdb : RocksDB} {env : Env}
    {ts : List Transaction} {b b' : Processed}
    (h : ts.foldlM (runTransaction P fuel redis rocksdb env) b = .ok b') {event : Event}
    (hevent : event ∈ b.trace) : event ∈ b'.trace := by
  induction ts generalizing b with
  | nil =>
      cases h
      exact hevent
  | cons t rest ih =>
      rw [List.foldlM_cons] at h
      obtain ⟨b₁, hfirst, hrest⟩ := except_bind_eq_ok.mp h
      obtain ⟨o, _, hb₁⟩ := except_bind_eq_ok.mp hfirst
      cases hb₁
      exact ih hrest (List.mem_append_left _ hevent)

/-- What a batch of transactions leaves alone: every key outside of the slots of
the contracts that run. -/
theorem processTransactions_keeps {contracts : Bytes → Prop} {fuel : Nat} {redis : Redis}
    {rocksdb : RocksDB} {env : Env} {ts : List Transaction} {b b' : Processed}
    (h : ts.foldlM (runTransaction P fuel redis rocksdb env) b = .ok b')
    (hcontract : ∀ t ∈ ts, ∀ c, t.target = some c → contracts c)
    (htoken : contracts SystemContracts.baseTokenAddress)
    (hcalled : ∀ c, .called c ∈ b'.trace → contracts c) {key : Bytes}
    (hkey : Outside contracts key) :
    b'.memoryChangeset.lookup key = b.memoryChangeset.lookup key ∧
      b'.storageChangeset.lookup key = b.storageChangeset.lookup key := by
  induction ts generalizing b with
  | nil =>
      cases h
      exact ⟨rfl, rfl⟩
  | cons t rest ih =>
      obtain ⟨hfirst, hrest⟩ := List.forall_mem_cons.mp hcontract
      rw [List.foldlM_cons] at h
      obtain ⟨b₁, hb₁, h⟩ := except_bind_eq_ok.mp h
      obtain ⟨hm, hs⟩ := runTransaction_keeps hb₁ hfirst htoken
        (fun c hc => hcalled c (trace_of_run h hc)) hkey
      obtain ⟨hm', hs'⟩ := ih h hrest
      exact ⟨hm'.trans hm, hs'.trans hs⟩

/-! ## Two contracts -/

/-- No slot of the one is a slot of the other. -/
def Apart (a b : Bytes) : Prop := ∀ k k', slot a k ≠ slot b k'

/-- Neither byte string begins the other. -/
def Incomparable (x y : Bytes) : Prop := ¬ x <+: y ∧ ¬ y <+: x

theorem apart_iff (a b : Bytes) : Apart a b ↔ Incomparable (codeSlot a) (codeSlot b) := by
  constructor
  · refine fun h => ⟨fun ⟨k, hk⟩ => ?_, fun ⟨k, hk⟩ => ?_⟩
    · exact h k [] (hk.trans (List.append_nil _).symm)
    · exact h [] k ((List.append_nil _).trans hk.symm)
  · rintro ⟨hab, hba⟩ k k' heq
    rcases List.append_eq_append_iff.mp heq with ⟨c, hb, _⟩ | ⟨c, ha, _⟩
    · exact hab ⟨c, hb.symm⟩
    · exact hba ⟨c, ha.symm⟩

/-- Padding to 64 bytes leaves a 32-byte sender as it is. -/
theorem codeSlot_append {sender : Bytes} (h : sender.length = 32) (name : Bytes) :
    codeSlot (sender ++ name) = sender ++ rightPadVec name 32 0 := by
  have hlength : 64 - (sender ++ name).length = 32 - name.length := by
    rw [List.length_append]
    omega
  rw [codeSlot, rightPadVec, rightPadVec, hlength, List.append_assoc]

theorem append_prefix_append_iff {x y u v : Bytes} (h : x.length = y.length) :
    x ++ u <+: y ++ v ↔ x = y ∧ u <+: v := by
  constructor
  · rintro ⟨k, hk⟩
    rw [List.append_assoc] at hk
    obtain ⟨rfl, hrest⟩ := List.append_inj hk h
    exact ⟨rfl, k, hrest⟩
  · rintro ⟨rfl, k, rfl⟩
    exact ⟨k, List.append_assoc _ _ _⟩

theorem incomparable_append_iff {x y u v : Bytes} (h : x.length = y.length) :
    Incomparable (x ++ u) (y ++ v) ↔ x ≠ y ∨ Incomparable u v := by
  unfold Incomparable
  rw [append_prefix_append_iff h, append_prefix_append_iff h.symm]
  constructor
  · rintro ⟨huv, hvu⟩
    by_cases hxy : x = y
    · exact .inr ⟨fun hu => huv ⟨hxy, hu⟩, fun hv => hvu ⟨hxy.symm, hv⟩⟩
    · exact .inl hxy
  · rintro (hxy | ⟨hu, hv⟩)
    · exact ⟨fun hall => hxy hall.1, fun hall => hxy hall.1.symm⟩
    · exact ⟨fun hall => hu hall.2, fun hall => hv hall.2⟩

/-- The transactions run or deploy the contract at `a` only, and no frame of
their record is nested in another contract's, but for the gas payments. -/
structure RunsOnly (a : Bytes) (ts : List Transaction) (trace : List Event) : Prop where
  targets : ∀ t ∈ ts, ∀ c, t.target = some c → codeSlot c = codeSlot a
  called : ∀ c, .called c ∈ trace →
    codeSlot c = codeSlot a ∨ codeSlot c = codeSlot SystemContracts.baseTokenAddress

/-- What the contract at `b` reads of its own, and its code. -/
def ReadsAlike (redis : Redis) (rocksdb : RocksDB) (b : Bytes) (before after : Processed) :
    Prop :=
  (∀ k, (Memory.new redis after.memoryChangeset).get (slot b k) =
      (Memory.new redis before.memoryChangeset).get (slot b k)) ∧
    (∀ k, (Storage.new redis rocksdb after.storageChangeset).get (slot b k) =
      (Storage.new redis rocksdb before.storageChangeset).get (slot b k)) ∧
    (Storage.new redis rocksdb after.storageChangeset).get (codeSlot b) =
      (Storage.new redis rocksdb before.storageChangeset).get (codeSlot b)

/-- A block's state in its middle. -/
def Processed.at (memoryChangeset storageChangeset : Changeset) : Processed where
  memoryChangeset := memoryChangeset
  storageChangeset := storageChangeset
  transactions := []
  trace := []

/-- The contract at `a` cannot touch the slots of the one at `b`.  Where `b` is
not the base token, which every transaction pays with, that is so over any
sequence of transactions that run only `a`. -/
structure Isolated (a b : Bytes) : Prop where
  slots : ∀ k k', slot a k ≠ slot b k'
  code : ∀ k, slot a k ≠ codeSlot b
  runs : Apart SystemContracts.baseTokenAddress b →
    ∀ (P : Platform) (fuel : Nat) (redis : Redis) (rocksdb : RocksDB) (env : Env)
      (memoryChangeset storageChangeset : Changeset) (ts : List Transaction)
      (after : Processed),
      ts.foldlM (runTransaction P fuel redis rocksdb env)
          (.at memoryChangeset storageChangeset) = .ok after →
        RunsOnly a ts after.trace →
          ReadsAlike redis rocksdb b (.at memoryChangeset storageChangeset) after

theorem memory_get_congr {redis : Redis} {c c' : Changeset} {key : Bytes}
    (h : c'.lookup key = c.lookup key) :
    (Memory.new redis c').get key = (Memory.new redis c).get key := by
  show readThrough c' _ key = readThrough c _ key
  unfold readThrough
  rw [h]
  rfl

theorem storage_get_congr {redis : Redis} {rocksdb : RocksDB} {c c' : Changeset}
    {key : Bytes} (h : c'.lookup key = c.lookup key) :
    (Storage.new redis rocksdb c').get key = (Storage.new redis rocksdb c).get key := by
  show readThrough c' _ key = readThrough c _ key
  unfold readThrough
  rw [h]
  rfl

theorem isolated_of_apart {a b : Bytes} (h : Apart a b) : Isolated a b where
  slots := h
  code k heq := h k [] (heq.trans (List.append_nil _).symm)
  runs htoken P fuel redis rocksdb env memoryChangeset storageChangeset ts after hrun
      honly := by
    have hkey : ∀ k, Outside (fun c => codeSlot c = codeSlot a ∨
        codeSlot c = codeSlot SystemContracts.baseTokenAddress) (slot b k) := by
      rintro k c (hc | hc) k'
      · rw [slot, slot, hc]
        exact (h k' k).symm
      · rw [slot, slot, hc]
        exact (htoken k' k).symm
    have hkeep := fun k => processTransactions_keeps hrun
      (fun t ht c hc => .inl (honly.targets t ht c hc)) (.inr rfl) honly.called (hkey k)
    refine ⟨fun k => memory_get_congr (hkeep k).1, fun k => storage_get_congr (hkeep k).2, ?_⟩
    have hcode := (hkeep []).2
    rw [slot, List.append_nil] at hcode
    exact storage_get_congr hcode

/-- **When two contracts are isolated.**  Contracts deployed by senders of 32
bytes are isolated from each other exactly if their senders differ, or neither
name, padded with zero bytes to 32, begins the other. -/
theorem isolated_iff {sender sender' : Bytes} (h : sender.length = 32)
    (h' : sender'.length = 32) (name name' : String) :
    Isolated (sender ++ utf8 name) (sender' ++ utf8 name') ↔
      sender ≠ sender' ∨
        Incomparable (rightPadVec (utf8 name) 32 0) (rightPadVec (utf8 name') 32 0) := by
  rw [← incomparable_append_iff (h.trans h'.symm), ← codeSlot_append h,
    ← codeSlot_append h', ← apart_iff]
  exact ⟨fun hisolated => hisolated.slots, isolated_of_apart⟩

/-- A name and the same name with a zero byte after it. -/
theorem padded_names_share_slots :
    ¬ ∀ (sender sender' : Bytes) (name name' : String), sender.length = 32 →
      sender'.length = 32 → (sender, name) ≠ (sender', name') →
        Isolated (sender ++ utf8 name) (sender' ++ utf8 name') := by
  intro hclaim
  have hisolated := hclaim (List.replicate 32 7) (List.replicate 32 7) "a" "a\x00" rfl rfl
    (by decide)
  exact hisolated.slots [] [] (by decide +kernel)

/-- Two senders with contracts of one name. -/
theorem isolated_at_two_senders :
    Isolated (List.replicate 32 7 ++ utf8 "a") (List.replicate 32 8 ++ utf8 "a") :=
  (isolated_iff (by decide) (by decide) "a" "a").mpr (.inl (by decide))

end Ellipticoind.Ports
