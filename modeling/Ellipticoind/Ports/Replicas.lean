import Ellipticoind.Ports.Serialisable
import Ellipticoind.Ports.StateMap

/-!
# What a chain says about the state

A node's state comes from its chain: every block is run on the state that the
blocks before it have left, and its changesets are written over it.  `Replay` is
this reading of a chain, on plain maps, and it is the same for a block that the
node has mined and for one that it has applied.

The stores stand for such a map as far as keys do not collide in Redis.  A block
is run alike on all stores that stand for the same map, so two nodes with the same
chain give the same answers, however their processes have interleaved.

## Main results

* `processTransactions_alike` — a batch is run alike on stores that are read
  alike.
* `stands_of_serial` — the stores stand for what the chain says.
* `replicas_agree` — nodes with the same chain give the same answers.
-/

namespace Ellipticoind.Ports

open Ellipticoind.Verified Ellipticoind.Verified.StateRun

variable {P : Platform} {fuel : Nat}

/-! ## Batches on stores that are read alike -/

/-- A native program reads the keys of `K` alike in the two stores. -/
structure Alike (K : Bytes → Prop) (q q' : Stores) : Prop where
  memory : ∀ key, K key → q'.getFromMemory key = q.getFromMemory key
  storage : ∀ key, K key → q'.getFromStorage key = q.getFromStorage key

theorem readThrough_empty (persisted : Option Bytes) (key : Bytes) :
    readThrough ∅ persisted key = persisted := Option.map_id'

theorem readAlike_of_alike {K : Bytes → Prop} {q q' : Stores} (h : Alike K q q')
    {trace : List Event} (hreads : Reads K K trace) : ReadAlike q q' ∅ ∅ trace := by
  constructor
  · intro key hkey
    rw [readThrough_empty]
    exact h.memory key (hreads.memory key hkey)
  · intro key hkey
    rw [readThrough_empty]
    exact h.storage key (hreads.storage key hkey)

theorem reads_append {K : Bytes → Prop} {xs ys : List Event} :
    Reads K K (xs ++ ys) ↔ Reads K K xs ∧ Reads K K ys := by
  constructor
  · intro h
    exact ⟨⟨fun key hkey => h.memory key (List.mem_append_left _ hkey),
        fun key hkey => h.storage key (List.mem_append_left _ hkey)⟩,
      ⟨fun key hkey => h.memory key (List.mem_append_right _ hkey),
        fun key hkey => h.storage key (List.mem_append_right _ hkey)⟩⟩
  · rintro ⟨hx, hy⟩
    exact ⟨fun key hkey => (List.mem_append.mp hkey).elim (hx.memory key) (hy.memory key),
      fun key hkey => (List.mem_append.mp hkey).elim (hx.storage key) (hy.storage key)⟩

theorem Memory.over_empty (q : Stores) (m : Memory) :
    m.over q ∅ = { m with redis := q.redis } := by
  unfold Memory.over
  rw [Finmap.union_empty]

theorem Storage.over_empty (q : Stores) (s : Storage) :
    s.over q ∅ = { s with redis := q.redis, rocksdb := q.rocksdb } := by
  unfold Storage.over
  rw [Finmap.union_empty]

section Alike

variable {K : Bytes → Prop} {q q' : Stores} (h : Alike K q q')
include h

/-- A call that gets to its end on the one store does so on the other. -/
theorem call_alike {func : String} {arguments : List Value} (vm : VM P) {vm' : VM P}
    {callEnd : CallEnd} (hon : On q' vm.memory vm.storage)
    (hcall : VM.call (invoke P fuel []) func arguments (vm.over q ∅ ∅) = .ok (callEnd, vm'))
    (hreads : Reads K K vm'.trace) :
    ∃ vm'', VM.call (invoke P fuel []) func arguments vm = .ok (callEnd, vm'') ∧
      vm' = vm''.over q ∅ ∅ := by
  have hsim := frameSimulation_over (P := P) q q' ∅ ∅
  obtain ⟨vm'', hcall', hover, -⟩ := (hsim.simulates_call (hsim.simulates_invoke le_rfl []) func
    arguments).matched _ vm _ _ ⟨rfl, hon⟩ hcall (readAlike_of_alike h hreads)
  exact ⟨vm'', hcall', hover⟩

theorem get_alike {changeset : Changeset} {key : Bytes} (hkey : K key) :
    (Storage.new q'.redis q'.rocksdb changeset).get key =
      (Storage.new q.redis q.rocksdb changeset).get key :=
  congrArg (fun persisted => readThrough changeset persisted key) (h.storage key hkey)

theorem execute_alike {t : Transaction} {env : Env} {e : Executed} {memory : Memory}
    {storage : Storage} (hon : On q' memory storage) (hkey : K (codeSlot t.contractAddress))
    (hrun : t.execute P fuel (memory.over q ∅) (storage.over q ∅) env = .ok e)
    (hreads : Reads K K e.trace) : t.execute P fuel memory storage env = .ok e := by
  have hcode : (storage.over q ∅).get (codeSlot t.contractAddress) =
      storage.get (codeSlot t.contractAddress) := by
    refine Storage.get_over hon.redis hon.rocksdb ?_
    rw [readThrough_empty]
    exact h.storage _ hkey
  unfold Transaction.execute at hrun ⊢
  obtain ⟨code, hget, hrun⟩ := except_bind_eq_ok.mp hrun
  refine except_bind_eq_ok.mpr ⟨code, ?_, ?_⟩
  · rw [← hget]
    exact congrArg unwrap hcode.symm
  split at hrun
  · rw [if_pos ‹_›]
    cases hrun
    show Except.ok _ = Except.ok _
    simp only [Memory.over_empty, Storage.over_empty]
  · rw [if_neg ‹_›]
    obtain ⟨inst, hinst, hrun⟩ := except_bind_eq_ok.mp hrun
    obtain ⟨⟨callEnd, vm⟩, hcall, hrun⟩ := except_bind_eq_ok.mp hrun
    cases hrun
    obtain ⟨vm', hcall', rfl⟩ := call_alike h (t.frame inst memory storage env) hon hcall hreads
    refine except_bind_eq_ok.mpr ⟨inst, hinst, except_bind_eq_ok.mpr ⟨_, hcall', ?_⟩⟩
    show Except.ok _ = Except.ok _
    simp only [VM.over, Memory.over_empty, Storage.over_empty]

theorem transfer_alike {t : Transaction} {env : Env} {memoryChangeset : Changeset}
    {amount : Nat} {sender winner : Bytes} {o : Outcome}
    (htoken : K (codeSlot SystemContracts.baseTokenAddress))
    (hrun : SystemContracts.transfer P fuel t q.redis q.rocksdb memoryChangeset ∅ env amount
      sender winner = .ok o)
    (hreads : Reads K K o.trace) :
    SystemContracts.transfer P fuel t q'.redis q'.rocksdb memoryChangeset ∅ env amount
      sender winner = .ok o := by
  unfold SystemContracts.transfer at hrun
  obtain ⟨code, hget, hrun⟩ := except_bind_eq_ok.mp hrun
  obtain ⟨inst, hinst, hrun⟩ := except_bind_eq_ok.mp hrun
  obtain ⟨⟨callEnd, vm⟩, hcall, hrun⟩ := except_bind_eq_ok.mp hrun
  cases hrun
  have hframe := @paymentFrame_over P q q' ∅
    (SystemContracts.transferTransaction t amount sender winner) memoryChangeset env inst
  rw [Finmap.union_empty] at hframe
  have hcall : VM.call (invoke P fuel []) "transfer"
      (SystemContracts.transferTransaction t amount sender winner).arguments
      (paymentFrame q (SystemContracts.transferTransaction t amount sender winner)
        memoryChangeset env inst) = .ok (callEnd, vm) := hcall
  rw [← hframe] at hcall
  obtain ⟨vm', hcall', rfl⟩ := call_alike h _ ⟨rfl, rfl, rfl⟩ hcall hreads
  have hget' : unwrap ((Storage.new q'.redis q'.rocksdb ∅).get
      (codeSlot SystemContracts.baseTokenAddress)) = .ok code :=
    (congrArg unwrap (get_alike h htoken)).trans hget
  rw [transfer_of_call hget' hinst hcall']
  simp only [VM.over, Memory.over_empty, Storage.over_empty]

/-- A transaction gives on the one store what it gives on the other. -/
theorem runOutcome_alike {t : Transaction} {env : Env} {mc sc : Changeset} {o : Outcome}
    (hcode : ∀ address, t.target = some address → K (codeSlot address))
    (htoken : K (codeSlot SystemContracts.baseTokenAddress))
    (hrun : runOutcome P fuel q.redis q.rocksdb t env mc sc = .ok o)
    (hreads : Reads K K o.trace) :
    runOutcome P fuel q'.redis q'.rocksdb t env mc sc = .ok o := by
  have hmemory : (Memory.new q'.redis mc).over q ∅ = Memory.new q.redis mc := Memory.over_empty q _
  have hstorage : (Storage.new q'.redis q'.rocksdb sc).over q ∅ =
      Storage.new q.redis q.rocksdb sc := Storage.over_empty q _
  cases hsystem : SystemContracts.isSystemContract t with
  | false =>
      rw [runOutcome_user hsystem] at hrun ⊢
      obtain ⟨e, he, hrun⟩ := except_bind_eq_ok.mp hrun
      obtain ⟨gas, hgas, hrun⟩ := except_bind_eq_ok.mp hrun
      cases hrun
      obtain ⟨hcall, hpayment⟩ := reads_append.mp hreads
      unfold gasPayment at hgas
      obtain ⟨left, hleft, hgas⟩ := except_bind_eq_ok.mp hgas
      obtain ⟨gasUsed, hused, hgas⟩ := except_bind_eq_ok.mp hgas
      have hkey : K (codeSlot t.contractAddress) :=
        hcode _ (if_neg (by rw [hsystem]; decide))
      have he' : t.execute P fuel (Memory.new q'.redis mc)
          (Storage.new q'.redis q'.rocksdb sc) env = .ok e :=
        execute_alike h ⟨rfl, rfl, rfl⟩ hkey (by rw [hmemory, hstorage]; exact he) hcall
      refine except_bind_eq_ok.mpr ⟨e, he', except_bind_eq_ok.mpr ⟨gas, ?_, rfl⟩⟩
      exact except_bind_eq_ok.mpr ⟨left, hleft, except_bind_eq_ok.mpr
        ⟨gasUsed, hused, transfer_alike h htoken hgas hpayment⟩⟩
  | true =>
      unfold runOutcome at hrun ⊢
      rw [if_pos hsystem] at hrun ⊢
      unfold SystemContracts.run SystemContracts.createContract at hrun ⊢
      unfold Transaction.target at hcode
      rw [if_pos hsystem] at hcode
      split at hrun
      · rename_i hfunction
        rw [if_pos hfunction] at hcode ⊢
        split at hrun
        · rename_i name code arguments harguments
          rw [harguments] at hcode
          rw [runConstructor_eq] at hrun ⊢
          obtain ⟨e, he, hrun⟩ := except_bind_eq_ok.mp hrun
          cases hrun
          have hcommit := Storage.set_commit_over q q' ∅ sc
            (rightPadVec (t.sender ++ utf8 name) 64 0) code
          rw [Finmap.union_empty] at hcommit
          refine except_bind_eq_ok.mpr ⟨e, execute_alike h ⟨rfl, rfl, rfl⟩ (hcode _ rfl) ?_
            hreads, rfl⟩
          rw [hmemory, ← hcommit]
          exact he
        · exact hrun
      · rw [if_neg ‹_›]
        exact hrun

theorem runTransaction_alike {t : Transaction} {env : Env} {b b' : Processed}
    (hcode : ∀ address, t.target = some address → K (codeSlot address))
    (htoken : K (codeSlot SystemContracts.baseTokenAddress))
    (hrun : runTransaction P fuel q.redis q.rocksdb env b t = .ok b')
    (hreads : Reads K K b'.trace) :
    Reads K K b.trace ∧ runTransaction P fuel q'.redis q'.rocksdb env b t = .ok b' := by
  obtain ⟨o, ho, hrun⟩ := except_bind_eq_ok.mp hrun
  cases hrun
  obtain ⟨hbefore, hreads⟩ := reads_append.mp hreads
  exact ⟨hbefore,
    except_bind_eq_ok.mpr ⟨o, runOutcome_alike h hcode htoken ho hreads, rfl⟩⟩

/-- A batch is run alike on stores that are read alike.  The induction is on the
transactions; that the record so far keeps to `K` comes back from the rest. -/
theorem foldlM_alike {ts : List Transaction} {env : Env} {b b' : Processed}
    (hcode : ∀ t ∈ ts, ∀ address, t.target = some address → K (codeSlot address))
    (htoken : K (codeSlot SystemContracts.baseTokenAddress))
    (hrun : ts.foldlM (runTransaction P fuel q.redis q.rocksdb env) b = .ok b')
    (hreads : Reads K K b'.trace) :
    Reads K K b.trace ∧
      ts.foldlM (runTransaction P fuel q'.redis q'.rocksdb env) b = .ok b' := by
  induction ts generalizing b with
  | nil =>
      cases hrun
      exact ⟨hreads, rfl⟩
  | cons t rest ih =>
      obtain ⟨hfirst, hrest⟩ := List.forall_mem_cons.mp hcode
      rw [List.foldlM_cons] at hrun ⊢
      obtain ⟨b₁, hstep, hrun⟩ := except_bind_eq_ok.mp hrun
      obtain ⟨hreads₁, hrun'⟩ := ih hrest hrun
      obtain ⟨hbefore, hstep'⟩ := runTransaction_alike h hfirst htoken hstep hreads₁
      exact ⟨hbefore, except_bind_eq_ok.mpr ⟨b₁, hstep', hrun'⟩⟩

end Alike

/-- The batch keeps to the keys of `K`: the code it runs, the entries its contracts
read and the entries it leaves are under them. -/
structure KeepsTo (K : Bytes → Prop) (ts : List Transaction) (b : Processed) : Prop where
  code : ∀ t ∈ ts, ∀ address, t.target = some address → K (codeSlot address)
  token : K (codeSlot SystemContracts.baseTokenAddress)
  reads : Reads K K b.trace
  written : ∀ kind key value, (b.changeset kind).lookup key = some value → K key

theorem processTransactions_alike {K : Bytes → Prop} {q q' : Stores} (h : Alike K q q')
    {ts : List Transaction} {env : Env} {b : Processed} (hwithin : KeepsTo K ts b)
    (hrun : processTransactions P fuel q.redis q.rocksdb env ts = .ok b) :
    processTransactions P fuel q'.redis q'.rocksdb env ts = .ok b :=
  (foldlM_alike h hwithin.code hwithin.token hrun hwithin.reads).2

theorem alike_of_stands {K : Bytes → Prop} {s s' : Stores} {v : StateMap}
    (hs : Stands K s v) (hs' : Stands K s' v) : Alike K s s' where
  memory _ hkey :=
    (native_of_stands hs' hkey).1.trans (native_of_stands hs hkey).1.symm
  storage _ hkey :=
    (native_of_stands hs' hkey).2.trans (native_of_stands hs hkey).2.symm

/-! ## Reading a chain -/

/-- The transactions of a block. -/
def Block.batch (block : Block) : List Transaction :=
  block.transactions.map CompletedTransaction.transaction

/-- The map that a chain leads to from `v₀`: every block is run, in its own
environment, on stores that stand for what the blocks before it lead to. -/
inductive Replay (K : Bytes → Prop) (P : Platform) (fuel : Nat) (v₀ : StateMap) :
    List Block → StateMap → Prop
  | start : Replay K P fuel v₀ [] v₀
  | block {chain : List Block} {v : StateMap} {block : Block} {s : Stores} {b : Processed}
      (hreplay : Replay K P fuel v₀ chain v) (hstands : Stands K s v)
      (hprocess : processTransactions P fuel s.redis s.rocksdb (existingBlockEnv block)
        block.batch = .ok b) :
      Replay K P fuel v₀ (block :: chain) (v.write b)

/-- Run on the state of the blocks before it, every block of the chain keeps to the keys of
`K` and does not ask for the block's hash, under the empty hash that the miner runs it
with, and under its own. -/
def Sound (K : Bytes → Prop) (P : Platform) (fuel : Nat) (v₀ : StateMap)
    (blocks : List Block) : Prop :=
  ∀ block rest, block :: rest <:+ blocks → ∀ v s b hash,
    Replay K P fuel v₀ rest v → Stands K s v → (hash = [] ∨ hash = block.hash) →
      processTransactions P fuel s.redis s.rocksdb ((existingBlockEnv block).withHash hash)
        block.batch = .ok b → KeepsTo K block.batch b ∧ NoBlockHash b.trace

section Replay

variable {K : Bytes → Prop} {v₀ : StateMap}

theorem Sound.tail {block : Block} {rest : List Block}
    (h : Sound K P fuel v₀ (block :: rest)) : Sound K P fuel v₀ rest :=
  fun block' rest' hsuffix => h block' rest' (hsuffix.trans (List.suffix_cons block rest))

/-- A chain leads to one map. -/
theorem replay_unique {blocks : List Block} {v v' : StateMap}
    (hsound : Sound K P fuel v₀ blocks) (h : Replay K P fuel v₀ blocks v)
    (h' : Replay K P fuel v₀ blocks v') : v = v' := by
  induction h generalizing v' with
  | start =>
      cases h'
      rfl
  | @block chain v block s b hreplay hstands hprocess ih =>
      cases h' with
      | @block _ v' _ s' b' hreplay' hstands' hprocess' =>
          have hsame := ih hsound.tail hreplay'
          subst hsame
          have hwithin := (hsound block chain (List.suffix_refl _) v s b block.hash hreplay
            hstands (.inr rfl) hprocess).1
          have halike :=
            processTransactions_alike (alike_of_stands hstands hstands') hwithin hprocess
          rw [Except.ok.inj (halike.symm.trans hprocess')]

end Replay

/-! ## Rounds -/

/-- What is decoded is what was encoded. -/
def Decodes (L : NodeLibrary) : Prop :=
  ∀ completed ts, L.decode (L.encode completed) = some ts →
    ts = completed.map CompletedTransaction.transaction

section Serial

variable {C : NodeConfig} {K : Bytes → Prop} {v₀ : StateMap} {stores₀ : Stores}
  (hK : Separated K) (hlist : Enumerates C.toList) (hcodec : Decodes C.toNodeLibrary)
  (hstart : Stands K stores₀ v₀)
include hK hlist

/-- The changesets of a block, written once by its miner or twice by others. -/
theorem stands_of_writeAll {b : Processed} {n : Nat} {ts : List Transaction}
    {s s' : Stores} {v : StateMap} (hwithin : KeepsTo K ts b) (hn : n < 2 ^ 64)
    {kinds : List StateType} (hkinds : ∀ kind, kind ∈ kinds) (hs : Stands K s v)
    (hwrite : s.writeAll C.toList b n kinds = (s', true)) : Stands K s' (v.write b) := by
  obtain ⟨s₁, hwrite₁, hs₁⟩ := stands_writeAll hK hlist hwithin.written hn kinds hs
  rw [hwrite] at hwrite₁
  cases hwrite₁
  rwa [StateMap.writeKinds_of_all v b hkinds] at hs₁

include hcodec hstart

/-- Complete rounds lead to stores that stand for what their chain says, whoever has mined
its blocks. -/
theorem stands_of_serial {blocks : List Block} {stores : Stores}
    (hserial : Serial C P fuel [] stores₀ blocks stores)
    (hbound : ∀ block ∈ blocks, block.number < 2 ^ 64)
    (hsound : Sound K P fuel v₀ blocks) :
    ∃ v, Replay K P fuel v₀ blocks v ∧ Stands K stores v := by
  induction hserial with
  | start => exact ⟨v₀, .start, hstart⟩
  | @mine blocks stores stores' ts mined block value hserial hmined hblock hinsert hwrite ih =>
      obtain ⟨hn, hbound⟩ := List.forall_mem_cons.mp hbound
      obtain ⟨v, hreplay, hs⟩ := ih hbound hsound.tail
      have hbatch : block.batch = ts := by
        rw [hblock]
        exact transactions_processTransactions hmined
      have henv : newBlockEnv (best blocks) C.publicKey = (existingBlockEnv block).withHash [] := by
        rw [hblock, existingBlockEnv_minedBlock]
        rfl
      have hrun : processTransactions P fuel stores.redis stores.rocksdb
          ((existingBlockEnv block).withHash []) block.batch = .ok mined := by
        rw [hbatch, ← henv]
        exact hmined
      obtain ⟨hwithin, hhash⟩ :=
        hsound block blocks (List.suffix_refl _) v stores mined [] hreplay hs (.inl rfl) hrun
      have hrun' := processTransactions_withHash block.hash hrun hhash
      exact ⟨v.write mined, .block hreplay hs hrun',
        stands_of_writeAll hK hlist hwithin hn (fun kind => by cases kind <;> decide) hs hwrite⟩
  | @apply blocks stores stores' block processed hserial hwork hnumber hprocess hwrite hinsert
      ih =>
      obtain ⟨hn, hbound⟩ := List.forall_mem_cons.mp hbound
      obtain ⟨v, hreplay, hs⟩ := ih hbound hsound.tail
      obtain ⟨ts, hdecode, hprocess⟩ := except_bind_eq_ok.mp hprocess
      have hbatch : ts = block.batch := by
        cases hdecoded : C.decode (C.encode block.transactions) with
        | none =>
            rw [hdecoded] at hdecode
            cases hdecode
        | some decoded =>
            rw [hdecoded] at hdecode
            cases hdecode
            exact hcodec _ _ hdecoded
      rw [hbatch] at hprocess
      obtain ⟨hwithin, -⟩ := hsound block blocks (List.suffix_refl _) v stores processed
        block.hash hreplay hs (.inr rfl) hprocess
      exact ⟨v.write processed, .block hreplay hs hprocess,
        stands_of_writeAll hK hlist hwithin hn (fun kind => by cases kind <;> decide) hs hwrite⟩

end Serial

/-! ## Two nodes -/

namespace Node

/-- A coordinated run from an empty chain has come to `n`, where no process is within its
commit. -/
structure Settles (C : NodeConfig) (P : Platform) (fuel : Nat) (stores₀ : Stores)
    (actions : List Action) (n : Node) : Prop where
  meets : Runs.Meets (step C P fuel) (Coordinated C) (start [] stores₀) actions
  run : run C P fuel (start [] stores₀) actions = some n
  miner : n.minerCommits = false
  apply : n.applyCommits = false

theorem Settles.serial {C : NodeConfig} {stores₀ : Stores} {actions : List Action} {n : Node}
    (h : Settles C P fuel stores₀ actions n) :
    Serial C P fuel [] stores₀ n.blocks n.stores := by
  have hserialised : Serialised C P fuel [] stores₀ n :=
    Runs.invariant_of_run (fun _ _ _ hn hcond hstep => serialised_of_step hn hcond hstep)
      (serialised_start List.Pairwise.nil) h.meets h.run
  exact hserialised.idle h.miner h.apply

/-- **Nodes with the same chain give the same answers.**  Whatever the two nodes have mined
or applied, and however their processes have interleaved, once they have the same blocks a
native program reads the same in their stores, and so does the node itself. -/
theorem replicas_agree {C C' : NodeConfig} {K : Bytes → Prop} {v₀ : StateMap}
    {stores₀ stores₀' : Stores} {actions actions' : List Action} {n n' : Node}
    (hK : Separated K) (hlist : Enumerates C.toList) (hlist' : Enumerates C'.toList)
    (hcodec : Decodes C.toNodeLibrary) (hcodec' : Decodes C'.toNodeLibrary)
    (hstart : Stands K stores₀ v₀) (hstart' : Stands K stores₀' v₀)
    (hsettles : Settles C P fuel stores₀ actions n)
    (hsettles' : Settles C' P fuel stores₀' actions' n') (hchain : n'.blocks = n.blocks)
    (hbound : ∀ block ∈ n.blocks, block.number < 2 ^ 64)
    (hsound : Sound K P fuel v₀ n.blocks) (key : Bytes) (hkey : K key) :
    n'.stores.getFromMemory key = n.stores.getFromMemory key ∧
      n'.stores.getFromStorage key = n.stores.getFromStorage key ∧
      ∀ kind, n'.stores.get kind key = n.stores.get kind key := by
  obtain ⟨v, hreplay, hs⟩ :=
    stands_of_serial hK hlist hcodec hstart hsettles.serial hbound hsound
  have hserial' := hsettles'.serial
  rw [hchain] at hserial'
  obtain ⟨v', hreplay', hs'⟩ :=
    stands_of_serial hK hlist' hcodec' hstart' hserial' hbound hsound
  cases replay_unique hsound hreplay hreplay'
  have halike := alike_of_stands hs hs'
  refine ⟨halike.memory key hkey, halike.storage key hkey, fun kind => ?_⟩
  rw [get_of_stands hs kind hkey, get_of_stands hs' kind hkey]

end Node

/-! ## A block mined here and applied there -/

namespace Script

open Ellipticoind.Verified.LittleEndian

/-- An order of the byte strings. -/
def before (a b : Bytes) : Prop := leNat (a ++ [1]) ≤ leNat (b ++ [1])

instance : DecidableRel before := fun _ _ => Nat.decLe _ _

instance : Std.Total before := ⟨fun _ _ => Nat.le_total _ _⟩

instance : IsTrans Bytes before := ⟨fun _ _ _ => Nat.le_trans⟩

theorem before_antisymm {a b : Bytes} (h : before a b) (h' : before b a) : a = b := by
  have hminimal (bytes : Bytes) : Minimal (bytes ++ [1]) := by
    refine ⟨by simp, .inr ?_⟩
    simp
  exact List.append_cancel_right
    (eq_of_minimal (hminimal a) (hminimal b) (Nat.le_antisymm h h'))

/-- The keys of a changeset, in this order. -/
def sortedKeys (changeset : Changeset) : List Bytes :=
  Quot.liftOn changeset.keys.val (List.insertionSort before) fun l l' hperm => by
    refine @List.Perm.eq_of_pairwise _ before _ _ (fun _ _ _ _ => before_antisymm)
      (List.pairwise_insertionSort before l) (List.pairwise_insertionSort before l') ?_
    exact (List.perm_insertionSort before l).trans
      (hperm.trans (List.perm_insertionSort before l').symm)

theorem mem_sortedKeys {changeset : Changeset} {key : Bytes} :
    key ∈ sortedKeys changeset ↔ key ∈ changeset := by
  rw [← Finmap.mem_keys]
  unfold sortedKeys
  obtain ⟨l, hl⟩ := Quot.exists_rep changeset.keys.val
  show _ ↔ key ∈ changeset.keys.val
  rw [← hl]
  exact (List.perm_insertionSort before l).mem_iff

def enumerate (changeset : Changeset) : List (Bytes × Bytes) :=
  (sortedKeys changeset).filterMap fun key => (changeset.lookup key).map (key, ·)

theorem enumerates : Enumerates enumerate := by
  intro changeset key value
  unfold enumerate
  rw [List.mem_filterMap]
  constructor
  · rintro ⟨key', -, hmap⟩
    obtain ⟨value', hlookup, heq⟩ := Option.map_eq_some_iff.mp hmap
    cases heq
    exact hlookup
  · intro hlookup
    refine ⟨key, mem_sortedKeys.mpr (Finmap.mem_iff.mpr ⟨value, hlookup⟩), ?_⟩
    rw [hlookup]
    rfl

/-- The small node, with an enumeration of its changesets. -/
def miningConfig : NodeConfig := { nodeConfig with toList := enumerate }

/-- Another node, with a key of its own. -/
def applyingConfig : NodeConfig := { miningConfig with publicKey := [8] }

/-- The block that the small node mines of the posted transaction. -/
def pingBlock : Block where
  hash := [2, 0, 0]
  number := 0
  winner := [7]
  memoryChangesetHash := [0]
  storageChangesetHash := [0]
  proofOfWorkValue := 0
  transactions := [ping.complete (0, .null)]

/-- The other node is handed this block and applies it. -/
def appliedRun : List Action :=
  .deliver (.block pingBlock) :: List.replicate 12 .p2p

theorem mined_settles : ∃ n, n.blocks = [pingBlock] ∧
    Node.Settles miningConfig (platform []) 0 .empty minedRun n := by
  suffices h : Runs.Reaches (Node.step miningConfig (platform []) 0)
      (Node.Coordinated miningConfig) (Node.start [] .empty) minedRun fun n =>
        n.blocks = [pingBlock] ∧ n.minerCommits = false ∧ n.applyCommits = false by
    obtain ⟨hmeets, n, hn, hblocks, hminer, hp2p⟩ := h
    exact ⟨n, hblocks, hmeets, hn, hminer, hp2p⟩
  refine Runs.reaches_cons trivial (Node.step_post queueEntry_ping) ?_
  refine Runs.reaches_cons ⟨fun message rest h => ?_, trivial⟩ rfl ?_
  · cases h
    exact .inr rfl
  refine Runs.reaches_cons ⟨trivial, ?_⟩ (Node.step_mint rfl asBinary_mint) ?_
  · exact Option.isSome_iff_exists.mpr ⟨_, asBinary_mint⟩
  refine Runs.reaches_cons ⟨trivial, trivial⟩ rfl ?_
  refine Runs.reaches_cons trivial rfl ?_
  refine Runs.reaches_cons trivial (Node.step_execute rfl rfl rfl decode_ping rfl) ?_
  refine Runs.reaches_cons trivial rfl ?_
  refine Runs.reaches_cons ⟨fun message rest h => ?_, trivial⟩ rfl ?_
  · cases h
    exact .inr ⟨_, rfl⟩
  refine Runs.reaches_cons ⟨trivial, trivial⟩ rfl ?_
  refine Runs.reaches_cons trivial rfl ?_
  refine Runs.reaches_cons ⟨fun message rest h => ?_, trivial⟩ rfl ?_
  · cases h
    exact .inr ⟨_, _, rfl⟩
  refine Runs.reaches_cons ⟨trivial, nofun, fun _ => rfl⟩ rfl ?_
  refine Runs.reaches_cons ⟨trivial, rfl⟩ rfl ?_
  refine Runs.reaches_cons ⟨trivial, rfl⟩ rfl ?_
  refine Runs.reaches_cons ⟨trivial, trivial⟩ rfl ?_
  exact Runs.reaches_nil ⟨rfl, rfl, rfl⟩

theorem applied_settles : ∃ n, n.blocks = [pingBlock] ∧
    Node.Settles applyingConfig (platform []) 0 .empty appliedRun n := by
  have hrun : (Node.run applyingConfig (platform []) 0 (Node.start [] .empty) appliedRun).map
      (fun n => (n.blocks, n.minerCommits, n.applyCommits)) = some ([pingBlock], false, false) := by
    rfl
  obtain ⟨n, hn, hend⟩ := Option.map_eq_some_iff.mp hrun
  obtain ⟨hblocks, hcommits⟩ := Prod.mk.inj hend
  obtain ⟨hminer, hp2p⟩ := Prod.mk.inj hcommits
  refine ⟨n, hblocks, ?_, hn, hminer, hp2p⟩
  refine Runs.meets_cons trivial rfl ?_
  -- up to the result of the native program nothing is asked
  refine Runs.meets_cons trivial rfl ?_
  refine Runs.meets_cons trivial rfl ?_
  refine Runs.meets_cons trivial rfl ?_
  refine Runs.meets_cons trivial rfl ?_
  refine Runs.meets_cons trivial rfl ?_
  refine Runs.meets_cons ⟨rfl, le_refl 0, rfl⟩ rfl ?_
  refine Runs.meets_cons rfl rfl ?_
  refine Runs.meets_cons rfl rfl ?_
  refine Runs.meets_cons rfl rfl ?_
  refine Runs.meets_cons trivial rfl ?_
  refine Runs.meets_cons rfl rfl ?_
  refine Runs.meets_cons trivial rfl ?_
  trivial

/-- Running the transaction reads and writes nothing, on any stores. -/
theorem sound_ping (v₀ : StateMap) :
    Sound (fun key => key.length = 64) (platform []) 0 v₀ [pingBlock] := by
  intro block rest hsuffix v s b hash _ _ _ hprocess
  obtain ⟨rfl, rfl⟩ : block = pingBlock ∧ rest = [] := by
    rcases List.suffix_cons_iff.mp hsuffix with heq | hnil
    · exact List.cons.inj heq
    · cases List.suffix_nil.mp hnil
  have hrun : processTransactions (platform []) 0 s.redis s.rocksdb
      ((existingBlockEnv pingBlock).withHash hash) pingBlock.batch =
        .ok ⟨∅, ∅, [ping.complete (0, .null)], []⟩ := by rfl
  cases hprocess.symm.trans hrun
  refine ⟨⟨?_, by rfl, ⟨nofun, nofun⟩, ?_⟩, nofun⟩
  · intro t ht address htarget
    cases List.mem_singleton.mp ht
    cases htarget
  · intro kind key value hlookup
    cases kind <;> cases hlookup

end Script

open Script in
/-- One node mines a block, another one applies it. -/
theorem replicas_agree_at_ping :
    ∃ n n', n.blocks = [pingBlock] ∧ n'.blocks = [pingBlock] ∧
      Node.Settles miningConfig (platform []) 0 .empty minedRun n ∧
      Node.Settles applyingConfig (platform []) 0 .empty appliedRun n' ∧
      ∀ key : Bytes, key.length = 64 →
        n'.stores.getFromMemory key = n.stores.getFromMemory key ∧
          n'.stores.getFromStorage key = n.stores.getFromStorage key ∧
          ∀ kind, n'.stores.get kind key = n.stores.get kind key := by
  obtain ⟨n, hn, hsettles⟩ := mined_settles
  obtain ⟨n', hn', hsettles'⟩ := applied_settles
  refine ⟨n, n', hn, hn', hsettles, hsettles', fun key hkey => ?_⟩
  have hseparated : Separated fun key => key.length = 64 := by
    intro a b ha hb heq
    rw [heq, List.length_append, hb] at ha
    exact absurd ha (by decide)
  refine Node.replicas_agree hseparated enumerates enumerates ?_ ?_ (stands_empty _)
    (stands_empty _) hsettles hsettles' (hn'.trans hn.symm) ?_ ?_ key hkey
  · exact decode_encode
  · exact decode_encode
  · rw [hn]
    intro block hblock
    cases List.mem_singleton.mp hblock
    exact Nat.two_pow_pos 64
  · rw [hn]
    exact sound_ping _

end Ellipticoind.Ports
