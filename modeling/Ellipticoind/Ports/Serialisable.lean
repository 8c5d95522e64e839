import Ellipticoind.Ports.Rounds

/-!
# Rounds that do not overlap

Mining a block and applying one both read the best block and the state, compute,
and write.  Nothing keeps the two from overlapping but `:stop`, which a round
may receive too late, and which the loop of the miner drops.

They are serialisable as long as each writes what it computed from what it still
finds: nothing was written or stored by the other process since it began to
read.  `Coordinated` says this of the two steps that begin to write, and that no
process fails halfway.

## Main results

* `Serial` — the states of sequential executions of complete rounds.
* `serialisable` — coordinated runs lead to these, between commits, and their
  blocks have distinct numbers at any time.
-/

namespace Ellipticoind.Ports

open Ellipticoind.Verified Ellipticoind.Verified.StateRun

variable {C : NodeConfig} {P : Platform} {fuel : Nat}

/-! ## Sequential executions -/

/-- The chains and states that complete rounds lead to, one after the other: a
mined block runs the transactions it takes in the environment of the best
block, and an applied one its own transactions, both on the state that the
rounds before have left. -/
inductive Serial (C : NodeConfig) (P : Platform) (fuel : Nat) (blocks₀ : List Block)
    (stores₀ : Stores) : List Block → Stores → Prop where
  | start : Serial C P fuel blocks₀ stores₀ blocks₀ stores₀
  | mine {blocks : List Block} {stores stores' : Stores} {ts : List Transaction}
      {mined : Processed} {block : Block} (proofOfWorkValue : Nat)
      (hserial : Serial C P fuel blocks₀ stores₀ blocks stores)
      (hmined : processNewBlock P fuel stores.redis stores.rocksdb (best blocks)
        C.publicKey ts = .ok mined)
      (hblock : block =
        minedBlock C.toNodeLibrary (best blocks) C.publicKey mined proofOfWorkValue)
      (hinsert : C.insert blocks block = .stored)
      (hwrite : stores.writeAll C.toList mined block.number [.memory, .storage] =
        (stores', true)) :
      Serial C P fuel blocks₀ stores₀ (block :: blocks) stores'
  | apply {blocks : List Block} {stores stores' : Stores} {block : Block}
      {processed : Processed} (hserial : Serial C P fuel blocks₀ stores₀ blocks stores)
      (hwork : C.validProofOfWork block = true)
      (hnumber : nextBlockNumber (best blocks) ≤ block.number)
      (hprocess : process C.toNodeLibrary P fuel stores.redis stores.rocksdb block =
        .ok processed)
      (hwrite : stores.writeAll C.toList processed block.number
        [.memory, .storage, .memory, .storage] = (stores', true))
      (hinsert : C.insert blocks block = .stored) :
      Serial C P fuel blocks₀ stores₀ (block :: blocks) stores'

/-- A mined block has the number its transactions were told. -/
theorem minedBlock_number (L : NodeLibrary) (best : Option Block) (publicKey : Bytes)
    (mined : Processed) (proofOfWorkValue : Nat) :
    (minedBlock L best publicKey mined proofOfWorkValue).number =
      (newBlockEnv best publicKey).blockNumber := by
  cases best <;> rfl

/-- A new number is larger than all. -/
theorem number_lt_next {blocks : List Block} {b : Block} (hb : b ∈ blocks) :
    b.number < nextBlockNumber (best blocks) := by
  induction blocks with
  | nil => cases hb
  | cons first rest ih =>
      unfold best
      cases hbest : best rest with
      | none =>
          rcases List.mem_cons.mp hb with rfl | hrest
          · exact Nat.lt_succ_self _
          · have := ih hrest
            rw [hbest] at this
            exact absurd this (Nat.not_lt_zero _)
      | some b' =>
          simp only [hbest, nextBlockNumber] at ih
          rcases List.mem_cons.mp hb with rfl | hrest
          · dsimp only
            split
            · exact Nat.lt_succ_self _
            · simp only [nextBlockNumber]
              omega
          · have := ih hrest
            dsimp only
            split <;> simp only [nextBlockNumber] <;> omega

/-- One more transaction of a batch. -/
theorem processTransactions_append {redis : Redis} {rocksdb : RocksDB} {env : Env}
    {ts : List Transaction} {t : Transaction} {b b' : Processed}
    (h : processTransactions P fuel redis rocksdb env ts = .ok b)
    (hrun : runTransaction P fuel redis rocksdb env b t = .ok b') :
    processTransactions P fuel redis rocksdb env (ts ++ [t]) = .ok b' := by
  unfold processTransactions at h ⊢
  rw [List.foldlM_append, h]
  refine except_bind_eq_ok.mpr ⟨b, rfl, ?_⟩
  rw [List.foldlM_cons]
  exact except_bind_eq_ok.mpr ⟨b', hrun, rfl⟩

namespace Node

/-! ## Coordination -/

/-- The message is one that the miner is ready for, and one of its own round; a port
that it closes is still open. -/
def Expects (n : Node) : Prop :=
  match n.miner with
  | .loop =>
      ∀ message rest, n.mailbox = message :: rest →
        message = .stop ∨ message = .mineNextBlock
  | .receiveNative port =>
      ∀ message rest, receive n.mailbox = some (message, rest) →
        message = .stop ∨ ∃ r, message = .result port r
  | .closeNative port =>
      ∃ native ∈ n.natives, native.port = port ∧ native.connected = true
  | .hashfactor _ _ _ =>
      ∀ message rest, receive n.mailbox = some (message, rest) →
        message = .stop ∨ ∃ port' value, message = .nonce port' value
  | .closeHasher port => ∃ hasher ∈ n.hashers, hasher.port = port
  | _ => True

/-- The miner's step neither fails nor stores a block that was computed from
what the P2P process has changed since. -/
def MinesFresh (C : NodeConfig) (n : Node) : Prop :=
  match n.miner with
  | .mint => (Records.asBinary C.codec (mintRequest C.publicKey).received).isSome
  | .insertBlock block _ =>
      C.insert n.blocks block ≠ .raised ∧
        (C.insert n.blocks block = .stored → n.history.roundFresh = true)
  | .writeChangesets block r (kind :: _) =>
      (n.write C r.processed block.number kind).2 = true
  | _ => True

/-- The step of the P2P process neither fails nor begins to write what was
computed from what the miner has changed since. -/
def AppliesFresh (C : NodeConfig) (n : Node) : Prop :=
  match n.p2p with
  | .writeFirst block processed =>
      n.history.applyFresh = true ∧ nextBlockNumber (best n.blocks) ≤ block.number ∧
        (n.write C processed block.number .memory).2 = true
  | .writeChangesets block processed (kind :: _) =>
      (n.write C processed block.number kind).2 = true
  | .insert block => C.insert n.blocks block = .stored
  | _ => True

/-- Neither process fails, nor acts on what the other has changed. -/
def Coordinated (C : NodeConfig) (n : Node) : Action → Prop
  | .miner => n.Expects ∧ n.MinesFresh C
  | .p2p => n.AppliesFresh C
  | _ => True

/-! ## The invariant -/

/-- The batch has been run for the next block on the present state. -/
def Reads (C : NodeConfig) (P : Platform) (fuel : Nat) (n : Node) (b : Processed) : Prop :=
  ∃ ts, processNewBlock P fuel n.stores.redis n.stores.rocksdb (best n.blocks)
    C.publicKey ts = .ok b

/-- What the miner's round has computed, it has computed from what it would
find now. -/
def RoundReads (C : NodeConfig) (P : Platform) (fuel : Nat) (n : Node) : Prop :=
  match n.miner with
  | .receiveNative port =>
      (∀ native ∈ n.natives, native.port = port →
        native.env = newBlockEnv (best n.blocks) C.publicKey ∧
          n.Reads C P fuel native.processed) ∧
      ∀ a ∈ answers n.mailbox, a.1 = port → n.Reads C P fuel a.2.processed
  | .buildNext r => n.Reads C P fuel r.processed
  | .hashfactor _ newBlock r =>
      n.Reads C P fuel r.processed ∧
        newBlock = Ports.buildNext (best n.blocks) C.publicKey C.emptyHash
          r.processed.transactions
  | .insertBlock block r =>
      n.Reads C P fuel r.processed ∧
        ∃ value, block =
          minedBlock C.toNodeLibrary (best n.blocks) C.publicKey r.processed value
  | _ => True

/-- What the P2P process has computed, it has computed from the given state. -/
def ApplyReads (C : NodeConfig) (P : Platform) (fuel : Nat) (stores : Stores) :
    ApplyPhase → Prop
  | .receiveNative block rest processed =>
      ∃ done, C.decode (C.encode block.transactions) = some (done ++ rest) ∧
        processTransactions P fuel stores.redis stores.rocksdb (existingBlockEnv block)
          done = .ok processed
  | .writeFirst block processed =>
      process C.toNodeLibrary P fuel stores.redis stores.rocksdb block = .ok processed
  | _ => True

/-- The P2P process has begun to read and not begun to write. -/
def computes : ApplyPhase → Bool
  | .receiveNative _ _ _ => true
  | .writeFirst _ _ => true
  | _ => false

/-- The block that has passed the validations and is not being written yet. -/
def validated : ApplyPhase → Option Block
  | .stop block => some block
  | .process block => some block
  | .receiveNative block _ _ => some block
  | .writeFirst block _ => some block
  | _ => none

/-- The block that is being committed, and what is left to write. -/
def committing (C : NodeConfig) : ApplyPhase → Option (Block × (Stores → Stores × Bool))
  | .writeChangesets block processed kinds =>
      some (block, fun s => s.writeAll C.toList processed block.number kinds)
  | .insert block => some (block, fun s => (s, true))
  | _ => none

/-- Between commits the state is that of a sequential execution, and a commit
that has begun leads to another.  Only one process commits at a time. -/
structure Serialised (C : NodeConfig) (P : Platform) (fuel : Nat) (blocks₀ : List Block)
    (stores₀ : Stores) (n : Node) : Prop where
  wired : Wired n
  descending : n.blocks.Pairwise fun b c => c.number < b.number
  idle : n.minerCommits = false → n.applyCommits = false →
    Serial C P fuel blocks₀ stores₀ n.blocks n.stores
  mining : ∀ block r kinds, n.miner = .writeChangesets block r kinds →
    n.applyCommits = false ∧
      ∀ s, n.stores.writeAll C.toList r.processed block.number kinds = (s, true) →
        Serial C P fuel blocks₀ stores₀ n.blocks s
  applying : ∀ block finish, committing C n.p2p = some (block, finish) →
    nextBlockNumber (best n.blocks) ≤ block.number ∧ n.minerCommits = false ∧
      ∀ s, finish n.stores = (s, true) → C.insert n.blocks block = .stored →
        Serial C P fuel blocks₀ stores₀ (block :: n.blocks) s
  valid : ∀ block, validated n.p2p = some block → C.validProofOfWork block = true
  round : n.history.roundFresh = true → n.applyCommits = false ∧ n.RoundReads C P fuel
  apply : n.history.applyFresh = true →
    ApplyReads C P fuel n.stores n.p2p ∧ (computes n.p2p = true → n.minerCommits = false)

variable {blocks₀ : List Block} {stores₀ : Stores}

theorem minerCommits_of_phase {n : Node} {block : Block} {r : RoundResult}
    {kinds : List StateType} (h : n.miner = .writeChangesets block r kinds) :
    n.minerCommits = true := by
  rw [minerCommits, h]

theorem committing_eq_none {n : Node} (h : n.applyCommits = false) :
    committing C n.p2p = none := by
  unfold applyCommits at h
  cases hphase : n.p2p <;> simp_all [committing]

theorem writeAll_of_write {n : Node} {processed : Processed} {blockNumber : Nat}
    {kind : StateType} {kinds : List StateType} {stores : Stores}
    (h : n.write C processed blockNumber kind = (stores, true)) :
    n.stores.writeAll C.toList processed blockNumber (kind :: kinds) =
      stores.writeAll C.toList processed blockNumber kinds := by
  unfold write at h
  rw [Stores.writeAll, h]
  rfl

/-! ## The miner -/

/-- The miner takes a step outside its commit. -/
theorem Serialised.advance {n n' : Node} (h : Serialised C P fuel blocks₀ stores₀ n)
    (hwired : Wired n') (hblocks : n'.blocks = n.blocks) (hstores : n'.stores = n.stores)
    (hp2p : n'.p2p = n.p2p) (hcommits : n.minerCommits = false)
    (hcommits' : n'.minerCommits = false)
    (hfresh : n'.history.applyFresh = n.history.applyFresh)
    (hround : n'.history.roundFresh = true →
      n.applyCommits = false ∧ n'.RoundReads C P fuel) :
    Serialised C P fuel blocks₀ stores₀ n' := by
  have happly : n'.applyCommits = n.applyCommits := by rw [applyCommits, applyCommits, hp2p]
  constructor
  · exact hwired
  · rw [hblocks]
    exact h.descending
  · intro _ hidle
    rw [hblocks, hstores]
    exact h.idle hcommits (happly ▸ hidle)
  · intro block r kinds hphase
    rw [minerCommits_of_phase hphase] at hcommits'
    cases hcommits'
  · rw [hp2p, hblocks, hstores]
    intro block finish hcommitting
    obtain ⟨hnumber, _, hserial⟩ := h.applying block finish hcommitting
    exact ⟨hnumber, hcommits', hserial⟩
  · rw [hp2p]
    exact h.valid
  · rw [happly]
    exact hround
  · rw [hfresh, hstores, hp2p]
    exact fun hfresh => ⟨(h.apply hfresh).1, fun _ => hcommits'⟩

theorem Serialised.closeNative {n : Node} {port : Nat}
    (h : Serialised C P fuel blocks₀ stores₀ n) (hcommits : n.minerCommits = false)
    (hopen : ∃ native ∈ n.natives, native.port = port ∧ native.connected = true) :
    Serialised C P fuel blocks₀ stores₀ (n.closeNative C port) := by
  have hwired : Wired (n.closeNative C port) := h.wired.closeNative
  unfold Node.closeNative at hwired ⊢
  have hany : (n.natives.any fun native => native.port = port ∧ native.connected) = true := by
    obtain ⟨native, hmem, hport⟩ := hopen
    exact List.any_eq_true.mpr ⟨native, hmem, decide_eq_true hport⟩
  rw [if_pos hany] at hwired ⊢
  exact h.advance hwired rfl rfl rfl hcommits rfl rfl
    fun hfresh => ⟨(h.round hfresh).1, trivial⟩

theorem Serialised.closeHasher {n : Node} {port : Nat}
    (h : Serialised C P fuel blocks₀ stores₀ n) (hcommits : n.minerCommits = false)
    (hopen : ∃ hasher ∈ n.hashers, hasher.port = port) :
    Serialised C P fuel blocks₀ stores₀ (n.closeHasher C port) := by
  have hwired : Wired (n.closeHasher C port) := h.wired.closeHasher
  unfold Node.closeHasher at hwired ⊢
  have hany : (n.hashers.any fun hasher => hasher.port = port) = true := by
    obtain ⟨hasher, hmem, hport⟩ := hopen
    exact List.any_eq_true.mpr ⟨hasher, hmem, decide_eq_true hport⟩
  rw [if_pos hany] at hwired ⊢
  exact h.advance hwired rfl rfl rfl hcommits rfl rfl
    fun hfresh => ⟨(h.round hfresh).1, trivial⟩

/-- The miner stores a block that it has computed from what is there. -/
theorem Serialised.store {n : Node} {block : Block} {r : RoundResult}
    (h : Serialised C P fuel blocks₀ stores₀ n) (hphase : n.miner = .insertBlock block r)
    (hinsert : C.insert n.blocks block = .stored)
    (hfresh : n.history.roundFresh = true) :
    Serialised C P fuel blocks₀ stores₀ { n with
      blocks := block :: n.blocks
      miner := .writeChangesets block r [.memory, .storage]
      history := { n.history with
        round := []
        mined := r.entries ++ n.history.mined
        applyFresh := false } } := by
  obtain ⟨happly, hreads⟩ := h.round hfresh
  simp only [RoundReads, hphase] at hreads
  obtain ⟨⟨ts, hmined⟩, value, hblock⟩ := hreads
  have hcommits : n.minerCommits = false := by rw [minerCommits, hphase]
  have hnumber : block.number = nextBlockNumber (best n.blocks) := by
    rw [hblock, minedBlock_number]
    rfl
  constructor
  · exact h.wired.same rfl (List.Sublist.refl _) le_rfl
  · refine List.pairwise_cons.mpr ⟨fun b hb => ?_, h.descending⟩
    rw [hnumber]
    exact number_lt_next hb
  · exact nofun
  · intro block' r' kinds hphase'
    cases hphase'
    exact ⟨happly, fun s hwrite =>
      .mine value (h.idle hcommits happly) hmined hblock hinsert hwrite⟩
  · intro block' finish hcommitting
    cases hcommitting.symm.trans (committing_eq_none happly)
  · exact h.valid
  · exact fun _ => ⟨happly, trivial⟩
  · exact nofun

/-- The miner writes one of its changesets. -/
theorem Serialised.write {n : Node} {block : Block} {r : RoundResult} {kind : StateType}
    {kinds : List StateType} {stores : Stores}
    (h : Serialised C P fuel blocks₀ stores₀ n)
    (hphase : n.miner = .writeChangesets block r (kind :: kinds))
    (hwrite : n.write C r.processed block.number kind = (stores, true)) :
    Serialised C P fuel blocks₀ stores₀ { n with
      stores := stores
      miner := .writeChangesets block r kinds
      history := { n.history with applyFresh := false } } := by
  obtain ⟨happly, hserial⟩ := h.mining _ _ _ hphase
  constructor
  · exact h.wired.same rfl (List.Sublist.refl _) le_rfl
  · exact h.descending
  · exact nofun
  · intro block' r' kinds' hphase'
    cases hphase'
    refine ⟨happly, fun s hrest => hserial s ?_⟩
    rw [writeAll_of_write hwrite]
    exact hrest
  · intro block' finish hcommitting
    cases hcommitting.symm.trans (committing_eq_none happly)
  · exact h.valid
  · exact fun _ => ⟨happly, trivial⟩
  · exact nofun

/-- The miner has written everything. -/
theorem Serialised.written {n : Node} {block : Block} {r : RoundResult}
    (h : Serialised C P fuel blocks₀ stores₀ n)
    (hphase : n.miner = .writeChangesets block r []) :
    Serialised C P fuel blocks₀ stores₀ { n with miner := .castMineNextBlock } := by
  obtain ⟨happly, hserial⟩ := h.mining _ _ _ hphase
  constructor
  · exact h.wired.same rfl (List.Sublist.refl _) le_rfl
  · exact h.descending
  · exact fun _ _ => hserial n.stores rfl
  · exact nofun
  · intro block' finish hcommitting
    cases hcommitting.symm.trans (committing_eq_none happly)
  · exact h.valid
  · exact fun _ => ⟨happly, trivial⟩
  · exact fun hfresh => ⟨(h.apply hfresh).1, fun _ => rfl⟩

theorem serialised_of_minerMove {n n' : Node} (h : Serialised C P fuel blocks₀ stores₀ n)
    (hcond : Coordinated C n .miner) (hmove : MinerMove C n n') :
    Serialised C P fuel blocks₀ stores₀ n' := by
  have hwired := wired_of_minerMove h.wired hmove
  obtain ⟨hexpects, hmines⟩ := hcond
  cases hmove with
  | ignoreStop hphase | startRound hphase | mint hphase =>
      exact h.advance hwired rfl rfl rfl (by rw [minerCommits, hphase])
        (by simp only [minerCommits, hphase]) rfl
        fun hfresh => ⟨(h.round hfresh).1, by simp only [RoundReads, hphase]⟩
  | castMineNextBlock hphase =>
      exact h.advance hwired rfl rfl rfl (by rw [minerCommits, hphase]) rfl rfl
        fun hfresh => ⟨(h.round hfresh).1, trivial⟩
  | mintRaises hphase hentry =>
      simp only [MinesFresh, hphase, hentry, Option.isSome_none] at hmines
      cases hmines
  | strayLine hphase hmail =>
      simp only [Expects, hphase] at hexpects
      obtain ⟨message, rest, hmail, hstop, hmine⟩ := hmail
      exact absurd (hexpects message rest hmail) (by simp [hstop, hmine])
  | openProcessor hphase =>
      refine h.advance hwired rfl rfl rfl (by rw [minerCommits, hphase]) rfl rfl
        fun hfresh => ⟨by simpa using hfresh, ?_, ?_⟩
      · intro native hnative hport
        rcases List.mem_cons.mp hnative with rfl | hnative
        · exact ⟨rfl, [], rfl⟩
        · exact absurd hport (h.wired.opened native hnative).ne
      · intro a ha hport
        exact absurd hport (h.wired.sent a ha).ne
  | stopReceiving hphase | stopHashing hphase =>
      exact h.advance hwired rfl rfl rfl (by rw [minerCommits, hphase]) rfl rfl
        fun hfresh => ⟨(h.round hfresh).1, trivial⟩
  | closeProcessor hphase =>
      simp only [Expects, hphase] at hexpects
      exact h.closeNative (by rw [minerCommits, hphase]) hexpects
  | closeHashfactor hphase =>
      simp only [Expects, hphase] at hexpects
      exact h.closeHasher (by rw [minerCommits, hphase]) hexpects
  | @takeResult port port' r rest hphase hmail =>
      refine h.advance hwired rfl rfl rfl (by rw [minerCommits, hphase]) rfl rfl
        fun hfresh => ?_
      obtain ⟨happly, hreads⟩ := h.round hfresh
      simp only [RoundReads, hphase] at hreads
      simp only [Expects, hphase] at hexpects
      obtain ⟨r', heq⟩ := (hexpects _ _ hmail).resolve_left (by simp)
      cases heq
      refine ⟨happly, hreads.2 (port, r) ?_ rfl⟩
      rw [(receive_spec hmail).2]
      exact List.mem_cons_self
  | wrongLine hphase hmail =>
      simp only [Expects, hphase] at hexpects
      exact absurd (hexpects _ _ hmail) (by simp)
  | buildNext hphase =>
      refine h.advance hwired rfl rfl rfl (by rw [minerCommits, hphase]) rfl rfl
        fun hfresh => ?_
      obtain ⟨happly, hreads⟩ := h.round hfresh
      simp only [RoundReads, hphase] at hreads
      exact ⟨happly, hreads, rfl⟩
  | @takeNonce port port' value newBlock r rest hphase hmail =>
      refine h.advance hwired rfl rfl rfl (by rw [minerCommits, hphase]) rfl rfl
        fun hfresh => ?_
      obtain ⟨happly, hreads⟩ := h.round hfresh
      simp only [RoundReads, hphase] at hreads
      exact ⟨happly, hreads.1, value, by rw [hreads.2]; rfl⟩
  | wrongNonce hphase hmail =>
      simp only [Expects, hphase] at hexpects
      exact absurd (hexpects _ _ hmail) (by simp)
  | store hphase hinsert =>
      simp only [MinesFresh, hphase] at hmines
      exact h.store hphase hinsert (hmines.2 hinsert)
  | refuse hphase hinsert =>
      exact h.advance hwired rfl rfl rfl (by rw [minerCommits, hphase]) rfl rfl
        fun hfresh => ⟨(h.round hfresh).1, trivial⟩
  | insertRaises hphase hinsert =>
      simp only [MinesFresh, hphase] at hmines
      exact absurd hinsert hmines.1
  | written hphase => exact h.written hphase
  | write hphase hwrite => exact h.write hphase hwrite
  | writeRaises hphase hwrite =>
      simp only [MinesFresh, hphase, hwrite] at hmines
      cases hmines

/-! ## The P2P process -/

theorem RoundReads.congr {n n' : Node} (h : n.RoundReads C P fuel)
    (hblocks : n'.blocks = n.blocks) (hstores : n'.stores = n.stores)
    (hminer : n'.miner = n.miner) (hnatives : n'.natives = n.natives)
    (hmail : answers n'.mailbox = answers n.mailbox) : n'.RoundReads C P fuel := by
  unfold RoundReads Reads at h ⊢
  rw [hminer, hnatives, hmail, hblocks, hstores]
  exact h

/-- The P2P process, the router or the network takes a step outside a commit. -/
theorem Serialised.receive {n n' : Node} (h : Serialised C P fuel blocks₀ stores₀ n)
    (hblocks : n'.blocks = n.blocks) (hstores : n'.stores = n.stores)
    (hminer : n'.miner = n.miner) (hnatives : n'.natives = n.natives)
    (hmail : answers n'.mailbox = answers n.mailbox) (hnext : n'.nextPort = n.nextPort)
    (hround : n'.history.roundFresh = n.history.roundFresh)
    (hidle : n.applyCommits = false) (hidle' : n'.applyCommits = false)
    (hvalid : ∀ block, validated n'.p2p = some block → C.validProofOfWork block = true)
    (happly : n'.history.applyFresh = true →
      ApplyReads C P fuel n.stores n'.p2p ∧
        (computes n'.p2p = true → n.minerCommits = false)) :
    Serialised C P fuel blocks₀ stores₀ n' := by
  have hcommits : n'.minerCommits = n.minerCommits := by
    rw [minerCommits, minerCommits, hminer]
  constructor
  · exact h.wired.same hnatives (by rw [hmail]) hnext.ge
  · rw [hblocks]
    exact h.descending
  · rw [hblocks, hstores, hcommits]
    exact fun hidle'' _ => h.idle hidle'' hidle
  · rw [hminer, hblocks, hstores]
    intro block r kinds hphase
    exact ⟨hidle', (h.mining block r kinds hphase).2⟩
  · intro block finish hcommitting
    cases hcommitting.symm.trans (committing_eq_none hidle')
  · exact hvalid
  · rw [hround]
    exact fun hfresh =>
      ⟨hidle', (h.round hfresh).2.congr hblocks hstores hminer hnatives hmail⟩
  · rw [hstores, hcommits]
    exact happly

/-- The P2P process writes its first changeset, computed from what is there. -/
theorem Serialised.writeFirst {n : Node} {block : Block} {processed : Processed}
    {stores : Stores} (h : Serialised C P fuel blocks₀ stores₀ n)
    (hphase : n.p2p = .writeFirst block processed)
    (hfresh : n.history.applyFresh = true)
    (hnumber : nextBlockNumber (best n.blocks) ≤ block.number)
    (hwrite : n.write C processed block.number .memory = (stores, true)) :
    Serialised C P fuel blocks₀ stores₀ { n with
      stores := stores
      p2p := .writeChangesets block processed [.storage, .memory, .storage]
      history := { n.history with roundFresh := false } } := by
  have hreads := h.apply hfresh
  rw [hphase] at hreads
  obtain ⟨hprocess, hcommits⟩ := hreads
  have hidle : n.applyCommits = false := by rw [applyCommits, hphase]
  have hserial := h.idle (hcommits rfl) hidle
  constructor
  · exact h.wired.same rfl (List.Sublist.refl _) le_rfl
  · exact h.descending
  · exact nofun
  · intro block' r kinds hminer
    cases (hcommits rfl).symm.trans (minerCommits_of_phase hminer)
  · intro block' finish hcommitting
    cases hcommitting
    refine ⟨hnumber, hcommits rfl, fun s hrest hinsert => ?_⟩
    refine .apply hserial (h.valid block (by rw [hphase]; rfl)) hnumber hprocess ?_ hinsert
    rw [writeAll_of_write hwrite]
    exact hrest
  · exact nofun
  · exact nofun
  · exact fun _ => ⟨trivial, nofun⟩

/-- The P2P process writes another changeset. -/
theorem Serialised.writeNext {n : Node} {block : Block} {processed : Processed}
    {kind : StateType} {kinds : List StateType} {stores : Stores}
    (h : Serialised C P fuel blocks₀ stores₀ n)
    (hphase : n.p2p = .writeChangesets block processed (kind :: kinds))
    (hwrite : n.write C processed block.number kind = (stores, true)) :
    Serialised C P fuel blocks₀ stores₀ { n with
      stores := stores
      p2p := .writeChangesets block processed kinds
      history := { n.history with roundFresh := false } } := by
  obtain ⟨hnumber, hcommits, hserial⟩ := h.applying _ _ (by rw [hphase]; rfl)
  constructor
  · exact h.wired.same rfl (List.Sublist.refl _) le_rfl
  · exact h.descending
  · exact nofun
  · intro block' r kinds' hminer
    cases hcommits.symm.trans (minerCommits_of_phase hminer)
  · intro block' finish hcommitting
    cases hcommitting
    refine ⟨hnumber, hcommits, fun s hrest => hserial s ?_⟩
    rw [writeAll_of_write hwrite]
    exact hrest
  · exact nofun
  · exact nofun
  · exact fun _ => ⟨trivial, nofun⟩

/-- The P2P process has written everything. -/
theorem Serialised.writtenAll {n : Node} {block : Block} {processed : Processed}
    (h : Serialised C P fuel blocks₀ stores₀ n)
    (hphase : n.p2p = .writeChangesets block processed []) :
    Serialised C P fuel blocks₀ stores₀ { n with p2p := .insert block } := by
  obtain ⟨hnumber, hcommits, hserial⟩ := h.applying _ _ (by rw [hphase]; rfl)
  constructor
  · exact h.wired.same rfl (List.Sublist.refl _) le_rfl
  · exact h.descending
  · exact nofun
  · intro block' r kinds' hminer
    cases hcommits.symm.trans (minerCommits_of_phase hminer)
  · intro block' finish hcommitting
    cases hcommitting
    exact ⟨hnumber, hcommits, hserial⟩
  · exact nofun
  · intro hfresh
    have hidle := (h.round hfresh).1
    rw [applyCommits, hphase] at hidle
    cases hidle
  · exact fun _ => ⟨trivial, nofun⟩

/-- The P2P process stores its block. -/
theorem Serialised.insert {n : Node} {block : Block}
    (h : Serialised C P fuel blocks₀ stores₀ n) (hphase : n.p2p = .insert block)
    (hinsert : C.insert n.blocks block = .stored) :
    Serialised C P fuel blocks₀ stores₀ { n with
      blocks := block :: n.blocks
      p2p := .castMineNextBlock
      history := { n.history with roundFresh := false } } := by
  obtain ⟨hnumber, hcommits, hserial⟩ := h.applying _ _ (by rw [hphase]; rfl)
  constructor
  · exact h.wired.same rfl (List.Sublist.refl _) le_rfl
  · refine List.pairwise_cons.mpr ⟨fun b hb => ?_, h.descending⟩
    exact (number_lt_next hb).trans_le hnumber
  · exact fun _ _ => hserial n.stores rfl hinsert
  · intro block' r kinds' hminer
    cases hcommits.symm.trans (minerCommits_of_phase hminer)
  · exact nofun
  · exact nofun
  · exact nofun
  · exact fun _ => ⟨trivial, nofun⟩

theorem serialised_of_p2pMove {n n' : Node} (h : Serialised C P fuel blocks₀ stores₀ n)
    (hcond : Coordinated C n .p2p) (hmove : P2PMove C P fuel n n') :
    Serialised C P fuel blocks₀ stores₀ n' := by
  have happlies : n.AppliesFresh C := hcond
  cases hmove with
  | post hphase hinbox =>
      have hidle : n.applyCommits = false := by rw [applyCommits, hphase]
      exact h.receive rfl rfl rfl rfl rfl rfl rfl hidle hidle h.valid h.apply
  | accept hphase hinbox hvalid =>
      refine h.receive rfl rfl rfl rfl rfl rfl rfl (by rw [applyCommits, hphase]) rfl
        (fun block' hblock => ?_) (fun _ => ⟨trivial, nofun⟩)
      cases hblock
      exact (Bool.and_eq_true_iff.mp hvalid).1
  | reject hphase hinbox =>
      have hidle : n.applyCommits = false := by rw [applyCommits, hphase]
      exact h.receive rfl rfl rfl rfl rfl rfl rfl hidle hidle h.valid h.apply
  | stopMiner hphase =>
      refine h.receive rfl rfl rfl rfl (by simp) rfl rfl (by rw [applyCommits, hphase]) rfl
        (fun block' hblock => ?_) (fun _ => ⟨trivial, nofun⟩)
      cases hblock
      exact h.valid _ (by rw [hphase]; rfl)
  | openProcessor hphase hdecode =>
      refine h.receive rfl rfl rfl rfl rfl rfl rfl (by rw [applyCommits, hphase]) rfl
        (fun block' hblock => ?_) (fun hfresh => ⟨⟨[], hdecode, rfl⟩, fun _ => ?_⟩)
      · cases hblock
        exact h.valid _ (by rw [hphase]; rfl)
      · simpa using hfresh
  | undecodable hphase =>
      exact h.receive rfl rfl rfl rfl rfl rfl rfl (by rw [applyCommits, hphase]) rfl nofun
        (fun _ => ⟨trivial, nofun⟩)
  | @takeResult block processed hphase =>
      refine h.receive rfl rfl rfl rfl rfl rfl rfl (by rw [applyCommits, hphase]) rfl
        (fun block' hblock => ?_) (fun hfresh => ?_)
      · cases hblock
        exact h.valid _ (by rw [hphase]; rfl)
      · have hreads := h.apply hfresh
        rw [hphase] at hreads
        obtain ⟨⟨done, hdecode, hrun⟩, hcommits⟩ := hreads
        rw [List.append_nil] at hdecode
        refine ⟨except_bind_eq_ok.mpr ⟨done, ?_, hrun⟩, hcommits⟩
        rw [hdecode]
        rfl
  | @execute block t rest processed processed' hphase hrun =>
      refine h.receive rfl rfl rfl rfl rfl rfl rfl (by rw [applyCommits, hphase]) rfl
        (fun block' hblock => ?_) (fun hfresh => ?_)
      · cases hblock
        exact h.valid _ (by rw [hphase]; rfl)
      · have hreads := h.apply hfresh
        rw [hphase] at hreads
        obtain ⟨⟨done, hdecode, hbefore⟩, hcommits⟩ := hreads
        refine ⟨⟨done ++ [t], ?_, processTransactions_append hbefore hrun⟩, hcommits⟩
        rw [List.append_assoc]
        exact hdecode
  | executeDies hphase =>
      exact h.receive rfl rfl rfl rfl rfl rfl rfl (by rw [applyCommits, hphase]) rfl nofun
        (fun _ => ⟨trivial, nofun⟩)
  | writeFirst hphase hwrite =>
      simp only [AppliesFresh, hphase] at happlies
      exact h.writeFirst hphase happlies.1 happlies.2.1 hwrite
  | write hphase hwrite => exact h.writeNext hphase hwrite
  | writeRaises hphase hwrite =>
      rcases hphase with ⟨hphase, rfl⟩ | hphase <;>
        simp [AppliesFresh, hphase, hwrite] at happlies
  | written hphase => exact h.writtenAll hphase
  | store hphase hinsert => exact h.insert hphase hinsert
  | insertRaises hphase hinsert =>
      simp only [AppliesFresh, hphase] at happlies
      exact absurd happlies hinsert
  | castMineNextBlock hphase =>
      exact h.receive rfl rfl rfl rfl (by simp) rfl rfl (by rw [applyCommits, hphase]) rfl
        nofun (fun _ => ⟨trivial, nofun⟩)

/-! ## The native programs -/

theorem Reads.extend {n : Node} {native : Native} {t : Transaction} {b : Processed}
    (h : n.Reads C P fuel native.processed)
    (henv : native.env = newBlockEnv (best n.blocks) C.publicKey)
    (hrun : runTransaction P fuel n.stores.redis n.stores.rocksdb native.env
      native.processed t = .ok b) : n.Reads C P fuel b := by
  obtain ⟨ts, hts⟩ := h
  rw [henv] at hrun
  exact ⟨ts ++ [t], processTransactions_append hts hrun⟩

/-- The programs and the mailbox change, and every program and every answer of
the round still tells what it has read. -/
theorem Serialised.programs {n n' : Node} (h : Serialised C P fuel blocks₀ stores₀ n)
    (hwired : Wired n') (hblocks : n'.blocks = n.blocks) (hstores : n'.stores = n.stores)
    (hminer : n'.miner = n.miner) (hp2p : n'.p2p = n.p2p)
    (hround : n'.history.roundFresh = n.history.roundFresh)
    (happly : n'.history.applyFresh = n.history.applyFresh)
    (hreads : ∀ port, n.miner = .receiveNative port → n.RoundReads C P fuel →
      n'.RoundReads C P fuel) : Serialised C P fuel blocks₀ stores₀ n' := by
  have hcommits : n'.minerCommits = n.minerCommits := by
    rw [minerCommits, minerCommits, hminer]
  have hidle : n'.applyCommits = n.applyCommits := by rw [applyCommits, applyCommits, hp2p]
  constructor
  · exact hwired
  · rw [hblocks]
    exact h.descending
  · rw [hcommits, hidle, hblocks, hstores]
    exact h.idle
  · rw [hminer, hidle, hblocks, hstores]
    exact h.mining
  · rw [hp2p, hcommits, hblocks, hstores]
    exact h.applying
  · rw [hp2p]
    exact h.valid
  · rw [hround, hidle]
    intro hfresh
    obtain ⟨hfree, hbefore⟩ := h.round hfresh
    refine ⟨hfree, ?_⟩
    cases hphase : n.miner with
    | receiveNative port => exact hreads port hphase hbefore
    | _ =>
        unfold RoundReads Reads at hbefore ⊢
        rw [hphase] at hbefore
        rw [hminer, hphase, hblocks, hstores]
        exact hbefore
  · rw [happly, hstores, hp2p, hcommits]
    exact h.apply

theorem serialised_of_nativeMove {n n' : Node} {action : Action}
    (h : Serialised C P fuel blocks₀ stores₀ n)
    (hmove : NativeMove C P fuel n action n') :
    Serialised C P fuel blocks₀ stores₀ n' := by
  have hwired := wired_of_nativeMove h.wired hmove
  cases hmove with
  | @pop before after native queued entry hnatives =>
      refine h.programs hwired rfl rfl rfl rfl rfl rfl fun port hphase hreads => ?_
      simp only [RoundReads, hphase] at hreads ⊢
      refine ⟨fun m hm hport => ?_, hreads.2⟩
      rcases mem_middle.mp hm with rfl | hm
      · exact hreads.1 native (hnatives ▸ mem_middle.mpr (.inl rfl)) hport
      · exact hreads.1 m (hnatives ▸ mem_middle.mpr (.inr hm)) hport
  | @undecodable before after native entry hnatives
  | @executeDies before after native entry t hnatives =>
      refine h.programs hwired rfl rfl rfl rfl rfl rfl fun port hphase hreads => ?_
      simp only [RoundReads, hphase] at hreads ⊢
      refine ⟨fun m hm hport => ?_, hreads.2⟩
      rcases mem_middle.mp hm with rfl | hm
      · exact hreads.1 native (hnatives ▸ mem_middle.mpr (.inl rfl)) hport
      · exact hreads.1 m (hnatives ▸ mem_middle.mpr (.inr hm)) hport
  | @execute before after native entry t processed hnatives hstage hpopped hdecode hrun =>
      refine h.programs hwired rfl rfl rfl rfl rfl rfl fun port hphase hreads => ?_
      simp only [RoundReads, hphase] at hreads ⊢
      refine ⟨fun m hm hport => ?_, hreads.2⟩
      rcases mem_middle.mp hm with rfl | hm
      · obtain ⟨henv, hbefore⟩ :=
          hreads.1 native (hnatives ▸ mem_middle.mpr (.inl rfl)) hport
        exact ⟨henv, hbefore.extend henv hrun⟩
      · exact hreads.1 m (hnatives ▸ mem_middle.mpr (.inr hm)) hport
  | @finish before after native hnatives =>
      refine h.programs hwired rfl rfl rfl rfl rfl rfl fun port hphase hreads => ?_
      simp only [RoundReads, hphase] at hreads ⊢
      have hnative := hreads.1 native (hnatives ▸ mem_middle.mpr (.inl rfl))
      refine ⟨fun m hm hport => ?_, fun a ha hport => ?_⟩
      · rcases mem_middle.mp hm with rfl | hm
        · exact hnative hport
        · exact hreads.1 m (hnatives ▸ mem_middle.mpr (.inr hm)) hport
      · split at ha
        · rcases List.mem_append.mp (answers_append _ _ ▸ ha) with ha | ha
          · exact hreads.2 a ha hport
          · cases List.mem_singleton.mp ha
            exact (hnative hport).2
        · exact hreads.2 a ha hport
  | exit hnatives =>
      refine h.programs hwired rfl rfl rfl rfl rfl rfl fun port hphase hreads => ?_
      simp only [RoundReads, hphase] at hreads ⊢
      exact ⟨fun m hm => hreads.1 m (hnatives ▸ mem_middle.mpr (.inr hm)), hreads.2⟩
  | found =>
      refine h.programs hwired rfl rfl rfl rfl rfl rfl fun port hphase hreads => ?_
      exact hreads.congr rfl rfl rfl rfl (by simp)
  | exitHasher =>
      exact h.programs hwired rfl rfl rfl rfl rfl rfl fun port hphase hreads =>
        hreads.congr rfl rfl rfl rfl rfl

/-! ## Runs -/

theorem serialised_of_step {n n' : Node} {action : Action}
    (h : Serialised C P fuel blocks₀ stores₀ n) (hcond : Coordinated C n action)
    (hstep : n.step C P fuel action = some n') :
    Serialised C P fuel blocks₀ stores₀ n' := by
  cases move_of_step hstep with
  | post | deliver =>
      exact h.programs (h.wired.same rfl (List.Sublist.refl _) le_rfl) rfl rfl rfl rfl rfl
        rfl fun port hphase hreads => hreads.congr rfl rfl rfl rfl rfl
  | refusePost => exact h
  | p2p hmove => exact serialised_of_p2pMove h hcond hmove
  | miner hmove => exact serialised_of_minerMove h hcond hmove
  | native hmove => exact serialised_of_nativeMove h hmove

theorem serialised_start
    (hblocks : blocks₀.Pairwise fun b c => c.number < b.number) :
    Serialised C P fuel blocks₀ stores₀ (start blocks₀ stores₀) where
  wired := wired_start blocks₀ stores₀
  descending := hblocks
  idle _ _ := .start
  mining := nofun
  applying := nofun
  valid := nofun
  round := nofun
  apply := nofun

/-- **Coordinated runs are serialisable.**  No two stored blocks have the same
number, at any time; and whenever no process is within its commit, the blocks
and the state are those of a sequential execution of complete rounds. -/
theorem serialisable {actions : List Action} {n : Node}
    (hblocks : blocks₀.Pairwise fun b c => c.number < b.number)
    (hmeets : Runs.Meets (step C P fuel) (Coordinated C) (start blocks₀ stores₀) actions)
    (hrun : run C P fuel (start blocks₀ stores₀) actions = some n) :
    (n.blocks.map Block.number).Nodup ∧
      (n.minerCommits = false → n.applyCommits = false →
        Serial C P fuel blocks₀ stores₀ n.blocks n.stores) := by
  have h : Serialised C P fuel blocks₀ stores₀ n :=
    Runs.invariant_of_run
      (fun _ _ _ hn hcond hstep => serialised_of_step hn hcond hstep)
      (serialised_start hblocks) hmeets hrun
  exact ⟨List.pairwise_map.mpr (h.descending.imp fun hlt => hlt.ne'), h.idle⟩

/-! ## A block applied while another is mined -/

/-- The P2P process has validated a peer's first block when the miner stores its
own. -/
def overlappingRun : List Action :=
  [ .deliver (.block (Script.peerBlock [])), .p2p, .miner, .miner, .miner, .finish 0
  , .miner, .miner, .found 0 0, .miner, .miner
  , .p2p, .p2p, .p2p, .p2p, .p2p, .p2p, .p2p, .p2p, .p2p ]

/-- Two blocks have the number zero. -/
theorem overlapping_rounds_share_number :
    ¬ ∀ (C : NodeConfig) (P : Platform) (fuel : Nat) (stores : Stores)
      (actions : List Action) (n : Node),
      run C P fuel (start [] stores) actions = some n →
        (n.blocks.map Block.number).Nodup := by
  intro h
  have hrun : (Script.nodeRun overlappingRun).map
      (fun n => n.blocks.map Block.number) = some [0, 0] := by decide +kernel
  obtain ⟨n, hn, hnumbers⟩ := Option.map_eq_some_iff.mp hrun
  have hnodup := h _ _ _ _ _ n hn
  rw [hnumbers] at hnodup
  exact absurd hnodup (by decide)

/-- A round that no peer disturbs. -/
theorem serialisable_at_mined_run :
    ∃ n, Script.nodeRun Script.minedRun = some n ∧
      (n.blocks.map Block.number).Nodup ∧
      Serial Script.nodeConfig (Script.platform []) 0 [] .empty n.blocks n.stores := by
  have hrun : (Script.nodeRun Script.minedRun).map
      (fun n => (n.minerCommits, n.applyCommits)) = some (false, false) := by
    decide +kernel
  obtain ⟨n, hn, hcommits⟩ := Option.map_eq_some_iff.mp hrun
  obtain ⟨hminer, hp2p⟩ := Prod.mk.inj hcommits
  refine ⟨n, hn, (serialisable List.Pairwise.nil ?_ hn).imp_right fun h => h hminer hp2p⟩
  refine Runs.meets_cons trivial (step_post Script.queueEntry_ping) ?_
  refine Runs.meets_cons ⟨fun message rest h => ?_, trivial⟩ rfl ?_
  · cases h
    exact .inr rfl
  refine Runs.meets_cons ⟨trivial, ?_⟩ (step_mint rfl Script.asBinary_mint) ?_
  · exact Option.isSome_iff_exists.mpr ⟨_, Script.asBinary_mint⟩
  refine Runs.meets_cons ⟨trivial, trivial⟩ rfl ?_
  refine Runs.meets_cons trivial rfl ?_
  refine Runs.meets_cons trivial (step_execute rfl rfl rfl Script.decode_ping rfl) ?_
  refine Runs.meets_cons trivial rfl ?_
  refine Runs.meets_cons ⟨fun message rest h => ?_, trivial⟩ rfl ?_
  · cases h
    exact .inr ⟨_, rfl⟩
  refine Runs.meets_cons ⟨trivial, trivial⟩ rfl ?_
  refine Runs.meets_cons trivial rfl ?_
  refine Runs.meets_cons ⟨fun message rest h => ?_, trivial⟩ rfl ?_
  · cases h
    exact .inr ⟨_, _, rfl⟩
  refine Runs.meets_cons ⟨trivial, nofun, fun _ => rfl⟩ rfl ?_
  refine Runs.meets_cons ⟨trivial, rfl⟩ rfl ?_
  refine Runs.meets_cons ⟨trivial, rfl⟩ rfl ?_
  refine Runs.meets_cons ⟨trivial, trivial⟩ rfl ?_
  trivial

end Node

end Ellipticoind.Ports
