import Ellipticoind.Ports.Isolation
import Ellipticoind.Ports.Replicas

/-!
# What a node's life leaves alone

A batch of changes is on its way from a program to the stores: it grows by one
transaction after the other, is printed, waits in the miner's mailbox, is held
by the miner or by `Block.apply`, and is written, once or twice, whole or in
part.  Rounds are stopped and programs are left to themselves in between.

Whatever becomes of the batches, all of them come from transactions that were
run.  So the state of a contract that no transaction has run is what it was when
the node started.

## Main results

* `comes_of_step` — a step makes a batch out of one that was there, or starts an
  empty one.
* `foreign_state_kept` — in every run, the state of contracts other than those
  that ran, and the base token, reads as it did at the start.
-/

namespace Ellipticoind.Ports

open Ellipticoind.Verified

variable {C : NodeConfig} {P : Platform} {fuel : Nat}

/-! ## Batches on their way -/

/-- The batch the miner holds. -/
def MinerPhase.batch : MinerPhase → Option Processed
  | .buildNext r | .hashfactor _ _ r | .insertBlock _ r | .writeChangesets _ r _ =>
      some r.processed
  | _ => none

/-- The batch of the block that is applied. -/
def ApplyPhase.batch : ApplyPhase → Option Processed
  | .receiveNative _ _ b | .writeFirst _ b | .writeChangesets _ b _ => some b
  | _ => none

/-- The block whose changesets the miner is writing. -/
def MinerPhase.written : MinerPhase → Option Block
  | .writeChangesets block _ _ => some block
  | _ => none

/-- The block whose changesets are written as it is applied. -/
def ApplyPhase.written : ApplyPhase → Option Block
  | .writeFirst block _ | .writeChangesets block _ _ => some block
  | _ => none

namespace Node

/-- The batch is with a program, in the mailbox, with the miner or with
`Block.apply`. -/
inductive OnItsWay (n : Node) (b : Processed) : Prop where
  | native {m : Native} (hmem : m ∈ n.natives) (hbatch : m.processed = b)
  | answer {a : Nat × RoundResult} (hmem : a ∈ answers n.mailbox)
      (hbatch : a.2.processed = b)
  | miner (hbatch : n.miner.batch = some b)
  | applied (hbatch : n.p2p.batch = some b)

/-- Where a batch comes from that is on its way after a step. -/
inductive Comes (P : Platform) (fuel : Nat) (n n' : Node) (b : Processed) : Prop where
  | kept (h : OnItsWay n b)
  | started (h : b = .empty)
  | ran {b₀ : Processed} {t : Transaction} {env : Env} (h : OnItsWay n b₀)
      (hrun : runTransaction P fuel n.stores.redis n.stores.rocksdb env b₀ t = .ok b)
      (hexecuted : t ∈ n'.history.executed)

/-- A step that starts no batch and runs nothing. -/
theorem comes_of_parts {n n' : Node}
    (hnatives : ∀ m' ∈ n'.natives, ∃ m ∈ n.natives, m.processed = m'.processed)
    (hmail : ∀ a ∈ answers n'.mailbox, Comes P fuel n n' a.2.processed)
    (hminer : ∀ b, n'.miner.batch = some b → Comes P fuel n n' b)
    (hp2p : ∀ b, n'.p2p.batch = some b → Comes P fuel n n' b) {b : Processed}
    (h : OnItsWay n' b) : Comes P fuel n n' b := by
  cases h with
  | native hmem hbatch =>
      obtain ⟨m, hm, hsame⟩ := hnatives _ hmem
      exact .kept (.native hm (hsame.trans hbatch))
  | answer hmem hbatch => exact hbatch ▸ hmail _ hmem
  | miner hbatch => exact hminer _ hbatch
  | applied hbatch => exact hp2p _ hbatch

/-- A step of the miner. -/
theorem comes_of_miner (n : Node) {n' : Node} {b : Processed} (h : OnItsWay n' b)
    (hnatives : ∀ m' ∈ n'.natives, ∃ m ∈ n.natives, m.processed = m'.processed)
    (hmail : ∀ a ∈ answers n'.mailbox, a ∈ answers n.mailbox)
    (hminer : ∀ b, n'.miner.batch = some b → OnItsWay n b)
    (hp2p : n'.p2p = n.p2p) : Comes P fuel n n' b := by
  refine comes_of_parts hnatives (fun a ha => .kept (.answer (hmail a ha) rfl))
    (fun b hb => .kept (hminer b hb)) (fun b hb => .kept (.applied ?_)) h
  rwa [← hp2p]

/-- A restart of the miner drops what it holds. -/
theorem comes_restart (n : Node) {m : Node} {b : Processed} (h : OnItsWay (m.restart C) b)
    (hnatives : m.natives = n.natives) (hp2p : m.p2p = n.p2p) :
    Comes P fuel n (m.restart C) b := by
  refine comes_of_miner n h (fun m' hm' => ?_) (fun a ha => ?_) (fun b hb => ?_) hp2p
  · obtain ⟨native, hmem, rfl⟩ := List.mem_map.mp hm'
    exact ⟨native, hnatives ▸ hmem, rfl⟩
  · cases ha
  · cases hb

theorem comes_closeNative {n : Node} {port : Nat} {b : Processed}
    (h : OnItsWay (n.closeNative C port) b) : Comes P fuel n (n.closeNative C port) b := by
  unfold closeNative at h ⊢
  split at h
  · rename_i hany
    rw [if_pos hany]
    refine comes_of_miner n h (fun m' hm' => ?_) (fun _ ha => ha) (fun b hb => ?_) rfl
    · obtain ⟨native, hmem, rfl⟩ := List.mem_map.mp hm'
      refine ⟨native, hmem, ?_⟩
      split <;> rfl
    · cases hb
  · rename_i hany
    rw [if_neg hany]
    exact comes_restart n h rfl rfl

theorem comes_closeHasher {n : Node} {port : Nat} {b : Processed}
    (h : OnItsWay (n.closeHasher C port) b) : Comes P fuel n (n.closeHasher C port) b := by
  unfold closeHasher at h ⊢
  split at h
  · rename_i hany
    rw [if_pos hany]
    exact comes_of_miner n h (fun m' hm' => ⟨m', hm', rfl⟩) (fun _ ha => ha)
      (fun b hb => nomatch hb) rfl
  · rename_i hany
    rw [if_neg hany]
    exact comes_restart n h rfl rfl

theorem comes_of_minerMove {n n' : Node} (hmove : MinerMove C n n') {b : Processed}
    (h : OnItsWay n' b) : Comes P fuel n n' b := by
  have hrest {message : Message} {rest : List Message}
      (hmail : receive n.mailbox = some (message, rest)) (a : Nat × RoundResult)
      (ha : a ∈ answers rest) : a ∈ answers n.mailbox := by
    rw [(receive_spec hmail).2]
    exact List.mem_append_right _ ha
  have hsame (m : Native) (hm : m ∈ n.natives) :
      ∃ m' ∈ n.natives, m'.processed = m.processed := ⟨m, hm, rfl⟩
  cases hmove with
  | ignoreStop hphase hmail =>
      refine comes_of_miner n h hsame (fun a ha => by rwa [hmail]) (fun b hb => ?_) rfl
      exact .miner hb
  | startRound hphase hmail =>
      exact comes_of_miner n h hsame (fun a ha => by rwa [hmail]) (fun b hb => nomatch hb) rfl
  | strayLine | wrongLine | wrongNonce | insertRaises | mintRaises | writeRaises =>
      exact comes_restart n h rfl rfl
  | mint | refuse | written =>
      exact comes_of_miner n h hsame (fun a ha => ha) (fun b hb => nomatch hb) rfl
  | openProcessor hphase =>
      cases h with
      | native hmem hbatch =>
          rcases List.mem_cons.mp hmem with rfl | hmem
          · exact .started hbatch.symm
          · exact .kept (.native hmem hbatch)
      | answer hmem hbatch => exact .kept (.answer hmem hbatch)
      | miner hbatch => cases hbatch
      | applied hbatch => exact .kept (.applied hbatch)
  | closeProcessor => exact comes_closeNative h
  | closeHashfactor => exact comes_closeHasher h
  | stopReceiving hphase hmail | stopHashing hphase hmail =>
      exact comes_of_miner n h hsame (hrest hmail) (fun b hb => nomatch hb) rfl
  | @takeResult port port' r rest hphase hmail =>
      refine comes_of_miner n h hsame (hrest hmail) (fun b hb => ?_) rfl
      cases hb
      refine .answer (a := (port', r)) ?_ rfl
      rw [(receive_spec hmail).2]
      exact List.mem_cons_self
  | buildNext hphase | store hphase hinsert | write hphase hwrite =>
      refine comes_of_miner n h hsame (fun a ha => ha) (fun b hb => .miner ?_) rfl
      rw [hphase]
      exact hb
  | takeNonce hphase hmail =>
      refine comes_of_miner n h hsame (hrest hmail) (fun b hb => .miner ?_) rfl
      rw [hphase]
      exact hb
  | castMineNextBlock hphase =>
      refine comes_of_miner n h hsame (fun a ha => ?_) (fun b hb => nomatch hb) rfl
      rw [answers_append] at ha
      simpa using ha

/-- A step of the P2P process. -/
theorem comes_of_apply (n : Node) {n' : Node} {b : Processed} (h : OnItsWay n' b)
    (hnatives : n'.natives = n.natives)
    (hmail : answers n'.mailbox = answers n.mailbox) (hminer : n'.miner = n.miner)
    (hp2p : ∀ b, n'.p2p.batch = some b → Comes P fuel n n' b) : Comes P fuel n n' b := by
  refine comes_of_parts (fun m hm => ⟨m, hnatives ▸ hm, rfl⟩)
    (fun a ha => .kept (.answer (hmail ▸ ha) rfl)) (fun b hb => .kept (.miner ?_)) hp2p h
  rwa [← hminer]

theorem comes_of_p2pMove {n n' : Node} (hmove : P2PMove C P fuel n n') {b : Processed}
    (h : OnItsWay n' b) : Comes P fuel n n' b := by
  cases hmove with
  | post hphase | reject hphase =>
      exact comes_of_apply n h rfl rfl rfl fun b hb => .kept (.applied hb)
  | accept | undecodable | executeDies | written | store | writeRaises | insertRaises =>
      exact comes_of_apply n h rfl rfl rfl fun b hb => nomatch hb
  | stopMiner | castMineNextBlock =>
      exact comes_of_apply n h rfl (by simp) rfl fun b hb => nomatch hb
  | openProcessor hphase =>
      refine comes_of_apply n h rfl rfl rfl fun b hb => .started ?_
      cases hb
      rfl
  | takeResult hphase | writeFirst hphase | write hphase =>
      refine comes_of_apply n h rfl rfl rfl fun b hb => .kept (.applied ?_)
      rw [hphase]
      exact hb
  | execute hphase hrun =>
      refine comes_of_apply n h rfl rfl rfl fun b hb => ?_
      cases hb
      exact .ran (.applied (by rw [hphase]; rfl)) hrun List.mem_cons_self

/-- One program goes on, with the batch it had or another one. -/
theorem comes_of_update (n : Node) {n' : Node} {b : Processed} (h : OnItsWay n' b)
    {before after : List Native} {native native' : Native}
    (hnatives : n.natives = before ++ (native :: after))
    (hnatives' : n'.natives = before ++ (native' :: after))
    (hnative : Comes P fuel n n' native'.processed)
    (hmail : ∀ a ∈ answers n'.mailbox, a ∈ answers n.mailbox ∨ a.2.processed = native.processed)
    (hminer : n'.miner = n.miner) (hp2p : n'.p2p = n.p2p) : Comes P fuel n n' b := by
  have hmem : native ∈ n.natives := by rw [hnatives]; simp
  cases h with
  | native hm hbatch =>
      rw [hnatives'] at hm
      rcases List.mem_append.mp hm with hm | hm
      · exact .kept (.native (by rw [hnatives]; exact List.mem_append_left _ hm) hbatch)
      rcases List.mem_cons.mp hm with rfl | hm
      · exact hbatch ▸ hnative
      · refine .kept (.native ?_ hbatch)
        rw [hnatives]
        exact List.mem_append_right _ (List.mem_cons_of_mem _ hm)
  | answer ha hbatch =>
      rcases hmail _ ha with ha | hsame
      · exact .kept (.answer ha hbatch)
      · exact .kept (.native hmem (hsame.symm.trans hbatch))
  | miner hbatch => exact .kept (.miner (hminer ▸ hbatch))
  | applied hbatch => exact .kept (.applied (hp2p ▸ hbatch))

theorem comes_of_nativeMove {n n' : Node} {action : Action}
    (hmove : NativeMove C P fuel n action n') {b : Processed} (h : OnItsWay n' b) :
    Comes P fuel n n' b := by
  have hsame {before after : List Native} {native : Native}
      (hnatives : n.natives = before ++ (native :: after)) :
      OnItsWay n native.processed := .native (by rw [hnatives]; simp) rfl
  cases hmove with
  | pop hnatives | undecodable hnatives | executeDies hnatives =>
      have hkept := hsame hnatives
      exact comes_of_update n h hnatives rfl (.kept hkept) (fun a ha => .inl ha) rfl rfl
  | execute hnatives hstage hpopped hdecode hrun =>
      exact comes_of_update n h hnatives rfl
        (.ran (hsame hnatives) hrun List.mem_cons_self) (fun a ha => .inl ha) rfl rfl
  | @finish before after native hnatives hstage hpopped =>
      have hkept := hsame hnatives
      refine comes_of_update n h hnatives rfl (.kept hkept) (fun a ha => ?_) rfl rfl
      by_cases hconnected : native.connected = true
      · simp only [hconnected, if_true, answers_append, List.mem_append] at ha
        refine ha.imp_right fun ha => ?_
        rw [List.mem_singleton.mp ha]
      · simp only [hconnected] at ha
        exact .inl ha
  | @exit before after native hnatives hstage =>
      refine comes_of_miner n h (fun m hm => ⟨m, ?_, rfl⟩) (fun a ha => ha)
        (fun b hb => .miner hb) rfl
      rw [hnatives]
      exact ((List.sublist_cons_self _ _).append_left _).subset hm
  | found =>
      refine comes_of_miner n h (fun m hm => ⟨m, hm, rfl⟩) (fun a ha => ?_)
        (fun b hb => .miner hb) rfl
      simpa using ha
  | exitHasher =>
      exact comes_of_miner n h (fun m hm => ⟨m, hm, rfl⟩) (fun a ha => ha)
        (fun b hb => .miner hb) rfl

/-- A step makes a batch out of one that was there, or starts an empty one. -/
theorem comes_of_step {n n' : Node} {action : Action}
    (hstep : n.step C P fuel action = some n') {b : Processed} (h : OnItsWay n' b) :
    Comes P fuel n n' b := by
  cases move_of_step hstep with
  | post | refusePost | deliver =>
      exact comes_of_miner n h (fun m hm => ⟨m, hm, rfl⟩) (fun a ha => ha)
        (fun b hb => .miner hb) rfl
  | p2p hmove => exact comes_of_p2pMove hmove h
  | miner hmove => exact comes_of_minerMove hmove h
  | native hmove => exact comes_of_nativeMove hmove h

/-! ## Writes to the stores -/

/-- `SystemContracts.deploy`, as a miner that starts again does it. -/
def deploy (C : NodeConfig) (s : Stores) : Stores :=
  match s.storageSet 0 (rightPadVec SystemContracts.baseTokenAddress 64 0)
    C.baseTokenCode with
  | .ok stores => stores
  | .error _ => s

/-- What a step may leave in the stores. -/
inductive StoresFrom (C : NodeConfig) (n : Node) : Stores → Prop where
  | same : StoresFrom C n n.stores
  | written {b : Processed} {block : Block} {kind : StateType} (hbatch : OnItsWay n b)
      (hblock : n.miner.written = some block ∨ n.p2p.written = some block) :
      StoresFrom C n (n.write C b block.number kind).1
  | deployed {s : Stores} (h : StoresFrom C n s) : StoresFrom C n (deploy C s)

theorem stores_of_minerMove {n n' : Node} (hmove : MinerMove C n n') :
    StoresFrom C n n'.stores := by
  cases hmove with
  | strayLine | wrongLine | wrongNonce | insertRaises | mintRaises => exact .deployed .same
  | closeProcessor =>
      unfold closeNative
      split
      · exact .same
      · exact .deployed .same
  | closeHashfactor =>
      unfold closeHasher
      split
      · exact .same
      · exact .deployed .same
  | @write block r kind kinds stores hphase hwrite =>
      have hwritten : StoresFrom C n (n.write C r.processed block.number kind).1 :=
        .written (.miner (congrArg MinerPhase.batch hphase))
          (.inl (congrArg MinerPhase.written hphase))
      rwa [hwrite] at hwritten
  | @writeRaises block r kind kinds stores hphase hwrite =>
      have hwritten : StoresFrom C n (n.write C r.processed block.number kind).1 :=
        .written (.miner (congrArg MinerPhase.batch hphase))
          (.inl (congrArg MinerPhase.written hphase))
      rw [hwrite] at hwritten
      exact .deployed hwritten
  | _ => exact .same

theorem stores_of_p2pMove {n n' : Node} (hmove : P2PMove C P fuel n n') :
    StoresFrom C n n'.stores := by
  cases hmove with
  | @writeFirst block b stores hphase hwrite =>
      have hwritten : StoresFrom C n (n.write C b block.number .memory).1 :=
        .written (.applied (congrArg ApplyPhase.batch hphase))
          (.inr (congrArg ApplyPhase.written hphase))
      rwa [hwrite] at hwritten
  | @write block b kind kinds stores hphase hwrite =>
      have hwritten : StoresFrom C n (n.write C b block.number kind).1 :=
        .written (.applied (congrArg ApplyPhase.batch hphase))
          (.inr (congrArg ApplyPhase.written hphase))
      rwa [hwrite] at hwritten
  | @writeRaises block b kind kinds stores hphase hwrite =>
      have hheld : n.p2p.batch = some b ∧ n.p2p.written = some block := by
        rcases hphase with ⟨hphase, -⟩ | hphase
        all_goals
          rw [hphase]
          exact ⟨rfl, rfl⟩
      have hwritten : StoresFrom C n (n.write C b block.number kind).1 :=
        .written (.applied hheld.1) (.inr hheld.2)
      rwa [hwrite] at hwritten
  | _ => exact .same

/-- The stores are written from batches that are on their way, or the system
contracts are deployed. -/
theorem stores_of_step {n n' : Node} {action : Action}
    (hstep : n.step C P fuel action = some n') : StoresFrom C n n'.stores := by
  cases move_of_step hstep with
  | post | refusePost | deliver => exact .same
  | p2p hmove => exact stores_of_p2pMove hmove
  | miner hmove => exact stores_of_minerMove hmove
  | native hmove => cases hmove <;> exact .same

/-! ## The contracts that run -/

/-- The transactions run contracts of the set, these call contracts of the set,
the keys they write are of `K`, and a block that is written has a 64-bit number. -/
structure StaysIn (contracts K : Bytes → Prop) (n : Node) : Prop where
  targets : ∀ t ∈ n.history.executed, ∀ c, t.target = some c → contracts c
  called : ∀ b, OnItsWay n b → ∀ c, .called c ∈ b.trace → contracts c
  keys : ∀ b, OnItsWay n b → ∀ kind key value,
    (b.changeset kind).lookup key = some value → K key
  numbers : ∀ block, n.miner.written = some block ∨ n.p2p.written = some block →
    block.number < 2 ^ 64

/-- No batch has an entry for the key of a contract outside of the set, and the
stores stand for a map that is as it was there. -/
structure Untouched (contracts K : Bytes → Prop) (v₀ : StateMap) (n : Node) : Prop where
  staysIn : StaysIn contracts K n
  clean : ∀ b, OnItsWay n b → ∀ kind key, Outside contracts key →
    (b.changeset kind).lookup key = none
  stands : ∃ v, Stands K n.stores v ∧
    ∀ kind key, Outside contracts key → v kind key = v₀ kind key

section Run

variable {contracts K : Bytes → Prop} {v₀ : StateMap} (hK : Separated K)
  (hlist : Enumerates C.toList) (htoken : contracts SystemContracts.baseTokenAddress)
  (hcode : K (codeSlot SystemContracts.baseTokenAddress))

include htoken in
theorem clean_of_step {n n' : Node} {action : Action} (h : Untouched contracts K v₀ n)
    (hstays : StaysIn contracts K n') (hstep : n.step C P fuel action = some n')
    {b : Processed} (hb : OnItsWay n' b) {kind : StateType} {key : Bytes}
    (houtside : Outside contracts key) : (b.changeset kind).lookup key = none := by
  cases comes_of_step hstep hb with
  | kept hkept => exact h.clean b hkept kind key houtside
  | started hempty =>
      rw [hempty]
      cases kind <;> rfl
  | ran hkept hrun hexecuted =>
      obtain ⟨hmemory, hstorage⟩ := runTransaction_keeps hrun (hstays.targets _ hexecuted)
        htoken (hstays.called b hb) houtside
      have hclean := h.clean _ hkept kind key houtside
      cases kind with
      | memory => exact hmemory.trans hclean
      | storage => exact hstorage.trans hclean

include hK hlist htoken hcode in
theorem stands_of_storesFrom {n : Node} (h : Untouched contracts K v₀ n) {s : Stores}
    (hs : StoresFrom C n s) :
    ∃ v, Stands K s v ∧ ∀ kind key, Outside contracts key → v kind key = v₀ kind key := by
  induction hs with
  | same => exact h.stands
  | @written b block kind hbatch hblock =>
      obtain ⟨v, hv, hsame⟩ := h.stands
      have hkeys : ∀ e ∈ C.toList (b.changeset kind), K e.1 := fun e he =>
        h.staysIn.keys b hbatch kind e.1 e.2 ((hlist _ _ _).mp he)
      obtain ⟨s, hwrite, hs⟩ :=
        stands_writeEach hK hv kind hkeys (h.staysIn.numbers block hblock)
      rw [foldl_toList hlist] at hs
      refine ⟨v.writeKinds b [kind], ?_, fun kind' key houtside => ?_⟩
      · rw [Node.write, hwrite]
        exact hs
      · unfold StateMap.writeKinds StateMap.write
        rw [h.clean b hbatch kind' key houtside, Option.none_or, ite_self]
        exact hsame kind' key houtside
  | @deployed s hs ih =>
      obtain ⟨v, hv, hsame⟩ := ih
      obtain ⟨s', hset, hs'⟩ :=
        stands_storageSet hK hv hcode (Nat.two_pow_pos 64) C.baseTokenCode
      have hdeploy : deploy C s = s' := by
        rw [codeSlot] at hset
        rw [deploy, hset]
      refine ⟨_, hdeploy ▸ hs', fun kind key houtside => ?_⟩
      · rw [StateMap.update, if_neg]
        · exact hsame kind key houtside
        · rintro ⟨-, rfl⟩
          exact houtside _ htoken [] (by rw [slot, List.append_nil])

include hK hlist htoken hcode in
theorem untouched_of_step {n n' : Node} {action : Action} (h : Untouched contracts K v₀ n)
    (hstays : StaysIn contracts K n') (hstep : n.step C P fuel action = some n') :
    Untouched contracts K v₀ n' where
  staysIn := hstays
  clean _ hb _ _ houtside := clean_of_step htoken h hstays hstep hb houtside
  stands := stands_of_storesFrom hK hlist htoken hcode h (stores_of_step hstep)

theorem untouched_start {blocks : List Block} {stores : Stores} (hstart : Stands K stores v₀) :
    Untouched contracts K v₀ (start blocks stores) := by
  have hnone (b : Processed) (h : OnItsWay (start blocks stores) b) : False := by
    cases h with
    | native hmem => cases hmem
    | answer hmem => cases hmem
    | miner hbatch => cases hbatch
    | applied hbatch => cases hbatch
  refine ⟨⟨fun t ht => (nomatch ht), fun b hb => (hnone b hb).elim,
    fun b hb => (hnone b hb).elim, fun block hblock => ?_⟩, fun b hb => (hnone b hb).elim,
    v₀, hstart, fun _ _ _ => rfl⟩
  rcases hblock with hblock | hblock <;> cases hblock

end Run

/-- **The state of contracts that never ran is what it was.**  Whatever is posted, mined,
applied, stopped or started again, and in whatever order the processes move, a key that
begins with no padded address of a contract that ran reads as it did at the start. -/
theorem foreign_state_kept {contracts K : Bytes → Prop} {v₀ : StateMap} {blocks : List Block}
    {stores : Stores} {actions : List Action} {n : Node} (hK : Separated K)
    (hlist : Enumerates C.toList) (htoken : contracts SystemContracts.baseTokenAddress)
    (hcode : K (codeSlot SystemContracts.baseTokenAddress)) (hstart : Stands K stores v₀)
    (hmeets : Runs.Meets (step C P fuel)
      (fun m action => ∀ m', m.step C P fuel action = some m' → StaysIn contracts K m')
      (start blocks stores) actions)
    (hrun : run C P fuel (start blocks stores) actions = some n) {key : Bytes} (hkey : K key)
    (houtside : ∀ address, contracts address → ¬ codeSlot address <+: key) :
    n.stores.getFromMemory key = stores.getFromMemory key ∧
      n.stores.getFromStorage key = stores.getFromStorage key ∧
      ∀ kind, n.stores.get kind key = stores.get kind key := by
  have huntouched : Untouched contracts K v₀ n :=
    Runs.invariant_of_run
      (fun m action m' hm hcond hstep =>
        untouched_of_step hK hlist htoken hcode hm (hcond m' hstep) hstep)
      (untouched_start hstart) hmeets hrun
  obtain ⟨v, hs, hsame⟩ := huntouched.stands
  have hvalue (kind : StateType) : v kind key = v₀ kind key :=
    hsame kind key (outside_iff.mpr houtside)
  obtain ⟨hmemory, hstorage⟩ := native_of_stands hs hkey
  obtain ⟨hmemory₀, hstorage₀⟩ := native_of_stands hstart hkey
  refine ⟨?_, ?_, fun kind => ?_⟩
  · rw [hmemory, hmemory₀, hvalue]
  · rw [hstorage, hstorage₀, hvalue]
  · rw [get_of_stands hs kind hkey, get_of_stands hstart kind hkey, hvalue]

end Node

/-! ## A run of system calls -/

namespace Script

open Node

/-- No batch on its way has an entry or has called a contract. -/
def Quiet (n : Node) : Prop :=
  ∀ b, OnItsWay n b → b.memoryChangeset = ∅ ∧ b.storageChangeset = ∅ ∧ b.trace = []

/-- Only `ping` is run, and no block with a number beyond 64 bits is written. -/
def onlyPings (n : Node) : Bool :=
  (n.history.executed.all fun t => is ping t) &&
    (n.miner.written.toList ++ n.p2p.written.toList).all fun block => block.number < 2 ^ 64

/-- Every state that the run passes is as the check says. -/
def passes (check : Node → Bool) : Node → List Action → Bool
  | _, [] => true
  | n, action :: rest =>
      match n.step miningConfig (platform []) 0 action with
      | none => true
      | some n' => check n' && passes check n' rest

theorem quiet_of_step {n n' : Node} {action : Action} (h : Quiet n)
    (hpings : onlyPings n' = true)
    (hstep : n.step miningConfig (platform []) 0 action = some n') : Quiet n' := by
  intro b hb
  cases comes_of_step hstep hb with
  | kept hkept => exact h b hkept
  | started hempty =>
      rw [hempty]
      exact ⟨rfl, rfl, rfl⟩
  | @ran b₀ t env hkept hrun hexecuted =>
      have hping : t = ping := by
        have hall := (Bool.and_eq_true_iff.mp hpings).1
        exact eq_of_is rfl (List.all_eq_true.mp hall t hexecuted)
      subst hping
      obtain ⟨hmemory, hstorage, htrace⟩ := h b₀ hkept
      obtain ⟨o, ho, hb⟩ := StateRun.except_bind_eq_ok.mp hrun
      cases hb
      have hignored : runOutcome (platform []) 0 n.stores.redis n.stores.rocksdb ping env
          b₀.memoryChangeset b₀.storageChangeset = .ok SystemContracts.ignored := by rfl
      cases ho.symm.trans hignored
      refine ⟨?_, ?_, ?_⟩
      · show ∅ ∪ b₀.memoryChangeset = ∅
        rw [hmemory, Finmap.empty_union]
      · show ∅ ∪ b₀.storageChangeset = ∅
        rw [hstorage, Finmap.empty_union]
      · show b₀.trace ++ [] = []
        rw [htrace, List.append_nil]

theorem staysIn_of_quiet {contracts K : Bytes → Prop} {n : Node} (h : Quiet n)
    (hpings : onlyPings n = true) : StaysIn contracts K n := by
  obtain ⟨hexecuted, hnumbers⟩ := Bool.and_eq_true_iff.mp hpings
  refine ⟨fun t ht c hc => ?_, fun b hb c hc => ?_, fun b hb kind key value hlookup => ?_,
    fun block hblock => ?_⟩
  · rw [eq_of_is rfl (List.all_eq_true.mp hexecuted t ht)] at hc
    cases hc
  · rw [(h b hb).2.2] at hc
    cases hc
  · obtain ⟨hmemory, hstorage, -⟩ := h b hb
    cases kind with
    | memory =>
        rw [Processed.changeset, hmemory] at hlookup
        cases hlookup
    | storage =>
        rw [Processed.changeset, hstorage] at hlookup
        cases hlookup
  · refine of_decide_eq_true (List.all_eq_true.mp hnumbers block ?_)
    rcases hblock with hblock | hblock <;> simp [hblock]

theorem meets_of_passes {contracts K : Bytes → Prop} {actions : List Action} {n : Node}
    (h : Quiet n) (hpasses : passes onlyPings n actions = true) :
    Runs.Meets (step miningConfig (platform []) 0)
      (fun m action => ∀ m', m.step miningConfig (platform []) 0 action = some m' →
        StaysIn contracts K m') n actions := by
  induction actions generalizing n with
  | nil => trivial
  | cons action rest ih =>
      rw [passes] at hpasses
      have hnext (n' : Node)
          (hstep : n.step miningConfig (platform []) 0 action = some n') :
          Quiet n' ∧ onlyPings n' = true ∧ passes onlyPings n' rest = true := by
        rw [hstep] at hpasses
        obtain ⟨hpings, hrest⟩ := Bool.and_eq_true_iff.mp hpasses
        exact ⟨quiet_of_step h hpings hstep, hpings, hrest⟩
      refine ⟨fun n' hstep => ?_, fun n' hstep => ?_⟩
      · exact staysIn_of_quiet (hnext n' hstep).1 (hnext n' hstep).2.1
      · exact ih (hnext n' hstep).1 (hnext n' hstep).2.2

/-- A block is mined; a peer's block stops the next round, whose result comes
nevertheless and makes the miner start again, while the block is applied. -/
def restartedRun : List Action :=
  minedRun ++ [ .miner, .miner, .miner, .miner
  , .deliver (.block { pingBlock with number := 1, hash := [3] })
  , .p2p, .p2p, .finish 0, .miner, .miner ] ++ List.replicate 9 .p2p

/-- The base token alone. -/
def OnlyToken (address : Bytes) : Prop := address = SystemContracts.baseTokenAddress

/-- Stores with the code of one contract. -/
def codeStores : Stores :=
  match Stores.empty.storageSet 0 (codeSlot [66]) [1] with
  | .ok stores => stores
  | .error _ => .empty

theorem passes_restartedRun : passes onlyPings (start [] codeStores) restartedRun = true := by
  decide +kernel

end Script

open Script in
/-- A contract's code stays where it was deployed. -/
theorem foreign_state_kept_at_restarted_run :
    ∃ n, Node.run miningConfig (platform []) 0 (Node.start [] codeStores) restartedRun =
        some n ∧ n.blocks.length = 2 ∧
      codeStores.getFromStorage (codeSlot [66]) = some [1] ∧
      n.stores.getFromStorage (codeSlot [66]) = some [1] := by
  have hseparated : Separated fun key => key.length = 64 := by
    intro a b ha hb heq
    rw [heq, List.length_append, hb] at ha
    exact absurd ha (by decide)
  have hlength : (codeSlot [66]).length = 64 := by decide
  obtain ⟨stores, hset, hstart⟩ :=
    stands_storageSet hseparated (stands_empty _) hlength (Nat.two_pow_pos 64) [1]
  have hstores : stores = codeStores := by
    rw [codeStores, hset]
  rw [hstores] at hstart
  have hcode : codeStores.getFromStorage (codeSlot [66]) = some [1] := by
    rw [(native_of_stands hstart hlength).2, StateMap.update, if_pos ⟨rfl, rfl⟩]
    rfl
  have hrun : (Node.run miningConfig (platform []) 0 (Node.start [] codeStores)
      restartedRun).map (fun n => n.blocks.length) = some 2 := by decide +kernel
  obtain ⟨n, hn, hblocks⟩ := Option.map_eq_some_iff.mp hrun
  have hquiet : Quiet (Node.start [] codeStores) := by
    intro b hb
    cases hb with
    | native hmem => cases hmem
    | answer hmem => cases hmem
    | miner hbatch => cases hbatch
    | applied hbatch => cases hbatch
  have htoken : OnlyToken SystemContracts.baseTokenAddress := rfl
  have houtside (address : Bytes) (h : OnlyToken address) :
      ¬ codeSlot address <+: codeSlot [66] := by
    rw [h]
    decide
  have hkept := Node.foreign_state_kept hseparated enumerates htoken (by decide) hstart
    (meets_of_passes hquiet passes_restartedRun) hn hlength houtside
  exact ⟨n, hn, hblocks, hcode, hkept.2.1.trans hcode⟩

end Ellipticoind.Ports
