import Ellipticoind.Ports.NoneLost

/-!
# The order of the queue

`LPUSH` puts an entry in front of the queue and `RPOPLPUSH` takes the last one,
so entries leave in the order they came.  A program works on what it takes one
entry after the other and appends each to what it has completed, and a block is
built from that list.  Several programs may take entries by turns, when rounds
were stopped, and a round without a block loses its own.  The transactions of
one block nevertheless stand in the order they were queued in, and where the
rounds keep what they have taken, so do those of the whole chain.

## Main results

* `inserted_in_order` — in every run, a block that is about to be inserted has
  transactions of the queue in the order they were pushed.
* `chain_in_order` — in every run whose rounds keep what they have taken, the
  mined blocks, the round and the queue are all that was pushed, in that order.
-/

namespace Ellipticoind.Ports.Node

open Ellipticoind.Verified

variable {C : NodeConfig} {P : Platform} {fuel : Nat}

/-! ## What is to be shown -/

/-- The transactions are those of entries that were pushed, in the order they
were pushed in. -/
def InQueueOrder (C : NodeConfig) (pushed : List Bytes)
    (transactions : List CompletedTransaction) : Prop :=
  ∃ entries : List Bytes, entries.Sublist pushed.reverse ∧
    transactions.map (fun c => some c.transaction) = entries.map C.decodeTransaction

/-- Stored blocks hold, in the order of the chain, all that was taken before the
current round. -/
def FirstOut (C : NodeConfig) (n : Node) : Prop :=
  ∃ (mined : List Block) (taken : List Bytes), mined.Sublist n.blocks.reverse ∧
    n.history.pushed.reverse = taken ++ (n.history.round ++ n.queued.reverse) ∧
    (mined.flatMap Block.transactions).map (fun c => some c.transaction) =
      taken.map C.decodeTransaction

/-! ## The transactions of one block -/

/-- A result of a program, whose entries were taken in this order. -/
def InOrder (C : NodeConfig) (taken : List Bytes) (r : RoundResult) : Prop :=
  Ran C r.processed r.entries ∧ r.entries.Sublist taken

theorem InOrder.mono {taken later : List Bytes} {r : RoundResult}
    (h : InOrder C taken r) (hlater : taken.Sublist later) : InOrder C later r :=
  ⟨h.1, h.2.trans hlater⟩

/-- What the miner holds between the native result and the block. -/
def HeldInOrder (C : NodeConfig) (taken : List Bytes) (n : Node) : Prop :=
  match n.miner with
  | .buildNext r => InOrder C taken r
  | .hashfactor _ newBlock r =>
      InOrder C taken r ∧ newBlock.transactions = r.processed.transactions
  | .insertBlock block r =>
      InOrder C taken r ∧ block.transactions = r.processed.transactions
  | _ => True

theorem HeldInOrder.mono {taken later : List Bytes} {n : Node}
    (h : HeldInOrder C taken n) (hlater : taken.Sublist later) :
    HeldInOrder C later n := by
  cases hphase : n.miner with
  | buildNext r =>
      simp only [HeldInOrder, hphase] at h ⊢
      exact h.mono hlater
  | hashfactor | insertBlock =>
      simp only [HeldInOrder, hphase] at h ⊢
      exact ⟨h.1.mono hlater, h.2⟩
  | _ => simp only [HeldInOrder, hphase]

/-- The entries taken so far, whoever took them, and what is left of them in the
programs, in the mailbox and with the miner. -/
structure Ordered (C : NodeConfig) (taken : List Bytes) (n : Node) : Prop where
  pushed : n.history.pushed.reverse = taken ++ n.queued.reverse
  ran : ∀ native ∈ n.natives, Ran C native.processed native.entries
  natives : ∀ native ∈ n.natives,
    (native.entries ++ (native.popped.toList)).Sublist taken
  answered : ∀ a ∈ answers n.mailbox, InOrder C taken a.2
  held : HeldInOrder C taken n

/-- A step that takes no entry. -/
theorem Ordered.keep {taken : List Bytes} {n n' : Node} (h : Ordered C taken n)
    (hpushed : n'.history.pushed = n.history.pushed) (hqueued : n'.queued = n.queued)
    (hnatives : ∀ m' ∈ n'.natives, ∃ m ∈ n.natives, SameWork m' m)
    (hmail : ∀ a ∈ answers n'.mailbox, a ∈ answers n.mailbox)
    (hheld : HeldInOrder C taken n') : Ordered C taken n' where
  pushed := by rw [hpushed, hqueued]; exact h.pushed
  ran m' hm' := by
    obtain ⟨m, hm, hsame⟩ := hnatives m' hm'
    rw [hsame.processed, hsame.entries]
    exact h.ran m hm
  natives m' hm' := by
    obtain ⟨m, hm, hsame⟩ := hnatives m' hm'
    rw [hsame.entries, hsame.popped]
    exact h.natives m hm
  answered a ha := h.answered a (hmail a ha)
  held := hheld

/-- A step that leaves the programs as they are. -/
theorem Ordered.same {taken : List Bytes} {n n' : Node} (h : Ordered C taken n)
    (hpushed : n'.history.pushed = n.history.pushed) (hqueued : n'.queued = n.queued)
    (hnatives : n'.natives = n.natives)
    (hmail : ∀ a ∈ answers n'.mailbox, a ∈ answers n.mailbox)
    (hheld : HeldInOrder C taken n') : Ordered C taken n' :=
  h.keep hpushed hqueued (fun m hm => ⟨m, hnatives ▸ hm, SameWork.refl m⟩) hmail hheld

theorem Ordered.push {taken : List Bytes} {n : Node} (h : Ordered C taken n)
    (entry : Bytes) : Ordered C taken (n.push C entry) where
  pushed := by
    show (entry :: n.history.pushed).reverse = taken ++ (entry :: n.queued).reverse
    rw [List.reverse_cons, List.reverse_cons, h.pushed, List.append_assoc]
  ran := h.ran
  natives := h.natives
  answered := h.answered
  held := h.held

theorem Ordered.receive {taken : List Bytes} {n : Node} {message : Message}
    {rest : List Message} (h : Ordered C taken n)
    (hmail : receive n.mailbox = some (message, rest)) :
    Ordered C taken { n with mailbox := rest } := by
  refine h.same rfl rfl rfl (fun a ha => ?_) h.held
  rw [(receive_spec hmail).2]
  exact List.mem_append_right _ ha

theorem Ordered.restart {taken : List Bytes} {n : Node} (h : Ordered C taken n) :
    Ordered C taken (n.restart C) := by
  refine h.keep rfl rfl (fun m' hm' => ?_) (fun _ ha => absurd ha List.not_mem_nil)
    trivial
  obtain ⟨m, hm, rfl⟩ := List.mem_map.mp hm'
  exact ⟨m, hm, rfl, rfl, rfl, rfl, id⟩

theorem Ordered.closeNative {taken : List Bytes} {n : Node} {port : Nat}
    (h : Ordered C taken n) : Ordered C taken (n.closeNative C port) := by
  unfold Node.closeNative
  split
  · refine h.keep rfl rfl (fun m' hm' => ?_) (fun _ ha => ha) trivial
    obtain ⟨m, hm, rfl⟩ := List.mem_map.mp hm'
    refine ⟨m, hm, ?_⟩
    split <;> exact ⟨rfl, rfl, rfl, rfl, id⟩
  · exact h.restart

theorem Ordered.closeHasher {taken : List Bytes} {n : Node} {port : Nat}
    (h : Ordered C taken n) : Ordered C taken (n.closeHasher C port) := by
  unfold Node.closeHasher
  split
  · exact h.same rfl rfl rfl (fun _ ha => ha) trivial
  · exact h.restart

theorem ordered_of_minerMove {taken : List Bytes} {n n' : Node}
    (h : Ordered C taken n) (hmove : MinerMove C n n') : Ordered C taken n' := by
  have hheld := h.held
  cases hmove with
  | ignoreStop hphase hmail | startRound hphase hmail =>
      exact h.same rfl rfl rfl (fun a ha => by simpa [hmail] using ha)
        (by simp only [HeldInOrder, hphase])
  | strayLine | mintRaises => exact h.restart
  | mint hphase => exact (h.push _).same rfl rfl rfl (fun _ ha => ha) trivial
  | openProcessor hphase =>
      refine ⟨h.pushed, fun m hm => ?_, fun m hm => ?_, h.answered, trivial⟩
      · rcases List.mem_cons.mp hm with rfl | hm
        · rfl
        · exact h.ran m hm
      · rcases List.mem_cons.mp hm with rfl | hm
        · exact List.nil_sublist _
        · exact h.natives m hm
  | closeProcessor => exact h.closeNative
  | closeHashfactor => exact h.closeHasher
  | stopReceiving hphase hmail | stopHashing hphase hmail =>
      exact (h.receive hmail).same rfl rfl rfl (fun _ ha => ha) trivial
  | @takeResult port port' r rest hphase hmail =>
      have hanswer : (port', r) ∈ answers n.mailbox := by
        rw [(receive_spec hmail).2]
        exact List.mem_cons_self
      exact (h.receive hmail).same rfl rfl rfl (fun _ ha => ha) (h.answered _ hanswer)
  | wrongLine | wrongNonce | insertRaises => exact h.restart
  | buildNext hphase =>
      simp only [HeldInOrder, hphase] at hheld
      exact h.same rfl rfl rfl (fun _ ha => ha) ⟨hheld, rfl⟩
  | takeNonce hphase hmail =>
      simp only [HeldInOrder, hphase] at hheld
      exact (h.receive hmail).same rfl rfl rfl (fun _ ha => ha) hheld
  | store | refuse | written | write =>
      exact h.same rfl rfl rfl (fun _ ha => ha) trivial
  | writeRaises => exact Ordered.restart (h.same rfl rfl rfl (fun _ ha => ha) h.held)
  | castMineNextBlock =>
      exact h.same rfl rfl rfl (fun a ha => by simpa using ha) trivial

theorem ordered_of_p2pMove {taken : List Bytes} {n n' : Node} (h : Ordered C taken n)
    (hmove : P2PMove C P fuel n n') : Ordered C taken n' := by
  cases hmove with
  | @post entry rest hphase hinbox =>
      refine Ordered.push ?_ entry
      exact h.same rfl rfl rfl (fun _ ha => ha) h.held
  | stopMiner | castMineNextBlock =>
      exact h.same rfl rfl rfl (fun a ha => by simpa using ha) h.held
  | _ => exact h.same rfl rfl rfl (fun _ ha => ha) h.held

/-- A program takes the entry that has waited longest. -/
theorem Ordered.pop {taken : List Bytes} {n n' : Node} (h : Ordered C taken n)
    {before after : List Native} {native : Native} {queued : List Bytes} {entry : Bytes}
    (hnatives : n.natives = before ++ (native :: after))
    (hpopped : native.popped = none) (hqueued : n.queued = queued ++ [entry])
    (hqueued' : n'.queued = queued) (hpushed : n'.history.pushed = n.history.pushed)
    (hnatives' : n'.natives = before ++ { native with popped := some entry } :: after)
    (hmail : n'.mailbox = n.mailbox) (hminer : n'.miner = n.miner) :
    Ordered C (taken ++ [entry]) n' := by
  have hmem : native ∈ n.natives := hnatives ▸ mem_middle.mpr (.inl rfl)
  have hlater : taken.Sublist (taken ++ [entry]) := List.sublist_append_left _ _
  constructor
  · rw [hpushed, hqueued', h.pushed, hqueued, List.reverse_append, List.append_assoc]
    rfl
  · intro m hm
    rcases mem_middle.mp (hnatives' ▸ hm) with rfl | hm
    · exact h.ran native hmem
    · exact h.ran m (hnatives ▸ mem_middle.mpr (.inr hm))
  · intro m hm
    rcases mem_middle.mp (hnatives' ▸ hm) with rfl | hm
    · have hentries := h.natives native hmem
      rw [hpopped, Option.toList_none, List.append_nil] at hentries
      exact hentries.append (List.Sublist.refl _)
    · exact (h.natives m (hnatives ▸ mem_middle.mpr (.inr hm))).trans hlater
  · intro a ha
    exact (h.answered a (hmail ▸ ha)).mono hlater
  · have hheld := h.held.mono hlater
    unfold HeldInOrder at hheld ⊢
    rw [hminer]
    exact hheld

/-- One program changes, and no entry leaves the queue. -/
theorem Ordered.update {taken : List Bytes} {n n' : Node} (h : Ordered C taken n)
    {before after : List Native} {native native' : Native}
    (hnatives : n.natives = before ++ (native :: after))
    (hnatives' : n'.natives = before ++ (native' :: after))
    (hran : Ran C native'.processed native'.entries)
    (hentries : (native'.entries ++ (native'.popped.toList)).Sublist taken)
    (hmail : ∀ a ∈ answers n'.mailbox, a ∈ answers n.mailbox ∨ InOrder C taken a.2)
    (hpushed : n'.history.pushed = n.history.pushed) (hqueued : n'.queued = n.queued)
    (hminer : n'.miner = n.miner) : Ordered C taken n' := by
  constructor
  · rw [hpushed, hqueued]
    exact h.pushed
  · intro m hm
    rcases mem_middle.mp (hnatives' ▸ hm) with rfl | hm
    · exact hran
    · exact h.ran m (hnatives ▸ mem_middle.mpr (.inr hm))
  · intro m hm
    rcases mem_middle.mp (hnatives' ▸ hm) with rfl | hm
    · exact hentries
    · exact h.natives m (hnatives ▸ mem_middle.mpr (.inr hm))
  · intro a ha
    exact (hmail a ha).elim (h.answered a) id
  · have hheld := h.held
    unfold HeldInOrder at hheld ⊢
    rw [hminer]
    exact hheld

theorem ordered_of_nativeMove {taken : List Bytes} {n n' : Node} {action : Action}
    (h : Ordered C taken n) (hmove : NativeMove C P fuel n action n') :
    ∃ taken', Ordered C taken' n' := by
  have hmem {before after : List Native} {native : Native}
      (hnatives : n.natives = before ++ (native :: after)) : native ∈ n.natives :=
    hnatives ▸ mem_middle.mpr (.inl rfl)
  cases hmove with
  | pop hnatives hstage hpopped hqueued =>
      exact ⟨_, h.pop hnatives hpopped hqueued rfl rfl rfl rfl rfl⟩
  | undecodable hnatives | executeDies hnatives =>
      have hran := h.ran _ (hmem hnatives)
      have hentries := h.natives _ (hmem hnatives)
      exact ⟨taken, h.update hnatives rfl hran hentries (fun _ ha => .inl ha) rfl rfl rfl⟩
  | execute hnatives hstage hpopped hdecode hrun =>
      obtain ⟨result, hprocessed⟩ := transactions_of_runTransaction hrun
      have hentries := h.natives _ (hmem hnatives)
      rw [hpopped] at hentries
      have hran := (h.ran _ (hmem hnatives)).extend hdecode hprocessed
      refine ⟨taken, h.update hnatives rfl hran ?_ (fun _ ha => .inl ha) rfl rfl rfl⟩
      simpa using hentries
  | @finish before after native hnatives hstage hpopped =>
      have hran := h.ran native (hmem hnatives)
      have hentries := h.natives native (hmem hnatives)
      refine ⟨taken, h.update hnatives rfl hran hentries (fun a ha => ?_) rfl rfl rfl⟩
      by_cases hconnected : native.connected = true
      · simp only [if_pos hconnected, answers_append, List.mem_append] at ha
        refine ha.imp_right fun ha => ?_
        cases List.mem_singleton.mp ha
        exact ⟨hran, (List.sublist_append_left _ _).trans hentries⟩
      · simp only [if_neg hconnected] at ha
        exact .inl ha
  | exit hnatives =>
      refine ⟨taken, h.keep rfl rfl (fun m hm => ?_) (fun _ ha => ha) h.held⟩
      exact ⟨m, hnatives ▸ mem_middle.mpr (.inr hm), SameWork.refl m⟩
  | found =>
      exact ⟨taken, h.same rfl rfl rfl (fun a ha => by simpa using ha) h.held⟩
  | exitHasher => exact ⟨taken, h.same rfl rfl rfl (fun _ ha => ha) h.held⟩

theorem ordered_of_step {n n' : Node} {action : Action} (h : ∃ taken, Ordered C taken n)
    (hstep : n.step C P fuel action = some n') : ∃ taken, Ordered C taken n' := by
  obtain ⟨taken, h⟩ := h
  cases move_of_step hstep with
  | post hvalid =>
      refine ⟨taken, Ordered.push ?_ _⟩
      exact h.same rfl rfl rfl (fun _ ha => ha) h.held
  | refusePost => exact ⟨taken, h⟩
  | deliver => exact ⟨taken, h.same rfl rfl rfl (fun _ ha => ha) h.held⟩
  | p2p hmove => exact ⟨taken, ordered_of_p2pMove h hmove⟩
  | miner hmove => exact ⟨taken, ordered_of_minerMove h hmove⟩
  | native hmove => exact ordered_of_nativeMove h hmove

theorem ordered_start (blocks : List Block) (stores : Stores) :
    Ordered C [] (start blocks stores) where
  pushed := rfl
  ran _ h := absurd h List.not_mem_nil
  natives _ h := absurd h List.not_mem_nil
  answered _ h := absurd h List.not_mem_nil
  held := trivial

/-- **In every run, whatever rounds were stopped before, the transactions of a
block that is about to be inserted stand in the order they were queued in.** -/
theorem inserted_in_order {blocks : List Block} {stores : Stores} {actions : List Action}
    {n : Node} {block : Block} {r : RoundResult}
    (hrun : run C P fuel (start blocks stores) actions = some n)
    (hphase : n.miner = .insertBlock block r) :
    InQueueOrder C n.history.pushed block.transactions := by
  have hmeets : Runs.Meets (step C P fuel) (fun _ _ => True) (start blocks stores) actions :=
    Runs.meets_true _ _
  obtain ⟨taken, h⟩ := Runs.invariant_of_run
    (fun _ _ _ hn _ hstep => ordered_of_step hn hstep) ⟨[], ordered_start blocks stores⟩
    hmeets hrun
  have hheld := h.held
  simp only [HeldInOrder, hphase] at hheld
  obtain ⟨⟨hran, horder⟩, hblock⟩ := hheld
  refine ⟨r.entries, ?_, hblock ▸ hran⟩
  rw [h.pushed]
  exact horder.trans (List.sublist_append_left _ _)

/-- A round that takes two posted transactions, up to the insertion of its
block. -/
def fullRound : List Action :=
  [ .post Records.pingMap, .post Records.pingMap, .miner, .miner, .miner, .pop 0, .execute 0
  , .pop 0, .execute 0, .finish 0, .miner, .miner, .found 0 0, .miner ]

theorem inserted_in_order_at_full_round :
    ∃ n block r, Script.nodeRun fullRound = some n ∧ n.miner = .insertBlock block r ∧
      block.transactions.length = 2 ∧
      InQueueOrder Script.nodeConfig n.history.pushed block.transactions := by
  have hrun : (Script.nodeRun fullRound).bind (fun n => match n.miner with
      | .insertBlock block _ => some block.transactions.length
      | _ => none) = some 2 := by decide +kernel
  obtain ⟨n, hn, hmatch⟩ := Option.bind_eq_some_iff.mp hrun
  split at hmatch
  · rename_i block r hphase
    exact ⟨n, block, r, hn, hphase, Option.some.inj hmatch, inserted_in_order hn hphase⟩
  · cases hmatch

/-! ## The transactions of the chain -/

/-- A step that takes no entry and ends no round that has taken some. -/
theorem FirstOut.keep {n n' : Node} (h : FirstOut C n)
    (hpushed : n'.history.pushed = n.history.pushed) (hqueued : n'.queued = n.queued)
    (hround : n'.history.round = n.history.round) (hblocks : n.blocks.Sublist n'.blocks) :
    FirstOut C n' := by
  obtain ⟨mined, taken, hmined, horder, htransactions⟩ := h
  refine ⟨mined, taken, hmined.trans hblocks.reverse, ?_, htransactions⟩
  rw [hpushed, hqueued, hround]
  exact horder

theorem FirstOut.push {n : Node} (h : FirstOut C n) (entry : Bytes) :
    FirstOut C (n.push C entry) := by
  obtain ⟨mined, taken, hmined, horder, htransactions⟩ := h
  refine ⟨mined, taken, hmined, ?_, htransactions⟩
  show (entry :: n.history.pushed).reverse =
    taken ++ (n.history.round ++ (entry :: n.queued).reverse)
  rw [List.reverse_cons, List.reverse_cons, horder]
  simp only [List.append_assoc]

/-- A round that has taken nothing ends in a restart. -/
theorem FirstOut.restart {n : Node} (h : FirstOut C n) (hround : n.history.round = []) :
    FirstOut C (n.restart C) :=
  h.keep rfl rfl hround.symm (List.Sublist.refl _)

theorem FirstOut.closeNative {n : Node} {port : Nat} (h : FirstOut C n)
    (hround : n.history.round = []) : FirstOut C (n.closeNative C port) := by
  unfold Node.closeNative
  split
  · exact h.keep rfl rfl hround.symm (List.Sublist.refl _)
  · exact h.restart hround

theorem FirstOut.closeHasher {n : Node} {port : Nat} (h : FirstOut C n)
    (hround : n.history.round = []) : FirstOut C (n.closeHasher C port) := by
  unfold Node.closeHasher
  split
  · exact h.keep rfl rfl hround.symm (List.Sublist.refl _)
  · exact h.restart hround

/-- The block of a round is that of the entries it has taken. -/
theorem FirstOut.store {n n' : Node} {block : Block} {r : RoundResult}
    (h : FirstOut C n) (hran : Ran C r.processed r.entries)
    (hentries : r.entries = n.history.round)
    (hblock : block.transactions = r.processed.transactions)
    (hpushed : n'.history.pushed = n.history.pushed) (hqueued : n'.queued = n.queued)
    (hround : n'.history.round = []) (hblocks : n'.blocks = block :: n.blocks) :
    FirstOut C n' := by
  obtain ⟨mined, taken, hmined, horder, htransactions⟩ := h
  refine ⟨mined ++ [block], taken ++ n.history.round, ?_, ?_, ?_⟩
  · rw [hblocks, List.reverse_cons]
    exact hmined.append (List.Sublist.refl _)
  · rw [hpushed, hqueued, hround, horder, List.nil_append, List.append_assoc]
  · have hlast : block.transactions.map (fun c => some c.transaction) =
        n.history.round.map C.decodeTransaction := by
      rw [hblock, ← hentries]
      exact hran
    rw [List.flatMap_append, List.map_append, List.map_append, htransactions,
      List.flatMap_singleton, hlast]

theorem firstOut_of_minerMove {n n' : Node} (h : FirstOut C n) (hheld : Held C n)
    (hcond : KeepsRound C n .miner) (hmove : MinerMove C n n') : FirstOut C n' := by
  have hcontinues : n.history.round = [] ∨ n.Continues := hcond.imp_right And.left
  have hrefl : n.blocks.Sublist n.blocks := List.Sublist.refl _
  cases hmove with
  | ignoreStop | startRound | stopReceiving | takeResult | buildNext | stopHashing | takeNonce
  | written | write | castMineNextBlock => exact h.keep rfl rfl rfl hrefl
  | strayLine hphase | mintRaises hphase =>
      simp only [Held, hphase] at hheld
      exact h.restart hheld
  | mint hphase => exact (h.push _).keep rfl rfl rfl hrefl
  | openProcessor hphase =>
      simp only [Held, hphase] at hheld
      exact h.keep rfl rfl hheld.symm hrefl
  | closeProcessor hphase =>
      simp only [Held, hphase] at hheld
      exact h.closeNative hheld
  | closeHashfactor hphase =>
      simp only [Held, hphase] at hheld
      exact h.closeHasher hheld
  | wrongLine hphase hmail =>
      refine h.restart (hcontinues.resolve_right fun hgoes => ?_)
      obtain ⟨r, heq⟩ := hgoes.eq_result hphase hmail
      cases heq
  | wrongNonce hphase hmail =>
      refine h.restart (hcontinues.resolve_right fun hgoes => ?_)
      obtain ⟨port, value, heq⟩ := hgoes.eq_nonce hphase hmail
      cases heq
  | store hphase hinsert =>
      simp only [Held, hphase] at hheld
      obtain ⟨hran, hentries, hblock⟩ := hheld
      exact h.store hran hentries hblock rfl rfl rfl rfl
  | refuse hphase hinsert =>
      have hround := hcond.resolve_right fun hkeeps => by
        cases hinsert.symm.trans (hkeeps.2 _ _ hphase)
      exact h.keep rfl rfl hround.symm hrefl
  | insertRaises hphase hinsert =>
      exact h.restart (hcond.resolve_right fun hkeeps => by
        cases hinsert.symm.trans (hkeeps.2 _ _ hphase))
  | writeRaises hphase hwrite =>
      simp only [Held, hphase] at hheld
      exact FirstOut.restart (h.keep rfl rfl rfl hrefl) hheld

theorem firstOut_of_p2pMove {n n' : Node} (h : FirstOut C n)
    (hmove : P2PMove C P fuel n n') : FirstOut C n' := by
  cases hmove with
  | @post entry rest hphase hinbox =>
      exact FirstOut.push (h.keep rfl rfl rfl (List.Sublist.refl _)) entry
  | store => exact h.keep rfl rfl rfl (List.sublist_cons_self _ _)
  | _ => exact h.keep rfl rfl rfl (List.Sublist.refl _)

theorem firstOut_of_nativeMove {n n' : Node} {action : Action} (h : FirstOut C n)
    (hcond : KeepsRound C n action) (hmove : NativeMove C P fuel n action n') :
    FirstOut C n' := by
  cases hmove with
  | @pop before after native queued entry hnatives hstage hpopped hqueued =>
      have hphase : n.miner = .receiveNative native.port :=
        hcond native (by rw [hnatives]; simp)
      obtain ⟨mined, taken, hmined, horder, htransactions⟩ := h
      refine ⟨mined, taken, hmined, ?_, htransactions⟩
      rw [hqueued, List.reverse_append] at horder
      simp only [hphase, if_true, horder, List.append_assoc]
      rfl
  | _ => exact h.keep rfl rfl rfl (List.Sublist.refl _)

theorem firstOut_of_step {n n' : Node} {action : Action} (h : FirstOut C n)
    (hheld : Held C n) (hcond : KeepsRound C n action)
    (hstep : n.step C P fuel action = some n') : FirstOut C n' := by
  cases move_of_step hstep with
  | post hvalid => exact FirstOut.push (h.keep rfl rfl rfl (List.Sublist.refl _)) _
  | refusePost => exact h
  | deliver => exact h.keep rfl rfl rfl (List.Sublist.refl _)
  | p2p hmove => exact firstOut_of_p2pMove h hmove
  | miner hmove => exact firstOut_of_minerMove h hheld hcond hmove
  | native hmove => exact firstOut_of_nativeMove h hcond hmove

theorem firstOut_start (blocks : List Block) (stores : Stores) :
    FirstOut C (start blocks stores) :=
  ⟨[], [], List.nil_sublist _, rfl, rfl⟩

/-- **In every run whose rounds keep what they have taken, the transactions of
the mined blocks, those of the current round and those in the queue are all that
was pushed, in the order it was pushed.** -/
theorem chain_in_order {blocks : List Block} {stores : Stores} {actions : List Action}
    {n : Node}
    (hmeets : Runs.Meets (step C P fuel) (KeepsRound C) (start blocks stores) actions)
    (hrun : run C P fuel (start blocks stores) actions = some n) : FirstOut C n := by
  have hstep (m : Node) (action : Action) (m' : Node) (hm : Accounted C m ∧ FirstOut C m)
      (hcond : KeepsRound C m action) (hstep : m.step C P fuel action = some m') :
      Accounted C m' ∧ FirstOut C m' :=
    ⟨accounted_of_step hm.1 hcond hstep, firstOut_of_step hm.2 hm.1.held hcond hstep⟩
  exact (Runs.invariant_of_run hstep
    ⟨accounted_start blocks stores, firstOut_start blocks stores⟩ hmeets hrun).2

theorem chain_in_order_at_mined_run :
    ∃ n, Script.nodeRun Script.minedRun = some n ∧ n.blocks.length = 1 ∧
      n.history.pushed.length = 2 ∧ FirstOut Script.nodeConfig n := by
  have hrun : (Script.nodeRun Script.minedRun).map
      (fun n => (n.blocks.length, n.history.pushed.length)) = some (1, 2) := by
    decide +kernel
  obtain ⟨n, hn, hlengths⟩ := Option.map_eq_some_iff.mp hrun
  simp only [Prod.mk.injEq] at hlengths
  exact ⟨n, hn, hlengths.1, hlengths.2, chain_in_order meets_minedRun hn⟩

end Ellipticoind.Ports.Node
