import Ellipticoind.Ports.Rounds

/-!
# Transactions that leave the queue

A native processor takes a transaction from the queue before it runs it, and
nothing puts it back: when a round ends without a block, what it has taken is
gone.  A round that has taken nothing may end at any time, so a transaction is
lost in one of these ways only:

* the round has taken transactions, and `:stop` arrives, a line of another
  port arrives, or its block is not inserted;
* a program whose round is over takes a transaction.

## Main results

* `NoneLost` — every transaction pushed is queued, in the round, or in a block.
* `none_lost` — it is so in every run without the steps above.
-/

namespace Ellipticoind.Ports.Node

open Ellipticoind.Verified

variable {C : NodeConfig} {P : Platform} {fuel : Nat}

/-! ## What is to be shown -/

/-- The transaction of a queue entry is in a stored block. -/
def InBlock (C : NodeConfig) (blocks : List Block) (entry : Bytes) : Prop :=
  ∃ b ∈ blocks, ∃ c ∈ b.transactions, C.decodeTransaction entry = some c.transaction

/-- Every entry pushed on the queue is still there, taken by the current round,
or in a stored block. -/
def NoneLost (C : NodeConfig) (n : Node) : Prop :=
  ∀ entry ∈ n.history.pushed,
    entry ∈ n.queued ∨ entry ∈ n.history.round ∨ InBlock C n.blocks entry

/-- The message that the miner receives does not end its round. -/
def Continues (n : Node) : Prop :=
  match n.miner with
  | .receiveNative port =>
      ∀ message rest, receive n.mailbox = some (message, rest) →
        ∃ r, message = .result port r
  | .hashfactor _ _ _ =>
      ∀ message rest, receive n.mailbox = some (message, rest) →
        ∃ port value, message = .nonce port value
  | _ => True

/-- A round that has taken transactions goes on to the insertion of its block,
which succeeds, and only the program of the current round takes any. -/
def KeepsRound (C : NodeConfig) (n : Node) : Action → Prop
  | .miner =>
      n.history.round = [] ∨
        (n.Continues ∧
          ∀ block r, n.miner = .insertBlock block r → C.insert n.blocks block = .stored)
  | .pop i => ∀ native, n.natives[i]? = some native → n.miner = .receiveNative native.port
  | _ => True

/-! ## The invariant -/

/-- The completed transactions are those of the entries. -/
def Ran (C : NodeConfig) (processed : Processed) (entries : List Bytes) : Prop :=
  processed.transactions.map (fun c => some c.transaction) =
    entries.map C.decodeTransaction

theorem Ran.extend {processed processed' : Processed} {entries : List Bytes}
    {entry : Bytes} {t : Transaction} {result : Result}
    (h : Ran C processed entries) (hdecode : C.decodeTransaction entry = some t)
    (hprocessed : processed'.transactions = processed.transactions ++ [t.complete result]) :
    Ran C processed' (entries ++ [entry]) := by
  unfold Ran at h ⊢
  rw [hprocessed, List.map_append, List.map_append, h]
  simp [hdecode]

/-- An entry that ran is in the block of what ran. -/
theorem Ran.inBlock {r : RoundResult} {block : Block} {blocks : List Block}
    {entry : Bytes} (h : Ran C r.processed r.entries)
    (hblock : block.transactions = r.processed.transactions) (hentry : entry ∈ r.entries) :
    InBlock C (block :: blocks) entry := by
  have hmem : C.decodeTransaction entry ∈
      r.processed.transactions.map fun c => some c.transaction :=
    h ▸ List.mem_map_of_mem hentry
  obtain ⟨c, hc, heq⟩ := List.mem_map.mp hmem
  exact ⟨block, List.mem_cons_self, c, hblock ▸ hc, heq.symm⟩

/-- The port whose answer the miner waits for. -/
def awaited (n : Node) : Option Nat :=
  match n.miner with
  | .receiveNative port => some port
  | _ => none

/-- What the program at a port has of the current round. -/
def share (n : Node) (port : Nat) : List Bytes :=
  if n.awaited = some port then n.history.round else []

theorem share_of_round {n : Node} (h : n.history.round = []) (port : Nat) :
    n.share port = [] := by
  unfold share
  rw [h, ite_self]

/-- What the miner holds between the native result and the block: the entries
of the round. -/
def Held (C : NodeConfig) (n : Node) : Prop :=
  match n.miner with
  | .receiveNative _ => True
  | .buildNext r => Ran C r.processed r.entries ∧ r.entries = n.history.round
  | .hashfactor _ newBlock r =>
      Ran C r.processed r.entries ∧ r.entries = n.history.round ∧
        newBlock.transactions = r.processed.transactions
  | .insertBlock block r =>
      Ran C r.processed r.entries ∧ r.entries = n.history.round ∧
        block.transactions = r.processed.transactions
  | _ => n.history.round = []

/-- Every entry pushed is accounted for, and so is what each program has. -/
structure Accounted (C : NodeConfig) (n : Node) : Prop where
  wired : Wired n
  pushed : n.history.pushed.Perm (n.queued ++ (n.history.round ++ n.history.mined))
  stored : ∀ entry ∈ n.history.mined, InBlock C n.blocks entry
  ran : ∀ native ∈ n.natives, Ran C native.processed native.entries
  taken : ∀ native ∈ n.natives, native.stage = .running →
    native.entries ++ (native.popped.toList) = n.share native.port
  answered : ∀ a ∈ answers n.mailbox,
    Ran C a.2.processed a.2.entries ∧ a.2.entries = n.share a.1
  held : Held C n

theorem Accounted.noneLost {n : Node} (h : Accounted C n) : NoneLost C n := by
  intro entry hentry
  have hmem := h.pushed.subset hentry
  rw [List.mem_append, List.mem_append] at hmem
  exact hmem.imp_right (Or.imp_right (h.stored entry))

/-- A program is one of before, perhaps closed or ended. -/
structure SameWork (m' m : Native) : Prop where
  port : m'.port = m.port
  processed : m'.processed = m.processed
  entries : m'.entries = m.entries
  popped : m'.popped = m.popped
  running : m'.stage = .running → m.stage = .running

theorem SameWork.refl (m : Native) : SameWork m m := ⟨rfl, rfl, rfl, rfl, id⟩

/-- A step that moves no entry keeps the account; if the miner waits for
another port afterwards, the round had taken nothing. -/
theorem Accounted.keep {n n' : Node} (h : Accounted C n) (hwired : Wired n')
    (hpushed : n'.history.pushed = n.history.pushed) (hqueued : n'.queued = n.queued)
    (hround : n'.history.round = n.history.round)
    (hmined : n'.history.mined = n.history.mined)
    (hblocks : ∀ b ∈ n.blocks, b ∈ n'.blocks)
    (hnatives : ∀ m' ∈ n'.natives, ∃ m ∈ n.natives, SameWork m' m)
    (hmail : ∀ a ∈ answers n'.mailbox, a ∈ answers n.mailbox)
    (hawaited : n'.awaited = n.awaited ∨ n.history.round = [])
    (hheld : Held C n') : Accounted C n' := by
  have hshare (port : Nat) : n'.share port = n.share port := by
    rcases hawaited with hawaited | hempty
    · unfold share
      rw [hawaited, hround]
    · rw [share_of_round hempty, share_of_round (hround.trans hempty)]
  constructor
  · exact hwired
  · rw [hpushed, hqueued, hround, hmined]
    exact h.pushed
  · intro entry hentry
    obtain ⟨b, hb, hin⟩ := h.stored entry (hmined ▸ hentry)
    exact ⟨b, hblocks b hb, hin⟩
  · intro m' hm'
    obtain ⟨m, hm, hsame⟩ := hnatives m' hm'
    rw [hsame.processed, hsame.entries]
    exact h.ran m hm
  · intro m' hm' hrunning
    obtain ⟨m, hm, hsame⟩ := hnatives m' hm'
    rw [hshare, hsame.port, hsame.entries, hsame.popped]
    exact h.taken m hm (hsame.running hrunning)
  · intro a ha
    rw [hshare]
    exact h.answered a (hmail a ha)
  · exact hheld

/-- An entry is pushed, and the rest stays. -/
theorem Accounted.push {n : Node} (h : Accounted C n) (entry : Bytes) :
    Accounted C (n.push C entry) where
  wired := h.wired.same rfl (List.Sublist.refl _) le_rfl
  pushed := h.pushed.cons entry
  stored := h.stored
  ran := h.ran
  taken := h.taken
  answered := h.answered
  held := h.held

/-- The programs stay as they are. -/
theorem Accounted.same {n n' : Node} (h : Accounted C n) (hwired : Wired n')
    (hpushed : n'.history.pushed = n.history.pushed) (hqueued : n'.queued = n.queued)
    (hround : n'.history.round = n.history.round)
    (hmined : n'.history.mined = n.history.mined)
    (hblocks : ∀ b ∈ n.blocks, b ∈ n'.blocks) (hnatives : n'.natives = n.natives)
    (hmail : ∀ a ∈ answers n'.mailbox, a ∈ answers n.mailbox)
    (hawaited : n'.awaited = n.awaited ∨ n.history.round = [])
    (hheld : Held C n') : Accounted C n' :=
  h.keep hwired hpushed hqueued hround hmined hblocks
    (fun m hm => ⟨m, hnatives ▸ hm, SameWork.refl m⟩) hmail hawaited hheld

/-! ## The miner -/

theorem Accounted.receive {n : Node} (h : Accounted C n) {message : Message}
    {rest : List Message} (hmail : receive n.mailbox = some (message, rest)) :
    Accounted C { n with mailbox := rest } := by
  have hanswers := (receive_spec hmail).2
  refine h.same (h.wired.same rfl ?_ le_rfl) rfl rfl rfl rfl (fun _ hb => hb) rfl ?_
    (.inl rfl) h.held
  · rw [hanswers]
    exact List.sublist_append_right _ _
  · intro a ha
    rw [hanswers]
    exact List.mem_append_right _ ha

/-- A round that has taken nothing may end in a restart. -/
theorem Accounted.restart {n : Node} (h : Accounted C n) (hround : n.history.round = []) :
    Accounted C (n.restart C) := by
  refine h.keep h.wired.restart rfl rfl hround.symm rfl (fun _ hb => hb) ?_
    (fun _ ha => absurd ha List.not_mem_nil) (.inr hround) rfl
  intro m' hm'
  obtain ⟨m, hm, rfl⟩ := List.mem_map.mp hm'
  exact ⟨m, hm, rfl, rfl, rfl, rfl, id⟩

theorem Accounted.closeNative {n : Node} {port : Nat} (h : Accounted C n)
    (hround : n.history.round = []) : Accounted C (n.closeNative C port) := by
  have hwired : Wired (n.closeNative C port) := h.wired.closeNative
  unfold Node.closeNative at hwired ⊢
  split at hwired
  · rename_i hopen
    rw [if_pos hopen]
    refine h.keep hwired rfl rfl hround.symm rfl (fun _ hb => hb) ?_ (fun _ ha => ha)
      (.inr hround) rfl
    intro m' hm'
    obtain ⟨m, hm, rfl⟩ := List.mem_map.mp hm'
    refine ⟨m, hm, ?_⟩
    split <;> exact ⟨rfl, rfl, rfl, rfl, id⟩
  · rename_i hclosed
    rw [if_neg hclosed]
    exact h.restart hround

theorem Accounted.closeHasher {n : Node} {port : Nat} (h : Accounted C n)
    (hround : n.history.round = []) : Accounted C (n.closeHasher C port) := by
  have hwired : Wired (n.closeHasher C port) := h.wired.closeHasher
  unfold Node.closeHasher at hwired ⊢
  split at hwired
  · rename_i hopen
    rw [if_pos hopen]
    exact h.same hwired rfl rfl hround.symm rfl (fun _ hb => hb) rfl (fun _ ha => ha)
      (.inr hround) rfl
  · rename_i hclosed
    rw [if_neg hclosed]
    exact h.restart hround

/-- The answer of the awaited port is that of the round; the answer of another
port is empty, and so must the round be. -/
theorem Accounted.takeResult {n : Node} {port port' : Nat} {r : RoundResult}
    {rest : List Message} (h : Accounted C n) (hphase : n.miner = .receiveNative port)
    (hmail : Ports.receive n.mailbox = some (.result port' r, rest))
    (hcond : n.history.round = [] ∨ port' = port) :
    Accounted C { n with mailbox := rest, miner := .buildNext r } := by
  have hanswers := (receive_spec hmail).2
  have hawaited : n.awaited = some port := by rw [awaited, hphase]
  have hfirst : (port', r) ∈ answers n.mailbox := by
    rw [hanswers]
    exact List.mem_cons_self
  obtain ⟨hran, hentries⟩ := h.answered _ hfirst
  have hothers : ∀ port'' ≠ port', n.share port'' = [] := by
    intro port'' hne
    rcases hcond with hround | rfl
    · exact share_of_round hround port''
    · rw [share, hawaited, if_neg fun heq => hne (Option.some.inj heq).symm]
  constructor
  · exact (h.receive hmail).wired.same rfl (List.Sublist.refl _) le_rfl
  · exact h.pushed
  · exact h.stored
  · exact h.ran
  · intro m hm hrunning
    rw [h.taken m hm hrunning]
    exact hothers _ fun heq => h.wired.done _ hfirst m hm heq hrunning
  · intro a ha
    have hnodup := h.wired.once
    rw [hanswers, List.map_append] at hnodup
    obtain ⟨hran', hentries'⟩ := h.answered a (hanswers ▸ List.mem_append_right _ ha)
    refine ⟨hran', hentries'.trans (hothers _ fun heq => ?_)⟩
    exact (List.nodup_cons.mp hnodup).1 (List.mem_map.mpr ⟨a, ha, heq⟩)
  · refine ⟨hran, hentries.trans ?_⟩
    rcases hcond with hround | rfl
    · rw [share_of_round hround]
      exact hround.symm
    · rw [share, hawaited, if_pos rfl]

/-- Where no program has a share of the round, none has an entry. -/
theorem Accounted.of_no_shares {n : Node} (h : Accounted C n)
    (hshare : ∀ port, n.share port = []) :
    (∀ m ∈ n.natives, m.stage = .running → m.entries ++ m.popped.toList = []) ∧
      ∀ a ∈ answers n.mailbox, Ran C a.2.processed a.2.entries ∧ a.2.entries = [] :=
  ⟨fun m hm hrunning => (h.taken m hm hrunning).trans (hshare _),
    fun a ha => (h.answered a ha).imp_right fun hentries => hentries.trans (hshare _)⟩

/-- A round begins with nothing, and so does its program. -/
theorem Accounted.openProcessor {n : Node} {env : Env} {fresh : Bool} (h : Accounted C n)
    (hround : n.history.round = []) (hwired : Wired { n with
      natives := ⟨n.nextPort, env, none, .empty, [], true, .running⟩ :: n.natives
      nextPort := n.nextPort + 1
      miner := .receiveNative n.nextPort
      history := { n.history with round := [], roundFresh := fresh } }) :
    Accounted C { n with
      natives := ⟨n.nextPort, env, none, .empty, [], true, .running⟩ :: n.natives
      nextPort := n.nextPort + 1
      miner := .receiveNative n.nextPort
      history := { n.history with round := [], roundFresh := fresh } } := by
  obtain ⟨htaken, hanswered⟩ := h.of_no_shares (share_of_round hround)
  refine ⟨hwired, hround ▸ h.pushed, h.stored, ?_, ?_, ?_, trivial⟩
  · intro m hm
    rcases List.mem_cons.mp hm with rfl | hm
    · rfl
    · exact h.ran m hm
  · intro m hm hrunning
    rcases List.mem_cons.mp hm with rfl | hm
    · exact (share_of_round rfl _).symm
    · exact (htaken m hm hrunning).trans (share_of_round rfl _).symm
  · intro a ha
    exact (hanswered a ha).imp_right fun hentries =>
      hentries.trans (share_of_round rfl _).symm

/-- What the round has taken is in the block that it stores. -/
theorem Accounted.store {n : Node} {block : Block} {r : RoundResult} (h : Accounted C n)
    (hphase : n.miner = .insertBlock block r) (hwired : Wired { n with
      blocks := block :: n.blocks
      miner := .writeChangesets block r [.memory, .storage]
      history := { n.history with
        round := []
        mined := r.entries ++ n.history.mined
        applyFresh := false } }) :
    Accounted C { n with
      blocks := block :: n.blocks
      miner := .writeChangesets block r [.memory, .storage]
      history := { n.history with
        round := []
        mined := r.entries ++ n.history.mined
        applyFresh := false } } := by
  have hheld := h.held
  simp only [Held, hphase] at hheld
  obtain ⟨hran, hentries, hblock⟩ := hheld
  have hnone : n.awaited = none := by rw [awaited, hphase]
  have hshare (port : Nat) : n.share port = [] := by
    rw [share, hnone]
    exact if_neg nofun
  obtain ⟨htaken, hanswered⟩ := h.of_no_shares hshare
  refine ⟨hwired, ?_, ?_, h.ran, ?_, ?_, rfl⟩
  · rw [List.nil_append, hentries]
    exact h.pushed
  · intro entry hentry
    rcases List.mem_append.mp hentry with hentry | hentry
    · exact hran.inBlock hblock hentry
    · obtain ⟨b, hb, hin⟩ := h.stored entry hentry
      exact ⟨b, List.mem_cons_of_mem _ hb, hin⟩
  · intro m hm hrunning
    exact (htaken m hm hrunning).trans (share_of_round rfl _).symm
  · intro a ha
    exact (hanswered a ha).imp_right fun hentries =>
      hentries.trans (share_of_round rfl _).symm

/-- A round that goes on, and waits for the native processor, receives its answer. -/
theorem Continues.eq_result {n : Node} {port : Nat} {message : Message} {rest : List Message}
    (h : n.Continues) (hphase : n.miner = .receiveNative port)
    (hmail : Ports.receive n.mailbox = some (message, rest)) :
    ∃ r, message = .result port r := by
  simp only [Continues, hphase] at h
  exact h _ _ hmail

/-- One that waits for the proof of work receives a nonce. -/
theorem Continues.eq_nonce {n : Node} {port : Nat} {newBlock : NewBlock} {r : RoundResult}
    {message : Message} {rest : List Message} (h : n.Continues)
    (hphase : n.miner = .hashfactor port newBlock r)
    (hmail : Ports.receive n.mailbox = some (message, rest)) :
    ∃ port value, message = .nonce port value := by
  simp only [Continues, hphase] at h
  exact h _ _ hmail

theorem accounted_of_minerMove {n n' : Node} (h : Accounted C n)
    (hcond : KeepsRound C n .miner) (hmove : MinerMove C n n') : Accounted C n' := by
  have hwired := wired_of_minerMove h.wired hmove
  have hheld := h.held
  have hcontinues : n.history.round = [] ∨ n.Continues := hcond.imp_right And.left
  cases hmove with
  | ignoreStop hphase hmail =>
      exact h.same hwired rfl rfl rfl rfl (fun _ hb => hb) rfl
        (fun a ha => by simpa [hmail] using ha) (.inl rfl) hheld
  | startRound hphase hmail =>
      simp only [Held, hphase] at hheld
      exact h.same hwired rfl rfl rfl rfl (fun _ hb => hb) rfl
        (fun a ha => by simpa [hmail] using ha) (.inr hheld) hheld
  | strayLine hphase | mintRaises hphase =>
      simp only [Held, hphase] at hheld
      exact h.restart hheld
  | mint hphase =>
      simp only [Held, hphase] at hheld
      exact (h.push _).same hwired rfl rfl rfl rfl (fun _ hb => hb) rfl (fun _ ha => ha)
        (.inr hheld) hheld
  | openProcessor hphase =>
      simp only [Held, hphase] at hheld
      exact h.openProcessor hheld hwired
  | stopReceiving hphase hmail =>
      have hround := hcontinues.resolve_right fun hgoes => by
        obtain ⟨r, heq⟩ := hgoes.eq_result hphase hmail
        cases heq
      exact (h.receive hmail).same hwired rfl rfl rfl rfl (fun _ hb => hb) rfl
        (fun _ ha => ha) (.inr hround) hround
  | closeProcessor hphase =>
      simp only [Held, hphase] at hheld
      exact h.closeNative hheld
  | takeResult hphase hmail =>
      refine h.takeResult hphase hmail (hcontinues.imp_right fun hgoes => ?_)
      obtain ⟨r, heq⟩ := hgoes.eq_result hphase hmail
      cases heq
      rfl
  | wrongLine hphase hmail =>
      refine h.restart (hcontinues.resolve_right fun hgoes => ?_)
      obtain ⟨r, heq⟩ := hgoes.eq_result hphase hmail
      cases heq
  | buildNext hphase =>
      simp only [Held, hphase] at hheld
      exact h.same hwired rfl rfl rfl rfl (fun _ hb => hb) rfl (fun _ ha => ha)
        (.inl (by simp only [awaited, hphase])) ⟨hheld.1, hheld.2, rfl⟩
  | stopHashing hphase hmail =>
      have hround := hcontinues.resolve_right fun hgoes => by
        obtain ⟨port, value, heq⟩ := hgoes.eq_nonce hphase hmail
        cases heq
      exact (h.receive hmail).same hwired rfl rfl rfl rfl (fun _ hb => hb) rfl
        (fun _ ha => ha) (.inr hround) hround
  | closeHashfactor hphase =>
      simp only [Held, hphase] at hheld
      exact h.closeHasher hheld
  | takeNonce hphase hmail =>
      simp only [Held, hphase] at hheld
      exact (h.receive hmail).same hwired rfl rfl rfl rfl (fun _ hb => hb) rfl
        (fun _ ha => ha) (.inl (by simp only [awaited, hphase])) hheld
  | wrongNonce hphase hmail =>
      refine h.restart (hcontinues.resolve_right fun hgoes => ?_)
      obtain ⟨port, value, heq⟩ := hgoes.eq_nonce hphase hmail
      cases heq
  | store hphase => exact h.store hphase hwired
  | refuse hphase hinsert =>
      have hround := hcond.resolve_right fun hkeeps =>
        absurd (hinsert.symm.trans (hkeeps.2 _ _ hphase)) nofun
      exact h.same hwired rfl rfl hround.symm rfl (fun _ hb => hb) rfl (fun _ ha => ha)
        (.inr hround) rfl
  | insertRaises hphase hinsert =>
      exact h.restart (hcond.resolve_right fun hkeeps =>
        absurd (hinsert.symm.trans (hkeeps.2 _ _ hphase)) nofun)
  | written hphase | write hphase =>
      simp only [Held, hphase] at hheld
      exact h.same hwired rfl rfl rfl rfl (fun _ hb => hb) rfl (fun _ ha => ha)
        (.inr hheld) hheld
  | writeRaises hphase hwrite =>
      simp only [Held, hphase] at hheld
      refine Accounted.restart (h.same ?_ rfl rfl rfl rfl (fun _ hb => hb) rfl
        (fun _ ha => ha) (.inl rfl) h.held) hheld
      exact h.wired.same rfl (List.Sublist.refl _) le_rfl
  | castMineNextBlock hphase =>
      simp only [Held, hphase] at hheld
      exact h.same hwired rfl rfl rfl rfl (fun _ hb => hb) rfl
        (fun a ha => by simpa using ha) (.inr hheld) hheld

/-! ## The P2P process and the native programs -/

theorem accounted_of_p2pMove {n n' : Node} (h : Accounted C n)
    (hmove : P2PMove C P fuel n n') : Accounted C n' := by
  have hwired := wired_of_p2pMove h.wired hmove
  cases hmove with
  | @post entry rest hphase hinbox =>
      refine Accounted.push ?_ entry
      exact h.same (h.wired.same rfl (List.Sublist.refl _) le_rfl) rfl rfl rfl rfl
        (fun _ hb => hb) rfl (fun _ ha => ha) (.inl rfl) h.held
  | stopMiner | castMineNextBlock =>
      exact h.same hwired rfl rfl rfl rfl (fun _ hb => hb) rfl
        (fun a ha => by simpa using ha) (.inl rfl) h.held
  | store =>
      exact h.same hwired rfl rfl rfl rfl (fun _ hb => List.mem_cons_of_mem _ hb) rfl
        (fun _ ha => ha) (.inl rfl) h.held
  | _ =>
      exact h.same hwired rfl rfl rfl rfl (fun _ hb => hb) rfl (fun _ ha => ha) (.inl rfl)
        h.held

/-- The program of the round takes an entry from the queue. -/
theorem Accounted.pop {n : Node} (h : Accounted C n) {before after : List Native}
    {native : Native} {queued : List Bytes} {entry : Bytes}
    (hnatives : n.natives = before ++ (native :: after)) (hstage : native.stage = .running)
    (hpopped : native.popped = none) (hqueued : n.queued = queued ++ [entry])
    (hphase : n.miner = .receiveNative native.port) :
    Accounted C { n with
      queued := queued
      processing := entry :: n.processing
      natives := before ++ { native with popped := some entry } :: after
      history := { n.history with round := n.history.round ++ [entry] } } := by
  have hmem : native ∈ n.natives := hnatives ▸ mem_middle.mpr (.inl rfl)
  have hawaited : n.awaited = some native.port := by rw [awaited, hphase]
  have hshare : n.share native.port = n.history.round := by
    rw [share, hawaited, if_pos rfl]
  have hothers : ∀ port ≠ native.port, ∀ round : List Bytes,
      n.share port = if n.awaited = some port then round else [] := by
    intro port hne round
    have hport : some native.port ≠ some port := fun heq =>
      hne (Option.some.inj heq).symm
    rw [share, hawaited, if_neg hport, if_neg hport]
  constructor
  · exact h.wired.update hnatives rfl rfl id rfl rfl
  · refine (h.pushed.trans ?_)
    rw [hqueued]
    simp only [List.append_assoc, List.singleton_append]
    exact List.Perm.append_left _ List.perm_middle.symm
  · exact h.stored
  · intro m hm
    rcases mem_middle.mp hm with rfl | hm
    · exact h.ran native hmem
    · exact h.ran m (hnatives ▸ mem_middle.mpr (.inr hm))
  · intro m hm hrunning
    rcases mem_middle.mp hm with rfl | hm
    · have htaken := h.taken native hmem hstage
      rw [hpopped, Option.toList_none, List.append_nil, hshare] at htaken
      show native.entries ++ [entry] = if n.awaited = some native.port then
        n.history.round ++ [entry] else []
      rw [if_pos hawaited, htaken]
    · rw [h.taken m (hnatives ▸ mem_middle.mpr (.inr hm)) hrunning]
      exact hothers m.port (h.wired.port_ne hnatives hm) _
  · intro a ha
    obtain ⟨hran, hentries⟩ := h.answered a ha
    refine ⟨hran, hentries.trans (hothers a.1 (fun heq => ?_) _)⟩
    exact h.wired.done a ha native hmem heq.symm hstage
  · simp only [Held, hphase]

/-- One program changes, and no entry leaves the queue. -/
theorem Accounted.update {n n' : Node} (h : Accounted C n) {before after : List Native}
    {native native' : Native} (hwired : Wired n')
    (hnatives : n.natives = before ++ (native :: after))
    (hnatives' : n'.natives = before ++ (native' :: after))
    (hran : Ran C native'.processed native'.entries)
    (htaken : native'.stage = .running →
      native'.entries ++ (native'.popped.toList) = n.share native'.port)
    (hmail : ∀ a ∈ answers n'.mailbox, a ∈ answers n.mailbox ∨
      Ran C a.2.processed a.2.entries ∧ a.2.entries = n.share a.1)
    (hqueued : n'.queued = n.queued) (hblocks : n'.blocks = n.blocks)
    (hminer : n'.miner = n.miner) (hpushed : n'.history.pushed = n.history.pushed)
    (hround : n'.history.round = n.history.round)
    (hmined : n'.history.mined = n.history.mined) : Accounted C n' := by
  have hshare (port : Nat) : n'.share port = n.share port := by
    rw [share, share, awaited, awaited, hminer, hround]
  constructor
  · exact hwired
  · rw [hpushed, hqueued, hround, hmined]
    exact h.pushed
  · rw [hmined, hblocks]
    exact h.stored
  · intro m hm
    rcases mem_middle.mp (hnatives' ▸ hm) with rfl | hm
    · exact hran
    · exact h.ran m (hnatives ▸ mem_middle.mpr (.inr hm))
  · intro m hm hrunning
    rw [hshare]
    rcases mem_middle.mp (hnatives' ▸ hm) with rfl | hm
    · exact htaken hrunning
    · exact h.taken m (hnatives ▸ mem_middle.mpr (.inr hm)) hrunning
  · intro a ha
    rw [hshare]
    exact (hmail a ha).elim (h.answered a) id
  · have hheld := h.held
    unfold Held at hheld ⊢
    rw [hminer, hround]
    exact hheld

theorem accounted_of_nativeMove {n n' : Node} {action : Action} (h : Accounted C n)
    (hcond : KeepsRound C n action) (hmove : NativeMove C P fuel n action n') :
    Accounted C n' := by
  have hwired := wired_of_nativeMove h.wired hmove
  have hmem {before after : List Native} {native : Native}
      (hnatives : n.natives = before ++ (native :: after)) : native ∈ n.natives :=
    hnatives ▸ mem_middle.mpr (.inl rfl)
  cases hmove with
  | @pop before after native queued entry hnatives hstage hpopped hqueued =>
      have hphase : n.miner = .receiveNative native.port :=
        hcond native (by rw [hnatives]; simp)
      have hpop := h.pop hnatives hstage hpopped hqueued hphase
      simpa only [hphase, if_true] using hpop
  | undecodable hnatives | executeDies hnatives =>
      have hran := h.ran _ (hmem hnatives)
      exact h.update hwired hnatives rfl hran nofun (fun _ ha => .inl ha) rfl rfl rfl rfl
        rfl rfl
  | @execute before after native entry t processed hnatives hstage hpopped hdecode hrun =>
      obtain ⟨result, hprocessed⟩ := transactions_of_runTransaction hrun
      refine h.update hwired hnatives rfl
        ((h.ran _ (hmem hnatives)).extend hdecode hprocessed) (fun _ => ?_)
        (fun _ ha => .inl ha) rfl rfl rfl rfl rfl rfl
      have htaken := h.taken native (hmem hnatives) hstage
      rw [hpopped] at htaken
      simpa using htaken
  | @finish before after native hnatives hstage hpopped =>
      have hran := h.ran native (hmem hnatives)
      refine h.update hwired hnatives rfl hran nofun (fun a ha => ?_) rfl rfl rfl rfl rfl
        rfl
      by_cases hconnected : native.connected = true
      · simp only [if_pos hconnected, answers_append, List.mem_append] at ha
        refine ha.imp_right fun ha => ?_
        cases List.mem_singleton.mp ha
        have htaken := h.taken native (hmem hnatives) hstage
        rw [hpopped, Option.toList_none, List.append_nil] at htaken
        exact ⟨hran, htaken⟩
      · simp only [if_neg hconnected] at ha
        exact .inl ha
  | exit hnatives =>
      refine h.keep hwired rfl rfl rfl rfl (fun _ hb => hb) (fun m hm => ?_)
        (fun _ ha => ha) (.inl rfl) h.held
      exact ⟨m, hnatives ▸ mem_middle.mpr (.inr hm), SameWork.refl m⟩
  | found =>
      exact h.same hwired rfl rfl rfl rfl (fun _ hb => hb) rfl
        (fun a ha => by simpa using ha) (.inl rfl) h.held
  | exitHasher =>
      exact h.same hwired rfl rfl rfl rfl (fun _ hb => hb) rfl (fun _ ha => ha) (.inl rfl)
        h.held

/-! ## Runs -/

theorem accounted_of_step {n n' : Node} {action : Action} (h : Accounted C n)
    (hcond : KeepsRound C n action) (hstep : n.step C P fuel action = some n') :
    Accounted C n' := by
  cases move_of_step hstep with
  | post hvalid =>
      refine Accounted.push ?_ _
      exact h.same (h.wired.same rfl (List.Sublist.refl _) le_rfl) rfl rfl rfl rfl
        (fun _ hb => hb) rfl (fun _ ha => ha) (.inl rfl) h.held
  | refusePost => exact h
  | deliver =>
      exact h.same (h.wired.same rfl (List.Sublist.refl _) le_rfl) rfl rfl rfl rfl
        (fun _ hb => hb) rfl (fun _ ha => ha) (.inl rfl) h.held
  | p2p hmove => exact accounted_of_p2pMove h hmove
  | miner hmove => exact accounted_of_minerMove h hcond hmove
  | native hmove => exact accounted_of_nativeMove h hcond hmove

theorem accounted_start (blocks : List Block) (stores : Stores) :
    Accounted C (start blocks stores) where
  wired := wired_start blocks stores
  pushed := List.Perm.refl _
  stored _ h := absurd h List.not_mem_nil
  ran _ h := absurd h List.not_mem_nil
  taken _ h := absurd h List.not_mem_nil
  answered _ h := absurd h List.not_mem_nil
  held := rfl

/-- **In every run whose rounds keep what they have taken, no transaction is
lost.** -/
theorem none_lost {blocks : List Block} {stores : Stores} {actions : List Action}
    {n : Node}
    (hmeets : Runs.Meets (step C P fuel) (KeepsRound C) (start blocks stores) actions)
    (hrun : run C P fuel (start blocks stores) actions = some n) : NoneLost C n :=
  (Runs.invariant_of_run (fun _ _ _ hn hcond hstep => accounted_of_step hn hcond hstep)
    (accounted_start blocks stores) hmeets hrun).noneLost

/-! ## A round that is stopped -/

/-- A posted transaction has been taken by the round when a peer's block stops
it. -/
def stoppedRun : List Action :=
  [ .post Records.pingMap, .miner, .miner, .miner, .pop 0
  , .deliver (.block (Script.peerBlock [])), .p2p, .p2p, .miner, .miner ]

/-- The posted transaction is nowhere. -/
theorem stop_loses_transaction :
    ¬ ∀ (C : NodeConfig) (P : Platform) (fuel : Nat) (blocks : List Block)
      (stores : Stores) (actions : List Action) (n : Node),
      run C P fuel (start blocks stores) actions = some n → NoneLost C n := by
  intro h
  have hrun : (Script.nodeRun stoppedRun).map
      (fun n => (n.history.pushed, n.queued, n.history.round, n.blocks.length)) =
        some ([Script.mintEntry, Script.pingEntry], [Script.mintEntry], [], 0) := by
    decide +kernel
  obtain ⟨n, hn, hfields⟩ := Option.map_eq_some_iff.mp hrun
  simp only [Prod.mk.injEq, List.length_eq_zero_iff] at hfields
  obtain ⟨hpushed, hqueued, hround, hblocks⟩ := hfields
  have hlost := h _ _ _ _ _ _ n hn Script.pingEntry (by simp [hpushed])
  have hother : Script.pingEntry ≠ Script.mintEntry := by decide +kernel
  simp [hqueued, hround, hblocks, InBlock, hother] at hlost

theorem meets_minedRun :
    Runs.Meets (step Script.nodeConfig (Script.platform []) 0)
      (KeepsRound Script.nodeConfig) (start [] .empty) Script.minedRun := by
  refine Runs.meets_cons trivial (step_post Script.queueEntry_ping) ?_
  refine Runs.meets_cons (.inl rfl) rfl ?_
  refine Runs.meets_cons (.inl rfl) (step_mint rfl Script.asBinary_mint) ?_
  refine Runs.meets_cons (.inl rfl) rfl ?_
  refine Runs.meets_cons (fun native h => ?_) rfl ?_
  · cases h
    rfl
  refine Runs.meets_cons trivial (step_execute rfl rfl rfl Script.decode_ping rfl) ?_
  refine Runs.meets_cons trivial rfl ?_
  refine Runs.meets_cons (.inr ⟨fun message rest h => ?_, nofun⟩) rfl ?_
  · cases h
    exact ⟨_, rfl⟩
  refine Runs.meets_cons (.inr ⟨trivial, nofun⟩) rfl ?_
  refine Runs.meets_cons trivial rfl ?_
  refine Runs.meets_cons (.inr ⟨fun message rest h => ?_, nofun⟩) rfl ?_
  · cases h
    exact ⟨_, _, rfl⟩
  refine Runs.meets_cons (.inr ⟨trivial, fun block r h => ?_⟩) rfl ?_
  · cases h
    rfl
  refine Runs.meets_cons (.inl rfl) rfl ?_
  refine Runs.meets_cons (.inl rfl) rfl ?_
  refine Runs.meets_cons (.inl rfl) rfl ?_
  trivial

theorem none_lost_at_mined_run :
    ∃ n, Script.nodeRun Script.minedRun = some n ∧ n.blocks.length = 1 ∧
      NoneLost Script.nodeConfig n := by
  have hrun : (Script.nodeRun Script.minedRun).map (fun n => n.blocks.length) = some 1 := by
    decide +kernel
  obtain ⟨n, hn, hblocks⟩ := Option.map_eq_some_iff.mp hrun
  exact ⟨n, hn, hblocks, none_lost meets_minedRun hn⟩

end Ellipticoind.Ports.Node
