import Ellipticoind.Ports.NodeMoves

/-!
# The native programs of a node and their answers

A port's number is used once, so a program and the answer it has sent belong to
one round.  Nothing in the source compares them: `receive_stop_or_message` takes
the line of any port.

## Main results

* `wired_of_run` — in every run, no two programs share a port, and one whose
  answer is in the mailbox runs no longer.
* `Wired.eq_of_port` — the program at a port.
-/

namespace Ellipticoind.Ports.Node

open Ellipticoind.Verified

variable {C : NodeConfig} {P : Platform} {fuel : Nat}

theorem mem_middle {α : Type} {before after : List α} {x y : α} :
    y ∈ before ++ x :: after ↔ y = x ∨ y ∈ before ++ after := by
  simp only [List.mem_append, List.mem_cons]
  tauto

/-- What holds of the programs, their ports, and the answers that wait for the
miner. -/
structure Wired (n : Node) : Prop where
  nodup : (n.natives.map Native.port).Nodup
  opened : ∀ native ∈ n.natives, native.port < n.nextPort
  sent : ∀ a ∈ answers n.mailbox, a.1 < n.nextPort
  once : ((answers n.mailbox).map Prod.fst).Nodup
  done : ∀ a ∈ answers n.mailbox, ∀ native ∈ n.natives, native.port = a.1 →
    native.stage ≠ .running

/-- The program at a port. -/
theorem Wired.eq_of_port {n : Node} (h : Wired n) {before after : List Native}
    {native m : Native} (hnatives : n.natives = before ++ (native :: after))
    (hm : m ∈ n.natives) (hport : m.port = native.port) : m = native :=
  List.inj_on_of_nodup_map h.nodup hm (by rw [hnatives]; simp) hport

/-- A program beside another has another port. -/
theorem Wired.port_ne {n : Node} (h : Wired n) {before after : List Native}
    {native m : Native} (hnatives : n.natives = before ++ (native :: after))
    (hm : m ∈ before ++ after) : m.port ≠ native.port := by
  have hnodup := h.nodup
  rw [hnatives, List.map_append, List.map_cons, List.nodup_middle, List.nodup_cons,
    ← List.map_append] at hnodup
  intro heq
  exact hnodup.1 (heq ▸ List.mem_map_of_mem hm)

/-- Programs may go or end, and answers may be taken. -/
theorem Wired.weaken {n n' : Node} (h : Wired n)
    (hports : (n'.natives.map Native.port).Sublist (n.natives.map Native.port))
    (hstage : ∀ m' ∈ n'.natives, ∃ m ∈ n.natives,
      m.port = m'.port ∧ (m'.stage = .running → m.stage = .running))
    (hmail : (answers n'.mailbox).Sublist (answers n.mailbox))
    (hnext : n.nextPort ≤ n'.nextPort) : Wired n' where
  nodup := h.nodup.sublist hports
  opened m' hm' := by
    obtain ⟨m, hm, hport, -⟩ := hstage m' hm'
    have := h.opened m hm
    omega
  sent a ha := (h.sent a (hmail.subset ha)).trans_le hnext
  once := h.once.sublist (hmail.map _)
  done a ha m' hm' hport hrunning := by
    obtain ⟨m, hm, hport', hrunning'⟩ := hstage m' hm'
    exact h.done a (hmail.subset ha) m hm (hport'.trans hport) (hrunning' hrunning)

/-- No program changes. -/
theorem Wired.same {n n' : Node} (h : Wired n) (hnatives : n'.natives = n.natives)
    (hmail : (answers n'.mailbox).Sublist (answers n.mailbox))
    (hnext : n.nextPort ≤ n'.nextPort) : Wired n' :=
  h.weaken (by rw [hnatives]) (fun m hm => ⟨m, hnatives ▸ hm, rfl, id⟩) hmail hnext

/-- One program changes, and stays at its port. -/
theorem Wired.update {n n' : Node} (h : Wired n) {before after : List Native}
    {native native' : Native} (hnatives : n.natives = before ++ (native :: after))
    (hnatives' : n'.natives = before ++ (native' :: after))
    (hport : native'.port = native.port)
    (hstage : native'.stage = .running → native.stage = .running)
    (hmail : n'.mailbox = n.mailbox) (hnext : n'.nextPort = n.nextPort) : Wired n' := by
  refine h.weaken ?_ (fun m hm => ?_) (by rw [hmail]) hnext.ge
  · rw [hnatives, hnatives', List.map_append, List.map_append, List.map_cons,
      List.map_cons, hport]
  · rw [hnatives', mem_middle] at hm
    rw [hnatives]
    rcases hm with rfl | hm
    · exact ⟨native, mem_middle.mpr (.inl rfl), hport.symm, hstage⟩
    · exact ⟨m, mem_middle.mpr (.inr hm), rfl, id⟩

/-- A restart of the miner closes every port. -/
theorem Wired.restart {n : Node} (h : Wired n) : Wired (n.restart C) := by
  refine h.weaken ?_ (fun m' hm' => ?_) (List.nil_sublist _) le_rfl
  · simp only [Node.restart, List.map_map, Function.comp_def]
    exact List.Sublist.refl _
  · obtain ⟨m, hm, rfl⟩ := List.mem_map.mp hm'
    exact ⟨m, hm, rfl, id⟩

theorem Wired.closeNative {n : Node} {port : Nat} (h : Wired n) :
    Wired (n.closeNative C port) := by
  unfold Node.closeNative
  split
  · refine h.weaken ?_ (fun m' hm' => ?_) (List.Sublist.refl _) le_rfl
    · simp only [stopped, List.map_map]
      refine (List.map_congr_left fun m _ => ?_) ▸ List.Sublist.refl _
      simp only [Function.comp_apply]
      split <;> rfl
    · obtain ⟨m, hm, rfl⟩ := List.mem_map.mp hm'
      refine ⟨m, hm, ?_⟩
      split <;> exact ⟨rfl, id⟩
  · exact h.restart

theorem Wired.closeHasher {n : Node} {port : Nat} (h : Wired n) :
    Wired (n.closeHasher C port) := by
  unfold Node.closeHasher
  split
  · exact h.same rfl (List.Sublist.refl _) le_rfl
  · exact h.restart

theorem wired_of_minerMove {n n' : Node} (h : Wired n) (hmove : MinerMove C n n') :
    Wired n' := by
  have hreceive {message : Message} {rest : List Message}
      (hmail : receive n.mailbox = some (message, rest)) :
      Wired { n with mailbox := rest } :=
    h.same rfl ((receive_spec hmail).2 ▸ List.sublist_append_right _ _) le_rfl
  cases hmove with
  | ignoreStop hphase hmail | startRound hphase hmail =>
      exact h.same rfl (by simp [hmail]) le_rfl
  | strayLine | mintRaises | wrongLine | wrongNonce | insertRaises => exact h.restart
  | writeRaises =>
      refine Wired.restart (h.same rfl ?_ le_rfl)
      exact List.Sublist.refl _
  | mint | store | refuse | written | write =>
      exact h.same rfl (List.Sublist.refl _) le_rfl
  | openProcessor =>
      constructor
      · rw [List.map_cons, List.nodup_cons]
        refine ⟨fun hmem => ?_, h.nodup⟩
        obtain ⟨m, hm, hport⟩ := List.mem_map.mp hmem
        exact (h.opened m hm).ne hport
      · intro m hm
        rcases List.mem_cons.mp hm with rfl | hm
        · exact Nat.lt_succ_self _
        · exact (h.opened m hm).trans (Nat.lt_succ_self _)
      · exact fun a ha => (h.sent a ha).trans (Nat.lt_succ_self _)
      · exact h.once
      · intro a ha m hm hport
        rcases List.mem_cons.mp hm with rfl | hm
        · exact absurd hport (h.sent a ha).ne'
        · exact h.done a ha m hm hport
  | closeProcessor => exact h.closeNative
  | closeHashfactor => exact h.closeHasher
  | stopReceiving hphase hmail | stopHashing hphase hmail
  | takeResult hphase hmail | takeNonce hphase hmail =>
      exact (hreceive hmail).same rfl (List.Sublist.refl _) le_rfl
  | buildNext => exact h.same rfl (List.Sublist.refl _) (Nat.le_succ _)
  | castMineNextBlock => exact h.same rfl (by simp) le_rfl

theorem wired_of_p2pMove {n n' : Node} (h : Wired n) (hmove : P2PMove C P fuel n n') :
    Wired n' := by
  cases hmove with
  | stopMiner | castMineNextBlock => exact h.same rfl (by simp) le_rfl
  | _ => exact h.same rfl (List.Sublist.refl _) le_rfl

/-- A program that has ended sends its answer. -/
theorem Wired.finish {n : Node} (h : Wired n) {before after : List Native}
    {native : Native} (hnatives : n.natives = before ++ (native :: after))
    (hstage : native.stage = .running) :
    Wired { n with
      natives := before ++ { native with stage := .printed } :: after
      mailbox := n.mailbox ++ [.result native.port ⟨native.processed, native.entries⟩] } := by
  have hmem : native ∈ n.natives := hnatives ▸ mem_middle.mpr (.inl rfl)
  have hended : Wired { n with
      natives := before ++ { native with stage := .printed } :: after } :=
    h.update hnatives rfl rfl nofun rfl rfl
  constructor
  · exact hended.nodup
  · exact hended.opened
  · intro a ha
    rcases List.mem_append.mp (answers_append _ _ ▸ ha) with ha | ha
    · exact h.sent a ha
    · cases List.mem_singleton.mp ha
      exact h.opened native hmem
  · have hfresh : native.port ∉ (answers n.mailbox).map Prod.fst := by
      intro hport
      obtain ⟨a, ha, hport⟩ := List.mem_map.mp hport
      exact h.done a ha native hmem hport.symm hstage
    simp only [answers_append, answers_cons, answer_result, answers_nil,
      List.append_nil, List.map_append, List.map_cons, List.map_nil]
    exact List.nodup_append_comm.mp (List.nodup_cons.mpr ⟨hfresh, h.once⟩)
  · intro a ha m hm hport
    rcases List.mem_append.mp (answers_append _ _ ▸ ha) with ha | ha
    · exact hended.done a ha m hm hport
    · cases List.mem_singleton.mp ha
      rw [hended.eq_of_port rfl hm hport]
      exact nofun

theorem wired_of_nativeMove {n n' : Node} {action : Action} (h : Wired n)
    (hmove : NativeMove C P fuel n action n') : Wired n' := by
  cases hmove with
  | pop hnatives | execute hnatives => exact h.update hnatives rfl rfl id rfl rfl
  | undecodable hnatives | executeDies hnatives =>
      exact h.update hnatives rfl rfl nofun rfl rfl
  | @finish before after native hnatives hstage hpopped =>
      by_cases hconnected : native.connected = true
      · simp only [hconnected, if_true]
        exact hconnected ▸ h.finish hnatives hstage
      · refine h.update hnatives rfl rfl nofun ?_ rfl
        exact if_neg hconnected
  | exit hnatives =>
      refine h.weaken ?_ (fun m hm => ?_) (List.Sublist.refl _) le_rfl
      · rw [hnatives]
        exact ((List.sublist_cons_self _ _).append_left _).map _
      · rw [hnatives]
        exact ⟨m, mem_middle.mpr (.inr hm), rfl, id⟩
  | found => exact h.same rfl (by simp) le_rfl
  | exitHasher => exact h.same rfl (List.Sublist.refl _) le_rfl

theorem wired_of_step {n n' : Node} {action : Action} (h : Wired n)
    (hstep : n.step C P fuel action = some n') : Wired n' := by
  cases move_of_step hstep with
  | post | refusePost | deliver => exact h.same rfl (List.Sublist.refl _) le_rfl
  | p2p hmove => exact wired_of_p2pMove h hmove
  | miner hmove => exact wired_of_minerMove h hmove
  | native hmove => exact wired_of_nativeMove h hmove

theorem wired_start (blocks : List Block) (stores : Stores) :
    Wired (start blocks stores) where
  nodup := List.nodup_nil
  opened _ h := absurd h List.not_mem_nil
  sent _ h := absurd h List.not_mem_nil
  once := List.nodup_nil
  done _ h := absurd h List.not_mem_nil

/-- **In every run, no two programs share a port, and one whose answer is in the
mailbox runs no longer.** -/
theorem wired_of_run {blocks : List Block} {stores : Stores} {actions : List Action}
    {n : Node} (h : run C P fuel (start blocks stores) actions = some n) : Wired n :=
  Runs.invariant_of_run (fun _ _ _ hn _ hstep => wired_of_step hn hstep)
    (wired_start blocks stores) (Runs.meets_true _ _) h

/-- A peer's block stops a round whose program prints its result all the same. -/
def leftBehindRun : List Action :=
  [ .miner, .miner, .miner, .deliver (.block (Script.peerBlock [])), .p2p, .p2p, .finish 0
  , .miner ]

theorem wired_of_run_at_left_behind :
    ∃ n, Script.nodeRun leftBehindRun = some n ∧ n.natives.length = 1 ∧
      (answers n.mailbox).length = 1 ∧ Wired n := by
  have hrun : (Script.nodeRun leftBehindRun).map
      (fun n => (n.natives.length, (answers n.mailbox).length)) = some (1, 1) := by rfl
  obtain ⟨n, hn, hlengths⟩ := Option.map_eq_some_iff.mp hrun
  simp only [Prod.mk.injEq] at hlengths
  exact ⟨n, hn, hlengths.1, hlengths.2, wired_of_run hn⟩

end Ellipticoind.Ports.Node
