import Ellipticoind.Ports.Network
import Ellipticoind.Ports.Serialisable
import Mathlib.Data.List.Sort

/-!
# A network with one miner

Nodes whose configuration does not enable the miner only apply blocks.  Where all but one are
of this kind, nobody forks: the numbers of that one's blocks go up by one, it applies no block,
and the others have some of its blocks, in its order.

A block may be lost on its way, and the next one is applied all the same, for a number larger
than the best one will do.

## Main results

* `single_miner_agrees` — every chain is part of the miner's, and two nodes have the same
  block at a number, if both have any.
-/

namespace Ellipticoind.Ports

open Ellipticoind.Verified Ellipticoind.Ports.Node

variable {ι : Type} {P : Platform} {fuel : Nat} {C : NodeConfig}

/-! ## Numbers -/

/-- Each block has the number next to those before. -/
def Numbered : List Block → Prop
  | [] => True
  | block :: rest => block.number = nextBlockNumber (best rest) ∧ Numbered rest

/-- The numbers go up. -/
def Rising (blocks : List Block) : Prop := blocks.Pairwise fun a b => b.number < a.number

theorem rising_cons {blocks : List Block} (h : Rising blocks) {block : Block}
    (hnumber : nextBlockNumber (best blocks) ≤ block.number) : Rising (block :: blocks) :=
  .cons (fun _ hother => (number_lt_next hother).trans_le hnumber) h

theorem Numbered.rising {blocks : List Block} (h : Numbered blocks) : Rising blocks := by
  induction blocks with
  | nil => exact .nil
  | cons block rest ih => exact rising_cons (ih h.2) h.1.ge

theorem Numbered.next_eq {blocks : List Block} (h : Numbered blocks) :
    nextBlockNumber (best blocks) = blocks.length := by
  induction blocks with
  | nil => rfl
  | cons block rest ih =>
      have hrest := ih h.2
      have hnumber := h.1
      unfold best
      cases hbest : best rest with
      | none =>
          rw [hbest] at hrest hnumber
          simp only [nextBlockNumber, List.length_cons] at hrest hnumber ⊢
          omega
      | some other =>
          rw [hbest] at hrest hnumber
          simp only [nextBlockNumber] at hrest hnumber
          simp only [if_pos (show other.number ≤ block.number by omega), nextBlockNumber,
            List.length_cons]
          omega

theorem Numbered.numbers {blocks : List Block} (h : Numbered blocks) :
    blocks.map Block.number = (List.range blocks.length).reverse := by
  induction blocks with
  | nil => rfl
  | cons block rest ih =>
      rw [List.map_cons, ih h.2, h.1, h.2.next_eq, List.length_cons, List.range_succ,
        List.reverse_append]
      rfl

theorem Rising.nodup_numbers {blocks : List Block} (h : Rising blocks) :
    (blocks.map Block.number).Nodup :=
  List.pairwise_map.mpr (h.imp fun hlt => Nat.ne_of_gt hlt)

theorem eq_of_number {blocks : List Block} (h : Rising blocks) {a b : Block}
    (ha : a ∈ blocks) (hb : b ∈ blocks) (hnumber : a.number = b.number) : a = b :=
  List.inj_on_of_nodup_map h.nodup_numbers ha hb hnumber

instance : Std.Antisymm fun a b : Block => b.number < a.number :=
  ⟨fun _ _ hab hba => absurd hab (Nat.lt_asymm hba)⟩

/-- Some blocks of a chain whose numbers go up stand in its order. -/
theorem sublist_of_rising {blocks blocks' : List Block} (h : Rising blocks)
    (h' : Rising blocks') (hsubset : blocks ⊆ blocks') : blocks.Sublist blocks' := by
  have hsubperm := List.subperm_of_subset (List.Nodup.of_map _ h.nodup_numbers) hsubset
  exact List.sublist_of_subperm_of_pairwise hsubperm h h'

theorem buildNext_number (best : Option Block) (publicKey emptyHash : Bytes)
    (transactions : List CompletedTransaction) :
    (buildNext best publicKey emptyHash transactions).number = nextBlockNumber best := by
  cases best <;> rfl

/-! ## The miner's node and the others -/

/-- The block that is mined will have the next number. -/
def MinerPhase.MinesNext (blocks : List Block) : MinerPhase → Prop
  | .hashfactor _ newBlock _ => newBlock.number = nextBlockNumber (best blocks)
  | .insertBlock block _ => block.number = nextBlockNumber (best blocks)
  | _ => True

namespace Node

/-- The node mines and applies nothing. -/
structure Leads (n : Node) : Prop where
  numbered : Numbered n.blocks
  mining : n.miner.MinesNext n.blocks
  idle : n.p2p = .loop

/-- The node applies and mines nothing. -/
structure Follows (n : Node) : Prop where
  rising : Rising n.blocks
  applying : ∀ block, n.p2p.block = some block →
    nextBlockNumber (best n.blocks) ≤ block.number

theorem leads_start (stores : Stores) : Leads (start [] stores) := ⟨trivial, trivial, rfl⟩

theorem follows_start (stores : Stores) : Follows (start [] stores) where
  rising := .nil
  applying _ h := nomatch h

theorem Leads.restart {n : Node} (h : Leads n) : Leads (n.restart C) :=
  { h with mining := trivial }

theorem leads_of_minerMove {n n' : Node} (h : Leads n) (hmove : MinerMove C n n') :
    Leads n' := by
  have hmining := h.mining
  cases hmove with
  | ignoreStop => exact { h with }
  | strayLine | wrongLine | wrongNonce | insertRaises | mintRaises => exact h.restart
  | writeRaises => exact { h with mining := trivial }
  | startRound | mint | openProcessor | stopReceiving | takeResult | stopHashing | refuse
  | written | castMineNextBlock | write => exact { h with mining := trivial }
  | closeProcessor =>
      unfold closeNative
      split <;> exact { h with mining := trivial }
  | closeHashfactor =>
      unfold closeHasher
      split <;> exact { h with mining := trivial }
  | buildNext => exact { h with mining := buildNext_number _ _ _ _ }
  | takeNonce hphase =>
      rw [hphase] at hmining
      exact { h with mining := hmining }
  | store hphase =>
      rw [hphase] at hmining
      exact { h with numbered := ⟨hmining, h.numbered⟩, mining := trivial }

/-- Blocks that the node has are refused. -/
theorem leads_of_p2pMove {n n' : Node} (h : Leads n)
    (hinbox : ∀ block, .block block ∈ n.inbox → block ∈ n'.blocks)
    (hmove : P2PMove C P fuel n n') : Leads n' := by
  have hidle := h.idle
  cases hmove with
  | post | reject => exact { h with }
  | @accept block rest hphase hmessage hvalid =>
      obtain ⟨-, hnumber⟩ := Bool.and_eq_true_iff.mp hvalid
      have hmem : block ∈ n.blocks :=
        hinbox block (by rw [hmessage]; exact List.mem_cons_self)
      exact absurd (of_decide_eq_true hnumber) (Nat.not_le.mpr (number_lt_next hmem))
  | writeRaises hphase =>
      rw [hidle] at hphase
      rcases hphase with ⟨hphase, -⟩ | hphase <;> cases hphase
  | stopMiner hphase | openProcessor hphase | undecodable hphase | takeResult hphase
  | execute hphase | executeDies hphase | writeFirst hphase | write hphase | written hphase
  | store hphase | insertRaises hphase | castMineNextBlock hphase =>
      rw [hidle] at hphase
      cases hphase

theorem follows_of_p2pMove {n n' : Node} (h : Follows n) (hmove : P2PMove C P fuel n n') :
    Follows n' := by
  have happlying := h.applying
  cases hmove with
  | post hphase | reject hphase => exact { h with }
  | accept hphase hinbox hvalid =>
      refine { h with applying := fun block hblock => ?_ }
      cases hblock
      exact of_decide_eq_true (Bool.and_eq_true_iff.mp hvalid).2
  | stopMiner hphase | openProcessor hphase | takeResult hphase | execute hphase
  | writeFirst hphase | write hphase | written hphase =>
      rw [hphase] at happlying
      exact { h with applying := happlying }
  | undecodable | executeDies | castMineNextBlock | writeRaises | insertRaises =>
      exact { h with applying := fun block hblock => nomatch hblock }
  | store hphase =>
      rw [hphase] at happlying
      exact { h with
        rising := rising_cons h.rising (happlying _ rfl)
        applying := fun block hblock => nomatch hblock }

theorem leads_of_step {n n' : Node} {action : Action} (h : Leads n)
    (hinbox : ∀ block, .block block ∈ n.inbox → block ∈ n'.blocks)
    (hstep : n.step C P fuel action = some n') : Leads n' := by
  cases move_of_step hstep with
  | post | refusePost | deliver => exact { h with }
  | p2p hmove => exact leads_of_p2pMove h hinbox hmove
  | miner hmove => exact leads_of_minerMove h hmove
  | native hmove => cases hmove <;> exact { h with }

theorem follows_of_step {n n' : Node} {action : Action} (h : Follows n)
    (haction : action ≠ .miner) (hstep : n.step C P fuel action = some n') : Follows n' := by
  cases move_of_step hstep with
  | post | refusePost | deliver => exact { h with }
  | p2p hmove => exact follows_of_p2pMove h hmove
  | miner => exact absurd rfl haction
  | native hmove => cases hmove <;> exact { h with }

end Node

/-! ## The network -/

/-- The part of the node in a network whose miner is `m`. -/
structure Plays (m i : ι) (n : Node) : Prop where
  leads : i = m → Leads n
  follows : i ≠ m → Follows n

/-- Only the node `m` mines. -/
def MinesOnly (m i : ι) (action : Action) : Prop := action = .miner → i = m

theorem keeps_plays {publicKey : ι → Bytes} (m : ι) :
    Gossip.Keeps (parties C publicKey P fuel) (fun n n' => n.blocks ⊆ n'.blocks)
      (MinesOnly m)
      (fun w i n => Mined (· ∈ (w m).blocks) (publicKey i) n ∧ Plays m i n)
      (fun w message => ∀ block, message = .block block → block ∈ (w m).blocks) where
  refl _ := List.Subset.refl _
  grows _ _ _ _ hstep := blocks_of_step (parties_step hstep)
  receives _ _ := List.Subset.refl _
  invMono _ _ _ _ hle h := ⟨h.1.mono fun _ hblock => hle m hblock, h.2⟩
  goodMono _ _ _ hle h block heq := hle m (h block heq)
  act w i n action n' hw h hallowed hstep := by
    obtain ⟨hmined, hplays⟩ := h
    have hnode := parties_step hstep
    refine ⟨⟨?_, ⟨?_, ?_⟩⟩, fun message hmessage => ?_⟩
    · refine mined_of_step (C := C.withKey (publicKey i)) (fun hminer block hblock _ => ?_)
        hmined ?_ hnode
      · rw [← hallowed hminer, hw]
        exact hblock
      · rintro block rfl
        cases hstep
    · rintro rfl
      refine leads_of_step (hplays.leads rfl) (fun block hblock => ?_) hnode
      rw [← hw]
      exact hmined.inbox block hblock
    · intro hi
      exact follows_of_step (hplays.follows hi) (fun hminer => hi (hallowed hminer)) hnode
    · exact block_of_broadcasts hmined hmessage
  receive w i n message h hmessage := by
    obtain ⟨hmined, hplays⟩ := h
    refine ⟨hmined.deliver hmessage, ⟨fun hi => ?_, fun hi => ?_⟩⟩
    · exact { hplays.leads hi with }
    · exact { hplays.follows hi with }

/-- **With one miner, all chains agree.**  The numbers of its blocks go up from 0 by one; the
blocks of every other node are among them, in the same order; and two nodes that have a block
at the same number have the same one.  Messages are lost, repeated and late. -/
theorem single_miner_agrees [DecidableEq ι] {publicKey : ι → Bytes} {stores : ι → Stores}
    {m : ι} {labels : List (Gossip.Label ι Action)} {net : Gossip.Network ι Node P2PMessage}
    (hminer : ∀ label ∈ labels, label.Allowed (MinesOnly m))
    (hrun : Runs.run (Gossip.step (parties C publicKey P fuel)) (startNetwork stores) labels =
      some net) :
    (net.nodes m).blocks.map Block.number =
        (List.range (net.nodes m).blocks.length).reverse ∧
      (∀ i, (net.nodes i).blocks.Sublist (net.nodes m).blocks) ∧
      ∀ i j, ∀ a ∈ (net.nodes i).blocks, ∀ b ∈ (net.nodes j).blocks,
        a.number = b.number → a = b := by
  have hholds := Gossip.invariant_of_run (keeps_plays m)
    ⟨fun i => ⟨mined_start (stores i), ⟨fun _ => leads_start _, fun _ => follows_start _⟩⟩,
      fun message h => absurd h List.not_mem_nil⟩ hminer hrun
  have hsubset (i : ι) : (net.nodes i).blocks ⊆ (net.nodes m).blocks :=
    fun block hblock => (hholds.nodes i).1.stored block hblock
  have hleads : Leads (net.nodes m) := (hholds.nodes m).2.leads rfl
  have hrising (i : ι) : Rising (net.nodes i).blocks := by
    by_cases hi : i = m
    · rw [hi]
      exact hleads.numbered.rising
    · exact ((hholds.nodes i).2.follows hi).rising
  refine ⟨hleads.numbered.numbers, fun i => ?_, fun i j a ha b hb hnumber => ?_⟩
  · exact sublist_of_rising (hrising i) (hrising m) (hsubset i)
  · exact eq_of_number (hrising m) (hsubset i ha) (hsubset j hb) hnumber

namespace Script

theorem minesOnly_gossipRun : ∀ label ∈ gossipRun, label.Allowed (MinesOnly false) := by
  intro label hlabel
  rcases List.mem_append.mp hlabel with hmined | hothers
  · obtain ⟨action, -, rfl⟩ := List.mem_map.mp hmined
    exact fun _ => rfl
  rcases List.mem_cons.mp hothers with rfl | happlied
  · trivial
  · rw [List.eq_of_mem_replicate happlied]
    exact nofun

end Script

open Script in
/-- The second node has all of the miner's chain. -/
theorem single_miner_agrees_at_gossip_run :
    ∃ net, networkRun gossipRun = some net ∧ (net.nodes true).blocks = [pingBlock] ∧
      (net.nodes true).blocks.Sublist (net.nodes false).blocks := by
  obtain ⟨net, hnet, hblocks⟩ := gossipRun_blocks
  exact ⟨net, hnet, hblocks, (single_miner_agrees minesOnly_gossipRun hnet).2.1 true⟩

end Ellipticoind.Ports
