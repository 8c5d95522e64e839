import Ellipticoind.Ports.Copies
import Ellipticoind.Ports.Replicas
import Ellipticoind.Verified.Gossip

/-!
# Nodes that gossip

The router broadcasts the transactions whose signatures it has checked, and the
miner broadcasts the blocks it has stored.  What a peer receives it pushes on its
own queue or applies, and does not pass on.

A node checks no signature of what a peer has sent: it has to rely on its peers.
In a network of nodes that all run this program, and to which nobody else sends
anything, that is enough.

## Main results

* `authorised_of_network` — whatever is run anywhere was posted to some node with
  a valid signature, or is a node's own mint.
* `mined_of_network` — every stored block was mined by a node, which has it.
-/

namespace Ellipticoind.Ports

open Ellipticoind.Verified Ellipticoind.Ports.Node

variable {ι : Type} {P : Platform} {fuel : Nat}

/-! ## The network -/

/-- The program of all nodes, at the key of one of them. -/
def NodeConfig.withKey (C : NodeConfig) (publicKey : Bytes) : NodeConfig :=
  { C with publicKey := publicKey }

/-- What a node hands to `P2P.broadcast` as it moves: a transaction that is posted, and
the block that it has stored and whose changesets it has written. -/
def Node.broadcasts (C : NodeConfig) (n : Node) : Action → List P2PMessage
  | .post request => (Records.queueEntry C.codec request).toList.map .transaction
  | .miner =>
      match n.miner with
      | .writeChangesets block _ [] => [.block block]
      | _ => []
  | _ => []

/-- The nodes, each with its key.  Messages come from the network only. -/
def parties (C : NodeConfig) (publicKey : ι → Bytes) (P : Platform) (fuel : Nat) :
    Gossip.Parties ι Node Action P2PMessage where
  step i n action :=
    match action with
    | .deliver _ => none
    | action => n.step (C.withKey (publicKey i)) P fuel action
  sends _ n action := n.broadcasts C action
  receive n message := n.deliver message

theorem parties_step {C : NodeConfig} {publicKey : ι → Bytes} {i : ι} {n n' : Node}
    {action : Action} (h : (parties C publicKey P fuel).step i n action = some n') :
    n.step (C.withKey (publicKey i)) P fuel action = some n' := by
  cases action with
  | deliver message => cases h
  | _ => exact h

/-- Nodes without blocks, about to mine their first ones. -/
def startNetwork (stores : ι → Stores) : Gossip.Network ι Node P2PMessage where
  nodes i := Node.start [] (stores i)
  sent := []

namespace Script

/-- Two nodes, with a key each. -/
def keys (second : Bool) : Bytes := if second then [8] else [7]

/-- The first node mines a block of a posted transaction, the second one applies it. -/
def gossipRun : List (Gossip.Label Bool Action) :=
  minedRun.map (.act false) ++ .deliver true 1 :: List.replicate 12 (.act true .p2p)

def networkRun (labels : List (Gossip.Label Bool Action)) :
    Option (Gossip.Network Bool Node P2PMessage) :=
  Runs.run (Gossip.step (parties nodeConfig keys (platform []) 0))
    (startNetwork fun _ => .empty) labels

end Script

/-! ## Transactions that are vouched for -/

/-- The message brings transactions of which `Q` is known. -/
def P2PMessage.Vetted (C : NodeConfig) (Q : Transaction → Prop) : P2PMessage → Prop
  | .transaction entry => ∀ t, C.decodeTransaction entry = some t → Q t
  | .block b => ∀ t ∈ transactions b.transactions, Q t

/-- The transactions of the block that the miner works on, up to its broadcast. -/
def toBroadcast : MinerPhase → List Transaction
  | .writeChangesets block _ _ => transactions block.transactions
  | phase => toMine phase

namespace Node

/-- Every transaction that has come to the node is one of which `Q` is known, wherever
it is. -/
structure Vetted (C : NodeConfig) (Q : Transaction → Prop) (n : Node) : Prop where
  queued : ∀ entry ∈ n.queued, ∀ t, C.decodeTransaction entry = some t → Q t
  popped : ∀ m ∈ n.natives, ∀ entry, m.popped = some entry → ∀ t,
    C.decodeTransaction entry = some t → Q t
  completed : ∀ m ∈ n.natives, ∀ t ∈ transactions m.processed.transactions, Q t
  answered : ∀ a ∈ answers n.mailbox, ∀ t ∈ transactions a.2.processed.transactions, Q t
  mining : ∀ t ∈ toBroadcast n.miner, Q t
  storing : ∀ t ∈ toStore n.p2p, Q t
  applying : ∀ t ∈ toApply n.p2p, Q t
  inbox : ∀ message ∈ n.inbox, message.Vetted C Q
  executed : ∀ t ∈ n.history.executed, Q t
  stored : ∀ block ∈ n.blocks, ∀ t ∈ transactions block.transactions, Q t

section Vetted

variable {C : NodeConfig} {Q : Transaction → Prop}

theorem vetted_start (stores : Stores) : Vetted C Q (start [] stores) where
  queued _ h := absurd h List.not_mem_nil
  popped _ h := absurd h List.not_mem_nil
  completed _ h := absurd h List.not_mem_nil
  answered _ h := absurd h List.not_mem_nil
  mining _ h := nomatch h
  storing _ h := absurd h List.not_mem_nil
  applying _ h := absurd h List.not_mem_nil
  inbox _ h := absurd h List.not_mem_nil
  executed _ h := absurd h List.not_mem_nil
  stored _ h := absurd h List.not_mem_nil

theorem Vetted.push {n : Node} (h : Vetted C Q n) {entry : Bytes}
    (hentry : ∀ t, C.decodeTransaction entry = some t → Q t) :
    Vetted C Q (n.push C entry) :=
  { h with
    queued := List.forall_mem_cons.mpr ⟨hentry, h.queued⟩ }

theorem Vetted.restart {n : Node} (h : Vetted C Q n) : Vetted C Q (n.restart C) :=
  { h with
    popped := fun m hm entry hpopped => by
      obtain ⟨native, hmem, rfl⟩ := List.mem_map.mp hm
      exact h.popped native hmem entry hpopped
    completed := fun m hm => by
      obtain ⟨native, hmem, rfl⟩ := List.mem_map.mp hm
      exact h.completed native hmem
    answered := fun a ha => absurd ha List.not_mem_nil
    mining := fun t ht => nomatch ht }

theorem Vetted.closeNative {n : Node} {port : Nat} (h : Vetted C Q n) :
    Vetted C Q (n.closeNative C port) := by
  unfold Node.closeNative
  split
  · exact { h with
      popped := fun m hm entry hpopped => by
        obtain ⟨native, hmem, rfl⟩ := List.mem_map.mp hm
        refine h.popped native hmem entry ?_
        split at hpopped <;> exact hpopped
      completed := fun m hm => by
        obtain ⟨native, hmem, rfl⟩ := List.mem_map.mp hm
        split <;> exact h.completed native hmem
      mining := fun t ht => nomatch ht }
  · exact h.restart

theorem Vetted.closeHasher {n : Node} {port : Nat} (h : Vetted C Q n) :
    Vetted C Q (n.closeHasher C port) := by
  unfold Node.closeHasher
  split
  · exact { h with mining := fun t ht => nomatch ht }
  · exact h.restart

/-- A message is taken from the mailbox. -/
theorem Vetted.receive {n : Node} (h : Vetted C Q n) {message : Message}
    {rest : List Message} (hmail : Ports.receive n.mailbox = some (message, rest)) :
    Vetted C Q { n with mailbox := rest } :=
  { h with
    answered := fun a ha => by
      refine h.answered a ?_
      rw [(receive_spec hmail).2]
      exact List.mem_append_right _ ha }

theorem vetted_of_minerMove {n n' : Node}
    (hC : C.codec.Writes) (hmint : Q (mintTransaction C.publicKey)) (h : Vetted C Q n)
    (hmove : MinerMove C n n') : Vetted C Q n' := by
  have hmining := h.mining
  cases hmove with
  | ignoreStop hphase hmail =>
      exact { h with answered := fun a ha => h.answered a (by rw [hmail]; exact ha) }
  | startRound hphase hmail =>
      exact { h with
        answered := fun a ha => h.answered a (by rw [hmail]; exact ha)
        mining := fun t ht => nomatch ht }
  | strayLine | wrongLine | wrongNonce | insertRaises | mintRaises => exact h.restart
  | writeRaises => exact Vetted.restart { h with }
  | @mint entry hphase hentry =>
      have hread (t : Transaction) (ht : C.decodeTransaction entry = some t) : Q t := by
        rw [mint_of_decode hC hentry ht]
        exact hmint
      exact { h.push hread with mining := fun t ht => nomatch ht }
  | openProcessor =>
      exact { h with
        popped := List.forall_mem_cons.mpr ⟨nofun, h.popped⟩
        completed := List.forall_mem_cons.mpr ⟨nofun, h.completed⟩
        mining := fun t ht => nomatch ht }
  | closeProcessor => exact h.closeNative
  | closeHashfactor => exact h.closeHasher
  | stopReceiving hphase hmail | stopHashing hphase hmail =>
      exact { h.receive hmail with mining := fun t ht => nomatch ht }
  | @takeResult port port' r rest hphase hmail =>
      refine { h.receive hmail with mining := h.answered (port', r) ?_ }
      rw [(receive_spec hmail).2]
      exact List.mem_cons_self
  | takeNonce hphase hmail =>
      rw [hphase] at hmining
      exact { h.receive hmail with mining := hmining }
  | buildNext hphase | write hphase =>
      rw [hphase] at hmining
      exact { h with mining := hmining }
  | store hphase =>
      rw [hphase] at hmining
      exact { h with
        mining := hmining
        stored := List.forall_mem_cons.mpr ⟨hmining, h.stored⟩ }
  | refuse | written => exact { h with mining := fun t ht => nomatch ht }
  | castMineNextBlock =>
      exact { h with
        answered := fun a ha => h.answered a (by simpa using ha)
        mining := fun t ht => nomatch ht }

theorem vetted_of_p2pMove {n n' : Node}
    (hcodec : ∀ cs ts, C.decode (C.encode cs) = some ts → ts = transactions cs)
    (h : Vetted C Q n) (hmove : P2PMove C P fuel n n') : Vetted C Q n' := by
  have hinboxes := h.inbox
  have hstoring := h.storing
  have happlying := h.applying
  cases hmove with
  | post hphase hinbox =>
      rw [hinbox] at hinboxes
      obtain ⟨hentry, hrest⟩ := List.forall_mem_cons.mp hinboxes
      exact { h.push hentry with inbox := hrest }
  | accept hphase hinbox =>
      rw [hinbox] at hinboxes
      obtain ⟨hblock, hrest⟩ := List.forall_mem_cons.mp hinboxes
      exact { h with storing := hblock, applying := hblock, inbox := hrest }
  | reject hphase hinbox =>
      rw [hinbox] at hinboxes
      exact { h with inbox := (List.forall_mem_cons.mp hinboxes).2 }
  | stopMiner hphase =>
      rw [hphase] at hstoring
      exact { h with
        answered := fun a ha => h.answered a (by simpa using ha)
        storing := hstoring
        applying := hstoring }
  | openProcessor hphase hdecode =>
      rw [hphase] at hstoring
      rw [hcodec _ _ hdecode]
      exact { h with storing := hstoring, applying := hstoring }
  | undecodable =>
      exact { h with
        storing := fun t ht => nomatch ht
        applying := fun t ht => nomatch ht }
  | takeResult hphase | writeFirst hphase | write hphase | written hphase =>
      rw [hphase] at hstoring
      exact { h with storing := hstoring, applying := fun t ht => nomatch ht }
  | execute hphase =>
      rw [hphase] at hstoring happlying
      obtain ⟨hfirst, hrest⟩ := List.forall_mem_cons.mp happlying
      exact { h with
        storing := hstoring
        applying := hrest
        executed := List.forall_mem_cons.mpr ⟨hfirst, h.executed⟩ }
  | executeDies hphase =>
      rw [hphase] at happlying
      obtain ⟨hfirst, hrest⟩ := List.forall_mem_cons.mp happlying
      exact { h with
        storing := fun t ht => nomatch ht
        applying := fun t ht => nomatch ht
        executed := List.forall_mem_cons.mpr ⟨hfirst, h.executed⟩ }
  | writeRaises | insertRaises =>
      exact { h with
        storing := fun t ht => nomatch ht
        applying := fun t ht => nomatch ht
        inbox := fun message hm => nomatch hm }
  | store hphase =>
      rw [hphase] at hstoring
      exact { h with
        storing := fun t ht => nomatch ht
        applying := fun t ht => nomatch ht
        stored := List.forall_mem_cons.mpr ⟨hstoring, h.stored⟩ }
  | castMineNextBlock =>
      exact { h with
        answered := fun a ha => h.answered a (by simpa using ha)
        storing := fun t ht => nomatch ht
        applying := fun t ht => nomatch ht }

/-- One element of a list is replaced. -/
theorem forall_middle {α : Type} {p : α → Prop} {xs before after : List α} {x y : α}
    (h : ∀ z ∈ xs, p z) (hxs : xs = before ++ (x :: after)) (hy : p y) :
    ∀ z ∈ before ++ (y :: after), p z := by
  intro z hz
  rcases mem_middle.mp hz with rfl | hz
  · exact hy
  · exact h z (by rw [hxs]; exact mem_middle.mpr (.inr hz))

theorem vetted_of_nativeMove {n n' : Node} {action : Action} (h : Vetted C Q n)
    (hmove : NativeMove C P fuel n action n') : Vetted C Q n' := by
  cases hmove with
  | @pop before after native queued entry hnatives hstage hpopped hqueued =>
      have hmem : native ∈ n.natives := by rw [hnatives]; exact mem_middle.mpr (.inl rfl)
      have hqueue := h.queued
      rw [hqueued] at hqueue
      obtain ⟨hrest, hentry⟩ := List.forall_mem_append.mp hqueue
      refine { h with
        queued := hrest
        popped := forall_middle h.popped hnatives fun entry' heq => ?_
        completed := forall_middle h.completed hnatives (h.completed native hmem) }
      cases heq
      exact List.forall_mem_singleton.mp hentry
  | @undecodable before after native entry hnatives =>
      have hmem : native ∈ n.natives := by rw [hnatives]; exact mem_middle.mpr (.inl rfl)
      exact { h with
        popped := forall_middle h.popped hnatives (h.popped native hmem)
        completed := forall_middle h.completed hnatives (h.completed native hmem) }
  | @execute before after native entry t processed hnatives hstage hpopped hdecode hrun =>
      have hmem : native ∈ n.natives := by rw [hnatives]; exact mem_middle.mpr (.inl rfl)
      have ht := h.popped native hmem entry hpopped t hdecode
      obtain ⟨result, hprocessed⟩ := transactions_of_runTransaction hrun
      refine { h with
        popped := forall_middle h.popped hnatives nofun
        completed := forall_middle h.completed hnatives ?_
        executed := List.forall_mem_cons.mpr ⟨ht, h.executed⟩ }
      show ∀ u ∈ transactions processed.transactions, Q u
      rw [hprocessed, transactions_append, transactions_complete]
      exact List.forall_mem_append.mpr
        ⟨h.completed native hmem, List.forall_mem_singleton.mpr ht⟩
  | @executeDies before after native entry t hnatives hstage hpopped hdecode =>
      have hmem : native ∈ n.natives := by rw [hnatives]; exact mem_middle.mpr (.inl rfl)
      have ht := h.popped native hmem entry hpopped t hdecode
      exact { h with
        popped := forall_middle h.popped hnatives (h.popped native hmem)
        completed := forall_middle h.completed hnatives (h.completed native hmem)
        executed := List.forall_mem_cons.mpr ⟨ht, h.executed⟩ }
  | @finish before after native hnatives hstage hpopped =>
      have hmem : native ∈ n.natives := by rw [hnatives]; exact mem_middle.mpr (.inl rfl)
      refine { h with
        popped := forall_middle h.popped hnatives (h.popped native hmem)
        completed := forall_middle h.completed hnatives (h.completed native hmem)
        answered := fun a ha => ?_ }
      by_cases hconnected : native.connected = true
      · simp only [hconnected, if_true, answers_append, List.mem_append] at ha
        rcases ha with ha | ha
        · exact h.answered a ha
        · rw [List.mem_singleton.mp ha]
          exact h.completed native hmem
      · simp only [hconnected] at ha
        exact h.answered a ha
  | @exit before after native hnatives =>
      have hold (m : Native) (hm : m ∈ before ++ after) : m ∈ n.natives := by
        rw [hnatives]
        exact mem_middle.mpr (.inr hm)
      exact { h with
        popped := fun m hm => h.popped m (hold m hm)
        completed := fun m hm => h.completed m (hold m hm) }
  | found => exact { h with answered := fun a ha => h.answered a (by simpa using ha) }
  | exitHasher => exact { h with }

/-- What is queued for a request is vouched for. -/
def PostsVetted (C : NodeConfig) (Q : Transaction → Prop) : Action → Prop
  | .post request => ∀ entry, Records.queueEntry C.codec request = some entry →
      ∀ t, C.decodeTransaction entry = some t → Q t
  | _ => True

theorem vetted_of_step {n n' : Node} {action : Action} (hC : C.codec.Writes)
    (hcodec : ∀ cs ts, C.decode (C.encode cs) = some ts → ts = transactions cs)
    (hmint : Q (mintTransaction C.publicKey)) (h : Vetted C Q n)
    (hposts : PostsVetted C Q action)
    (hdelivers : ∀ message, action = .deliver message → message.Vetted C Q)
    (hstep : n.step C P fuel action = some n') : Vetted C Q n' := by
  cases move_of_step hstep with
  | post hentry => exact { h.push (hposts _ hentry) with }
  | refusePost => exact h
  | deliver =>
      exact { h with
        inbox := List.forall_mem_append.mpr
          ⟨h.inbox, List.forall_mem_singleton.mpr (hdelivers _ rfl)⟩ }
  | p2p hmove => exact vetted_of_p2pMove hcodec h hmove
  | miner hmove => exact vetted_of_minerMove hC hmint h hmove
  | native hmove => exact vetted_of_nativeMove h hmove

end Vetted

end Node

/-! ## Transactions in a network -/

/-- The transaction was posted to a node, with a signature of its sender over it. -/
def Posted (C : NodeConfig) (labels : List (Gossip.Label ι Action)) (t : Transaction) : Prop :=
  ∃ i request, .act i (.post request) ∈ labels ∧ Records.SignedAs C.codec request t

/-- What a router of the network queues for a request has the request's own fields. -/
def PostsKept (C : NodeConfig) (labels : List (Gossip.Label ι Action)) : Prop :=
  ∀ i request, .act i (.post request) ∈ labels → ∀ entry,
    Records.queueEntry C.codec request = some entry → Records.KeepsFields C.codec request

section Transactions

variable {C : NodeConfig} {publicKey : ι → Bytes} (hC : C.codec.Writes)
  (hcodec : ∀ cs ts, C.decode (C.encode cs) = some ts → ts = transactions cs)
include hC hcodec

/-- Nodes that are given and send only what is vouched for. -/
theorem keeps_vetted {Q : Transaction → Prop} (hmint : ∀ i, Q (mintTransaction (publicKey i))) :
    Gossip.Keeps (parties C publicKey P fuel) (fun _ _ => True)
      (fun _ action => PostsVetted C Q action) (fun _ _ n => Vetted C Q n)
      (fun _ message => message.Vetted C Q) where
  refl _ := trivial
  grows _ _ _ _ _ := trivial
  receives _ _ := trivial
  invMono _ _ _ _ _ h := h
  goodMono _ _ _ _ h := h
  act w i n action n' _ h hposts hstep := by
    refine ⟨?_, fun message hmessage => ?_⟩
    · have hvetted : Vetted (C.withKey (publicKey i)) Q n := { h with }
      have hposts' : PostsVetted (C.withKey (publicKey i)) Q action := by
        cases action <;> exact hposts
      have hafter : Vetted (C.withKey (publicKey i)) Q n' := by
        refine vetted_of_step hC hcodec (hmint i) hvetted hposts' ?_
          (parties_step hstep)
        rintro message rfl
        cases hstep
      exact { hafter with }
    · cases action with
      | post request =>
          obtain ⟨entry, hentry, rfl⟩ := List.mem_map.mp hmessage
          exact hposts entry (Option.mem_toList.mp hentry)
      | miner =>
          simp only [parties, broadcasts] at hmessage
          split at hmessage
          · rename_i block r hphase
            have hmining := h.mining
            rw [hphase] at hmining
            rw [List.mem_singleton.mp hmessage]
            exact hmining
          · cases hmessage
      | _ => cases hmessage
  receive _ i n message h hmessage :=
    { h with
      inbox := List.forall_mem_append.mpr
        ⟨h.inbox, List.forall_mem_singleton.mpr hmessage⟩ }

/-- **Whatever is run anywhere in the network was posted to some node with a valid signature,
or is the mint of one of the nodes**, and so is whatever stands in a block, if no router was
sent a struct that enumerates other fields.  The nodes move in any order, and messages are
lost, repeated and late. -/
theorem authorised_of_network [DecidableEq ι] {stores : ι → Stores}
    {labels : List (Gossip.Label ι Action)} {net : Gossip.Network ι Node P2PMessage}
    (hrun : Runs.run (Gossip.step (parties C publicKey P fuel)) (startNetwork stores) labels =
      some net) (hkept : PostsKept C labels) (i : ι) (t : Transaction)
    (ht : t ∈ (net.nodes i).history.executed ∨ t ∈ chain (net.nodes i).blocks) :
    (∃ j, t = mintTransaction (publicKey j)) ∨ Posted C labels t := by
  have hposts : ∀ label ∈ labels, label.Allowed fun _ action => PostsVetted C
      (fun t => (∃ j, t = mintTransaction (publicKey j)) ∨ Posted C labels t) action := by
    intro label hlabel
    cases label with
    | deliver => trivial
    | act j action =>
        cases action with
        | post request =>
            intro entry hentry t ht
            exact .inr ⟨j, request, hlabel,
              Records.signedAs_of_queueEntry hC (hkept j request hlabel entry hentry) hentry ht⟩
        | _ => trivial
  have hholds := Gossip.invariant_of_run
    (keeps_vetted hC hcodec fun j => .inl ⟨j, rfl⟩)
    ⟨fun j => vetted_start (stores j), fun message h => absurd h List.not_mem_nil⟩ hposts hrun
  have hvetted := hholds.nodes i
  rcases ht with hexecuted | hchain
  · exact hvetted.executed t hexecuted
  · obtain ⟨block, hblock, ht⟩ := List.mem_flatMap.mp hchain
    exact hvetted.stored block hblock t ht

end Transactions

open Script in
/-- The second node runs what was posted to the first one. -/
theorem authorised_of_network_at_gossip_run :
    ∃ net, networkRun gossipRun = some net ∧ (net.nodes true).history.executed = [ping] ∧
      ((∃ j, ping = mintTransaction (keys j)) ∨ Posted nodeConfig gossipRun ping) := by
  have hrun : (networkRun gossipRun).map
      (fun net => (net.nodes true).history.executed.map (is ping)) = some [true] := by
    decide +kernel
  obtain ⟨net, hnet, hpings⟩ := Option.map_eq_some_iff.mp hrun
  obtain ⟨t, hexecuted, ht⟩ := List.map_eq_singleton_iff.mp hpings
  cases eq_of_is rfl ht
  have hkept : PostsKept nodeConfig gossipRun := by
    intro i request hlabel entry _
    simp only [gossipRun, minedRun, List.map_cons, List.map_nil, List.mem_append, List.mem_cons,
      List.mem_replicate, Gossip.Label.act.injEq, Action.post.injEq, reduceCtorEq,
      List.not_mem_nil, and_false, or_false] at hlabel
    rw [hlabel.2]
    exact Records.keepsFields_of_plain rfl rfl
  refine ⟨net, hnet, hexecuted, authorised_of_network Records.codec_writes decode_encode hnet
    hkept true ping (.inl ?_)⟩
  rw [hexecuted]
  exact List.mem_cons_self

/-! ## Blocks in a network -/

/-- The block that is applied. -/
def ApplyPhase.block : ApplyPhase → Option Block
  | .stop b | .process b | .receiveNative b _ _ | .writeFirst b _ | .writeChangesets b _ _
  | .insert b => some b
  | .loop | .castMineNextBlock | .hung => none

/-- The miner works on a block of its own, which is stored by the time it is written. -/
def MinerPhase.Mines (M : Block → Prop) (key : Bytes) : MinerPhase → Prop
  | .hashfactor _ newBlock _ => newBlock.winner = key
  | .insertBlock block _ => block.winner = key
  | .writeChangesets block _ _ => M block
  | _ => True

namespace Node

/-- The node at this key mines blocks of its own, and has only blocks of `M`. -/
structure Mined (M : Block → Prop) (key : Bytes) (n : Node) : Prop where
  stored : ∀ block ∈ n.blocks, M block
  mining : n.miner.Mines M key
  applying : ∀ block, n.p2p.block = some block → M block
  inbox : ∀ block, .block block ∈ n.inbox → M block

section Mined

variable {C : NodeConfig} {M : Block → Prop}

theorem mined_start {key : Bytes} (stores : Stores) : Mined M key (start [] stores) where
  stored _ h := absurd h List.not_mem_nil
  mining := trivial
  applying _ h := nomatch h
  inbox _ h := absurd h List.not_mem_nil

theorem Mined.restart {n : Node} (h : Mined M C.publicKey n) :
    Mined M C.publicKey (n.restart C) :=
  { h with mining := trivial }

theorem mined_of_minerMove {n n' : Node}
    (hown : ∀ block ∈ n'.blocks, block.winner = C.publicKey → M block)
    (h : Mined M C.publicKey n) (hmove : MinerMove C n n') : Mined M C.publicKey n' := by
  have hmining := h.mining
  cases hmove with
  | ignoreStop => exact { h with }
  | strayLine | wrongLine | wrongNonce | insertRaises | mintRaises => exact h.restart
  | writeRaises => exact { h with mining := trivial }
  | startRound | mint | openProcessor | stopReceiving | takeResult | stopHashing | refuse
  | written | castMineNextBlock => exact { h with mining := trivial }
  | closeProcessor =>
      unfold closeNative
      split
      · exact { h with mining := trivial }
      · exact { h with mining := trivial }
  | closeHashfactor =>
      unfold closeHasher
      split
      · exact { h with mining := trivial }
      · exact { h with mining := trivial }
  | buildNext => exact { h with mining := rfl }
  | takeNonce hphase | write hphase =>
      rw [hphase] at hmining
      exact { h with mining := hmining }
  | store hphase =>
      rw [hphase] at hmining
      have hblock := hown _ List.mem_cons_self hmining
      exact { h with
        stored := List.forall_mem_cons.mpr ⟨hblock, h.stored⟩
        mining := hblock }

theorem mined_of_p2pMove {key : Bytes} {n n' : Node} (h : Mined M key n)
    (hmove : P2PMove C P fuel n n') : Mined M key n' := by
  have happlying := h.applying
  have hrest {message : P2PMessage} {rest : List P2PMessage}
      (hinbox : n.inbox = message :: rest) (block : Block)
      (hblock : .block block ∈ rest) : M block :=
    h.inbox block (by rw [hinbox]; exact List.mem_cons_of_mem _ hblock)
  cases hmove with
  | post hphase hinbox | reject hphase hinbox => exact { h with inbox := hrest hinbox }
  | accept hphase hinbox =>
      refine { h with inbox := hrest hinbox, applying := fun block hblock => ?_ }
      cases hblock
      exact h.inbox _ (by rw [hinbox]; exact List.mem_cons_self)
  | stopMiner hphase | openProcessor hphase | takeResult hphase | execute hphase
  | writeFirst hphase | write hphase | written hphase =>
      rw [hphase] at happlying
      exact { h with applying := happlying }
  | undecodable | executeDies | castMineNextBlock =>
      exact { h with applying := fun block hblock => nomatch hblock }
  | writeRaises | insertRaises =>
      exact { h with
        applying := fun block hblock => nomatch hblock
        inbox := fun block hblock => nomatch hblock }
  | store hphase =>
      rw [hphase] at happlying
      exact { h with
        stored := List.forall_mem_cons.mpr ⟨happlying _ rfl, h.stored⟩
        applying := fun block hblock => nomatch hblock }

theorem mined_of_step {n n' : Node} {action : Action}
    (hown : action = .miner → ∀ block ∈ n'.blocks, block.winner = C.publicKey → M block)
    (h : Mined M C.publicKey n)
    (hdelivers : ∀ block, action = .deliver (.block block) → M block)
    (hstep : n.step C P fuel action = some n') : Mined M C.publicKey n' := by
  cases move_of_step hstep with
  | post | refusePost => exact { h with }
  | deliver =>
      refine { h with inbox := fun block hblock => ?_ }
      rcases List.mem_append.mp hblock with hblock | hblock
      · exact h.inbox block hblock
      · exact hdelivers block (by rw [List.mem_singleton.mp hblock])
  | p2p hmove => exact mined_of_p2pMove h hmove
  | miner hmove => exact mined_of_minerMove (hown rfl) h hmove
  | native hmove => cases hmove <;> exact { h with }

/-- No block is ever removed. -/
theorem blocks_of_step {n n' : Node} {action : Action}
    (hstep : n.step C P fuel action = some n') : n.blocks ⊆ n'.blocks := by
  cases move_of_step hstep with
  | post | refusePost | deliver => exact List.Subset.refl _
  | p2p hmove =>
      cases hmove with
      | store => exact List.subset_cons_self _ _
      | _ => exact List.Subset.refl _
  | miner hmove =>
      cases hmove with
      | store => exact List.subset_cons_self _ _
      | closeProcessor =>
          unfold closeNative
          split <;> exact List.Subset.refl _
      | closeHashfactor =>
          unfold closeHasher
          split <;> exact List.Subset.refl _
      | _ => exact List.Subset.refl _
  | native hmove => cases hmove <;> exact List.Subset.refl _

end Mined

end Node

/-- A node has mined the block, and has it. -/
def MinedBy (publicKey : ι → Bytes) (nodes : ι → Node) (block : Block) : Prop :=
  ∃ i, block.winner = publicKey i ∧ block ∈ (nodes i).blocks

theorem MinedBy.mono {publicKey : ι → Bytes} {w w' : ι → Node} {block : Block}
    (h : MinedBy publicKey w block) (hle : ∀ i, (w i).blocks ⊆ (w' i).blocks) :
    MinedBy publicKey w' block := by
  obtain ⟨i, hwinner, hmem⟩ := h
  exact ⟨i, hwinner, hle i hmem⟩

theorem Node.Mined.mono {M M' : Block → Prop} {key : Bytes} {n : Node} (h : Mined M key n)
    (hmono : ∀ block, M block → M' block) : Mined M' key n where
  stored block hblock := hmono _ (h.stored block hblock)
  mining := by
    have hmining := h.mining
    cases hphase : n.miner <;> rw [hphase] at hmining <;>
      first | exact hmining | exact hmono _ hmining
  applying block hblock := hmono _ (h.applying block hblock)
  inbox block hblock := hmono _ (h.inbox block hblock)

/-- A block that a node of such a network sends is one of `M`. -/
theorem block_of_broadcasts {C : NodeConfig} {M : Block → Prop} {key : Bytes} {n : Node}
    (h : Mined M key n) {action : Action} {message : P2PMessage}
    (hmessage : message ∈ n.broadcasts C action) :
    ∀ block, message = .block block → M block := by
  rintro block rfl
  cases action with
  | post request =>
      obtain ⟨entry, -, heq⟩ := List.mem_map.mp hmessage
      cases heq
  | miner =>
      simp only [broadcasts] at hmessage
      split at hmessage
      · rename_i hphase
        have hmining := h.mining
        rw [hphase] at hmining
        cases List.mem_singleton.mp hmessage
        exact hmining
      · cases hmessage
  | _ => cases hmessage

theorem Node.Mined.deliver {M : Block → Prop} {key : Bytes} {n : Node} (h : Mined M key n)
    {message : P2PMessage} (hmessage : ∀ block, message = .block block → M block) :
    Mined M key (n.deliver message) := by
  refine { h with inbox := fun block hblock => ?_ }
  rcases List.mem_append.mp hblock with hblock | hblock
  · exact h.inbox block hblock
  · exact hmessage block (List.mem_singleton.mp hblock).symm

theorem keeps_mined {C : NodeConfig} {publicKey : ι → Bytes} :
    Gossip.Keeps (parties C publicKey P fuel) (fun n n' => n.blocks ⊆ n'.blocks)
      (fun _ _ => True) (fun w i n => Mined (MinedBy publicKey w) (publicKey i) n)
      (fun w message => ∀ block, message = .block block → MinedBy publicKey w block) where
  refl _ := List.Subset.refl _
  grows _ _ _ _ hstep := blocks_of_step (parties_step hstep)
  receives _ _ := List.Subset.refl _
  invMono _ _ _ _ hle h := h.mono fun _ hblock => hblock.mono hle
  goodMono _ _ _ hle h block heq := (h block heq).mono hle
  act w i n action n' hw h _ hstep := by
    refine ⟨?_, fun message hmessage => block_of_broadcasts h hmessage⟩
    have hown (block : Block) (hblock : block ∈ n'.blocks)
        (hwinner : block.winner = publicKey i) : MinedBy publicKey w block :=
      ⟨i, hwinner, by rw [hw]; exact hblock⟩
    refine mined_of_step (C := C.withKey (publicKey i)) (fun _ => hown) h ?_
      (parties_step hstep)
    rintro block rfl
    cases hstep
  receive w i n message h hmessage := h.deliver hmessage

/-- **Every block that a node of the network has was mined by a node that has it**: its winner
is the key of a node in whose table it is.  Nodes store and apply blocks in any order, and
messages are lost, repeated and late. -/
theorem mined_of_network [DecidableEq ι] {C : NodeConfig} {publicKey : ι → Bytes}
    {stores : ι → Stores} {labels : List (Gossip.Label ι Action)}
    {net : Gossip.Network ι Node P2PMessage}
    (hrun : Runs.run (Gossip.step (parties C publicKey P fuel)) (startNetwork stores) labels =
      some net) (i : ι) {block : Block} (hblock : block ∈ (net.nodes i).blocks) :
    ∃ j, block.winner = publicKey j ∧ block ∈ (net.nodes j).blocks := by
  have hholds := Gossip.invariant_of_run keeps_mined
    ⟨fun j => mined_start (stores j), fun message h => absurd h List.not_mem_nil⟩
    (fun label _ => by cases label <;> trivial) hrun
  exact (hholds.nodes i).stored block hblock

namespace Script

/-- The block is `pingBlock`. -/
def isPingBlock (block : Block) : Bool :=
  decide (block.hash = pingBlock.hash ∧ block.number = pingBlock.number ∧
      block.winner = pingBlock.winner ∧
      block.memoryChangesetHash = pingBlock.memoryChangesetHash ∧
      block.storageChangesetHash = pingBlock.storageChangesetHash ∧
      block.proofOfWorkValue = pingBlock.proofOfWorkValue) &&
    match block.transactions with
    | [t] =>
        is ping t.transaction && decide (t.returnCode = 0) &&
          match t.returnValue with
          | .null => true
          | _ => false
    | _ => false

theorem eq_of_isPingBlock {block : Block} (h : isPingBlock block = true) :
    block = pingBlock := by
  obtain ⟨hfields, htransactions⟩ := Bool.and_eq_true_iff.mp h
  split at htransactions
  · rename_i t heq
    obtain ⟨hresult, hvalue⟩ := Bool.and_eq_true_iff.mp htransactions
    obtain ⟨hping, hcode⟩ := Bool.and_eq_true_iff.mp hresult
    split at hvalue
    · rename_i hnull
      have ht : t = ping.complete (0, .null) :=
        calc t = t.transaction.complete (t.returnCode, t.returnValue) := rfl
          _ = ping.complete (0, .null) := by
            rw [eq_of_is rfl hping, of_decide_eq_true hcode, hnull]
      obtain ⟨hhash, hnumber, hwinner, hmemory, hstorage, hwork⟩ := of_decide_eq_true hfields
      cases block
      simp_all [pingBlock]
    · cases hvalue
  · cases htransactions

theorem gossipRun_blocks :
    ∃ net, networkRun gossipRun = some net ∧ (net.nodes true).blocks = [pingBlock] := by
  have hrun : (networkRun gossipRun).map (fun net => (net.nodes true).blocks.map isPingBlock) =
      some [true] := by decide +kernel
  obtain ⟨net, hnet, hpings⟩ := Option.map_eq_some_iff.mp hrun
  obtain ⟨block, hblocks, hblock⟩ := List.map_eq_singleton_iff.mp hpings
  rw [eq_of_isPingBlock hblock] at hblocks
  exact ⟨net, hnet, hblocks⟩

end Script

open Script in
/-- The second node has the block that the first one has mined. -/
theorem mined_of_network_at_gossip_run :
    ∃ net, networkRun gossipRun = some net ∧ (net.nodes true).blocks = [pingBlock] ∧
      ∃ j, pingBlock.winner = keys j ∧ pingBlock ∈ (net.nodes j).blocks := by
  obtain ⟨net, hnet, hblocks⟩ := gossipRun_blocks
  refine ⟨net, hnet, hblocks, mined_of_network hnet true ?_⟩
  rw [hblocks]
  exact List.mem_cons_self

end Ellipticoind.Ports
