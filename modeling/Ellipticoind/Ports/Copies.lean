import Ellipticoind.Ports.Rounds

/-!
# The copies of a transaction

A transaction comes to a node through the router, through the P2P process and
inside a peer's block that is found valid, and every arrival makes one copy.  No
step makes another: a copy goes from the queue to a program, with the answer to
the miner, and with its block to the table.  Nothing compares the copies either, neither with each
other nor with the stored blocks, so a transaction that arrives twice can be
mined twice.

## Main results

* `chainCopies_of_step`, `runCopies_of_step` — a step makes no copy of a
  transaction that does not arrive at it.
* `once_of_run` — what arrives once is in one place of the chain at most, and is
  run at most once.
-/

namespace Ellipticoind.Ports.Node

open Ellipticoind.Verified

variable {C : NodeConfig} {P : Platform} {fuel : Nat}

/-- What tells transactions apart. -/
def identity (t : Transaction) : Bytes × Nat := (t.sender, t.nonce)

/-- How often a transaction is in a list. -/
def occurrences (id : Bytes × Nat) (ts : List Transaction) : Nat :=
  ts.countP fun t => identity t = id

@[simp] theorem occurrences_nil (id : Bytes × Nat) : occurrences id [] = 0 := rfl

@[simp] theorem occurrences_append (id : Bytes × Nat) (ts us : List Transaction) :
    occurrences id (ts ++ us) = occurrences id ts + occurrences id us :=
  List.countP_append

theorem occurrences_cons (id : Bytes × Nat) (t : Transaction) (ts : List Transaction) :
    occurrences id (t :: ts) = occurrences id [t] + occurrences id ts :=
  occurrences_append id [t] ts

/-- The transactions that have been completed. -/
def transactions (completed : List CompletedTransaction) : List Transaction :=
  completed.map CompletedTransaction.transaction

@[simp] theorem transactions_append (cs ds : List CompletedTransaction) :
    transactions (cs ++ ds) = transactions cs ++ transactions ds := List.map_append

@[simp] theorem transactions_nil : transactions [] = [] := rfl

@[simp] theorem transactions_complete (t : Transaction) (result : Result) :
    transactions [t.complete result] = [t] := rfl

/-- The transactions of a chain. -/
def chain (blocks : List Block) : List Transaction :=
  blocks.flatMap fun block => transactions block.transactions

/-! ## Where the copies are -/

/-- The queued transactions. -/
def waiting (C : NodeConfig) (entries : List Bytes) : List Transaction :=
  entries.filterMap C.decodeTransaction

@[simp] theorem waiting_nil : waiting C [] = [] := rfl

@[simp] theorem waiting_append (entries others : List Bytes) :
    waiting C (entries ++ others) = waiting C entries ++ waiting C others :=
  List.filterMap_append

theorem waiting_cons (entry : Bytes) (entries : List Bytes) :
    waiting C (entry :: entries) = waiting C [entry] ++ waiting C entries :=
  waiting_append [entry] entries

theorem toList_decodeTransaction (entry : Bytes) :
    (C.decodeTransaction entry).toList = waiting C [entry] := by
  unfold waiting
  cases hdecode : C.decodeTransaction entry <;> simp [hdecode]

theorem waiting_of_decode {entry : Bytes} {t : Transaction}
    (hdecode : C.decodeTransaction entry = some t) : waiting C [entry] = [t] := by
  rw [← toList_decodeTransaction, hdecode, Option.toList_some]

/-- The transaction that a program has popped and may yet run. -/
def toRun (C : NodeConfig) (native : Native) : List Transaction :=
  if native.stage = .running then waiting C native.popped.toList else []

/-- The transactions that a program may yet send. -/
def toSend (C : NodeConfig) (native : Native) : List Transaction :=
  if native.stage = .running then
    waiting C native.popped.toList ++ transactions native.processed.transactions
  else []

/-- The transactions that the miner holds. -/
def toMine : MinerPhase → List Transaction
  | .buildNext r => transactions r.processed.transactions
  | .hashfactor _ newBlock _ => transactions newBlock.transactions
  | .insertBlock block _ => transactions block.transactions
  | _ => []

/-- The transactions of the block that is being applied. -/
def toStore : ApplyPhase → List Transaction
  | .stop block => transactions block.transactions
  | .process block => transactions block.transactions
  | .receiveNative block _ _ => transactions block.transactions
  | .writeFirst block _ => transactions block.transactions
  | .writeChangesets block _ _ => transactions block.transactions
  | .insert block => transactions block.transactions
  | _ => []

/-- The transactions of the block that is being applied which are still to be
run. -/
def toApply : ApplyPhase → List Transaction
  | .stop block => transactions block.transactions
  | .process block => transactions block.transactions
  | .receiveNative _ rest _ => rest
  | _ => []

/-- All copies of transactions that are in a block or may come into one. -/
def chainCopies (C : NodeConfig) (n : Node) : List Transaction :=
  waiting C n.queued ++ (n.natives.flatMap (toSend C) ++
    ((answers n.mailbox).flatMap (fun a => transactions a.2.processed.transactions) ++
      (toMine n.miner ++ (toStore n.p2p ++ chain n.blocks))))

/-- All copies of transactions that have been run or may yet be. -/
def runCopies (C : NodeConfig) (n : Node) : List Transaction :=
  waiting C n.queued ++ (n.natives.flatMap (toRun C) ++
    (toApply n.p2p ++ n.history.executed))

/-- Between two states, a list of copies grows by what arrives, at most. -/
def NoNewCopies (copies : Node → List Transaction) (n n' : Node) : Prop :=
  ∀ id, occurrences id (copies n') + occurrences id n.history.arrived ≤
    occurrences id (copies n) + occurrences id n'.history.arrived

theorem NoNewCopies.trans {copies : Node → List Transaction} {n n' n'' : Node}
    (h : NoNewCopies copies n n') (h' : NoNewCopies copies n' n'') :
    NoNewCopies copies n n'' := by
  intro id
  have := h id
  have := h' id
  omega

theorem toSend_close (m : Native) :
    toSend C { m with connected := false } = toSend C m := rfl

theorem toRun_close (m : Native) :
    toRun C { m with connected := false } = toRun C m := rfl

section close

variable {α : Type} {copies : Native → List α}
  (h : ∀ m, copies { m with connected := false } = copies m)
include h

/-- What the programs have does not depend on their ports being open. -/
theorem flatMap_restart (natives : List Native) :
    (natives.map fun m => { m with connected := false }).flatMap copies =
      natives.flatMap copies := by
  rw [List.flatMap_map]
  exact congrArg (fun g => natives.flatMap g) (funext h)

theorem flatMap_close (port : Nat) (natives : List Native) :
    (natives.map fun m => if m.port = port then { m with connected := false }
      else m).flatMap copies = natives.flatMap copies := by
  rw [List.flatMap_map]
  refine congrArg (fun g => natives.flatMap g) (funext fun m => ?_)
  split
  · exact h m
  · rfl

end close

/-! ## Copies on their way into the chain -/

theorem chainCopies_push (n : Node) (entry : Bytes) :
    NoNewCopies (chainCopies C) n (n.push C entry) := by
  intro id
  simp only [chainCopies, push, occurrences_append, toList_decodeTransaction,
    waiting_cons entry n.queued]
  omega

theorem chainCopies_restart (n : Node) :
    NoNewCopies (chainCopies C) n (n.restart C) := by
  intro id
  simp only [chainCopies, restart, occurrences_append, toMine, answers_cons,
    answer_mineNextBlock, answers_nil, List.append_nil, List.flatMap_nil, occurrences_nil,
    flatMap_restart toSend_close]
  omega

theorem chainCopies_closeNative (n : Node) (port : Nat) :
    NoNewCopies (chainCopies C) n (n.closeNative C port) := by
  unfold closeNative
  split
  · intro id
    simp only [chainCopies, stopped, occurrences_append, toMine, occurrences_nil,
      flatMap_close toSend_close]
    omega
  · exact chainCopies_restart n

theorem chainCopies_closeHasher (n : Node) (port : Nat) :
    NoNewCopies (chainCopies C) n (n.closeHasher C port) := by
  unfold closeHasher
  split
  · intro id
    simp only [chainCopies, stopped, occurrences_append, toMine, occurrences_nil]
    omega
  · exact chainCopies_restart n

theorem chainCopies_receive {n : Node} {message : Message} {rest : List Message}
    (hmail : receive n.mailbox = some (message, rest)) :
    NoNewCopies (chainCopies C) n { n with mailbox := rest } := by
  intro id
  simp only [chainCopies, (receive_spec hmail).2, List.flatMap_append, occurrences_append]
  omega

theorem chainCopies_of_minerMove {n n' : Node} (hmove : MinerMove C n n') :
    NoNewCopies (chainCopies C) n n' := by
  cases hmove with
  | strayLine | mintRaises | wrongLine | wrongNonce | insertRaises =>
      exact chainCopies_restart n
  | closeProcessor => exact chainCopies_closeNative _ _
  | closeHashfactor => exact chainCopies_closeHasher _ _
  | stopReceiving hphase hmail | stopHashing hphase hmail =>
      refine (chainCopies_receive hmail).trans fun id => ?_
      simp only [chainCopies, hphase, toMine, occurrences_append, occurrences_nil]
      omega
  | writeRaises =>
      refine NoNewCopies.trans (fun id => ?_) (chainCopies_restart _)
      exact le_rfl
  | @mint entry hphase hentry =>
      refine (chainCopies_push n entry).trans fun id => ?_
      simp only [chainCopies, push, hphase, toMine, occurrences_append, occurrences_nil]
      exact le_rfl
  | takeResult hphase hmail =>
      intro id
      simp only [chainCopies, (receive_spec hmail).2, hphase, toMine, answer_result,
        List.flatMap_append, List.flatMap_cons, List.flatMap_nil, occurrences_append,
        occurrences_nil]
      omega
  | takeNonce hphase hmail =>
      intro id
      simp only [chainCopies, (receive_spec hmail).2, hphase, toMine, NewBlock.complete,
        List.flatMap_append, occurrences_append]
      omega
  | openProcessor hphase =>
      intro id
      simp only [chainCopies, hphase, toMine, toSend, List.flatMap_cons, Processed.empty,
        Option.toList_none, waiting_nil, transactions_nil, List.append_nil, if_true,
        occurrences_append, occurrences_nil]
      omega
  | store hphase =>
      intro id
      simp only [chainCopies, hphase, toMine, chain, List.flatMap_cons,
        occurrences_append, occurrences_nil]
      omega
  | ignoreStop hphase hmail | startRound hphase hmail =>
      intro id
      simp only [chainCopies, hphase, hmail, toMine, answers_cons, List.flatMap_append,
        occurrences_append, occurrences_nil]
      omega
  | castMineNextBlock hphase =>
      intro id
      simp only [chainCopies, hphase, toMine, answers_append, answers_cons,
        answer_mineNextBlock, answers_nil, List.append_nil, occurrences_append,
        occurrences_nil]
      omega
  | buildNext hphase | refuse hphase | written hphase | write hphase =>
      intro id
      simp only [chainCopies, hphase, toMine, Ports.buildNext, occurrences_append,
        occurrences_nil]
      omega

theorem chainCopies_of_p2pMove {n n' : Node} (hmove : P2PMove C P fuel n n') :
    NoNewCopies (chainCopies C) n n' := by
  cases hmove with
  | @post entry rest hphase hinbox =>
      exact NoNewCopies.trans (fun _ => le_rfl) (chainCopies_push _ entry)
  | reject => exact fun _ => le_rfl
  | accept hphase hinbox =>
      intro id
      simp only [chainCopies, hphase, toStore, transactions, occurrences_append,
        occurrences_nil]
      omega
  | stopMiner hphase | castMineNextBlock hphase =>
      intro id
      simp only [chainCopies, hphase, toStore, answers_append, answers_cons, answer_stop,
        answer_mineNextBlock, answers_nil, List.append_nil, occurrences_append,
        occurrences_nil]
      omega
  | store hphase =>
      intro id
      simp only [chainCopies, hphase, toStore, chain, List.flatMap_cons,
        occurrences_append, occurrences_nil]
      omega
  | insertRaises hphase =>
      intro id
      simp only [chainCopies, restartP2P, hphase, toStore, occurrences_append, occurrences_nil]
      omega
  | writeRaises hphase =>
      intro id
      rcases hphase with ⟨hphase, -⟩ | hphase <;>
        simp only [chainCopies, restartP2P, hphase, toStore, occurrences_append,
          occurrences_nil] <;>
        omega
  | undecodable hphase | executeDies hphase =>
      intro id
      simp only [chainCopies, hang, hphase, toStore, occurrences_append, occurrences_nil]
      omega
  | openProcessor hphase | takeResult hphase | execute hphase | writeFirst hphase
  | write hphase | written hphase =>
      intro id
      simp only [chainCopies, hphase, toStore, occurrences_append]
      omega

theorem chainCopies_of_nativeMove {n n' : Node} {action : Action}
    (hmove : NativeMove C P fuel n action n') : NoNewCopies (chainCopies C) n n' := by
  intro id
  cases hmove with
  | pop hnatives hstage hpopped hqueued =>
      simp only [chainCopies, hnatives, toSend, hstage, hpopped, hqueued, if_true,
        List.flatMap_append, List.flatMap_cons, Option.toList_none, Option.toList_some,
        waiting_append, waiting_nil, occurrences_append, occurrences_nil]
      omega
  | undecodable hnatives | executeDies hnatives =>
      simp only [chainCopies, hnatives, toSend, reduceCtorEq, if_false,
        List.flatMap_append, List.flatMap_cons, occurrences_append, occurrences_nil]
      omega
  | execute hnatives hstage hpopped hdecode hrun =>
      obtain ⟨result, hprocessed⟩ := transactions_of_runTransaction hrun
      simp only [chainCopies, hnatives, toSend, hstage, hpopped, hprocessed, if_true,
        List.flatMap_append, List.flatMap_cons, Option.toList_none, Option.toList_some,
        waiting_nil, waiting_of_decode hdecode, transactions_append, transactions_complete,
        occurrences_append, occurrences_nil]
      omega
  | @finish before after native hnatives hstage hpopped =>
      by_cases hconnected : native.connected = true
      · simp only [chainCopies, hnatives, toSend, hstage, hpopped, if_pos hconnected,
          if_true, reduceCtorEq, if_false, answers_append, answers_cons, answer_result,
          answers_nil, List.append_nil, List.flatMap_append, List.flatMap_cons,
          List.flatMap_nil, Option.toList_none, waiting_nil, occurrences_append,
          occurrences_nil]
        omega
      · simp only [chainCopies, hnatives, toSend, hstage, hpopped, if_neg hconnected,
          if_true, reduceCtorEq, if_false, List.flatMap_append, List.flatMap_cons,
          Option.toList_none, waiting_nil, occurrences_append, occurrences_nil]
        omega
  | exit hnatives =>
      simp only [chainCopies, hnatives, List.flatMap_append, List.flatMap_cons,
        occurrences_append]
      omega
  | found =>
      simp only [chainCopies, answers_append, answers_cons, answer_nonce, answers_nil,
        List.append_nil, le_refl]
  | exitHasher => exact le_rfl

theorem chainCopies_of_step {n n' : Node} {action : Action}
    (hstep : n.step C P fuel action = some n') : NoNewCopies (chainCopies C) n n' := by
  cases move_of_step hstep with
  | post => exact NoNewCopies.trans (fun _ => le_rfl) (chainCopies_push _ _)
  | refusePost | deliver => exact fun _ => le_rfl
  | p2p hmove => exact chainCopies_of_p2pMove hmove
  | miner hmove => exact chainCopies_of_minerMove hmove
  | native hmove => exact chainCopies_of_nativeMove hmove

/-! ## Copies on their way to a run -/

theorem runCopies_push (n : Node) (entry : Bytes) :
    NoNewCopies (runCopies C) n (n.push C entry) := by
  intro id
  simp only [runCopies, push, occurrences_append, toList_decodeTransaction,
    waiting_cons entry n.queued]
  omega

theorem runCopies_restart (n : Node) : NoNewCopies (runCopies C) n (n.restart C) := by
  intro id
  simp only [runCopies, restart, flatMap_restart toRun_close, le_refl]

theorem runCopies_closeNative (n : Node) (port : Nat) :
    NoNewCopies (runCopies C) n (n.closeNative C port) := by
  unfold closeNative
  split
  · intro id
    simp only [runCopies, stopped, flatMap_close toRun_close, le_refl]
  · exact runCopies_restart n

theorem runCopies_closeHasher (n : Node) (port : Nat) :
    NoNewCopies (runCopies C) n (n.closeHasher C port) := by
  unfold closeHasher
  split
  · exact fun _ => le_rfl
  · exact runCopies_restart n

theorem runCopies_of_minerMove {n n' : Node} (hmove : MinerMove C n n') :
    NoNewCopies (runCopies C) n n' := by
  cases hmove with
  | strayLine | mintRaises | wrongLine | wrongNonce | insertRaises => exact runCopies_restart n
  | closeProcessor => exact runCopies_closeNative _ _
  | closeHashfactor => exact runCopies_closeHasher _ _
  | writeRaises => exact NoNewCopies.trans (fun _ => le_rfl) (runCopies_restart _)
  | @mint entry => exact runCopies_push n entry
  | _ => exact fun _ => le_rfl

theorem runCopies_of_p2pMove {n n' : Node}
    (hcodec : ∀ cs ts, C.decode (C.encode cs) = some ts → ts = transactions cs)
    (hmove : P2PMove C P fuel n n') : NoNewCopies (runCopies C) n n' := by
  cases hmove with
  | @post entry rest hphase hinbox =>
      exact NoNewCopies.trans (fun _ => le_rfl) (runCopies_push _ entry)
  | reject => exact fun _ => le_rfl
  | accept hphase hinbox =>
      intro id
      simp only [runCopies, hphase, toApply, transactions, occurrences_append, occurrences_nil]
      omega
  | openProcessor hphase hdecode =>
      intro id
      simp only [runCopies, hphase, toApply, hcodec _ _ hdecode, le_refl]
  | @execute block t rest processed processed' hphase hrun =>
      intro id
      simp only [runCopies, hphase, toApply, occurrences_append]
      rw [occurrences_cons id t n.history.executed, occurrences_cons id t rest]
      omega
  | @executeDies block t rest processed hphase =>
      intro id
      simp only [runCopies, hang, hphase, toApply, occurrences_append, occurrences_nil]
      rw [occurrences_cons id t n.history.executed, occurrences_cons id t rest]
      omega
  | insertRaises hphase =>
      intro id
      simp only [runCopies, restartP2P, hphase, toApply, occurrences_append, occurrences_nil]
      omega
  | writeRaises hphase =>
      intro id
      rcases hphase with ⟨hphase, -⟩ | hphase <;>
        simp only [runCopies, restartP2P, hphase, toApply, occurrences_append,
          occurrences_nil] <;>
        omega
  | undecodable hphase =>
      intro id
      simp only [runCopies, hang, hphase, toApply, occurrences_append, occurrences_nil]
      omega
  | stopMiner hphase | takeResult hphase | writeFirst hphase
  | write hphase | written hphase | store hphase | castMineNextBlock hphase =>
      intro id
      simp only [runCopies, hphase, toApply, occurrences_append, occurrences_nil]
      omega

theorem runCopies_of_nativeMove {n n' : Node} {action : Action}
    (hmove : NativeMove C P fuel n action n') : NoNewCopies (runCopies C) n n' := by
  intro id
  cases hmove with
  | pop hnatives hstage hpopped hqueued =>
      simp only [runCopies, hnatives, toRun, hstage, hpopped, hqueued, if_true,
        List.flatMap_append, List.flatMap_cons, Option.toList_none, Option.toList_some,
        waiting_append, waiting_nil, occurrences_append, occurrences_nil]
      omega
  | undecodable hnatives =>
      simp only [runCopies, hnatives, toRun, reduceCtorEq, if_false, List.flatMap_append,
        List.flatMap_cons, occurrences_append, occurrences_nil]
      omega
  | execute hnatives hstage hpopped hdecode | executeDies hnatives hstage hpopped hdecode =>
      simp only [runCopies, hnatives, toRun, hstage, hpopped, if_true, reduceCtorEq,
        if_false, List.flatMap_append, List.flatMap_cons, Option.toList_none,
        Option.toList_some, waiting_nil, waiting_of_decode hdecode, occurrences_append,
        occurrences_nil]
      rw [occurrences_cons id _ n.history.executed]
      omega
  | finish hnatives hstage hpopped =>
      simp only [runCopies, hnatives, toRun, hstage, hpopped, if_true, reduceCtorEq,
        if_false, List.flatMap_append, List.flatMap_cons, Option.toList_none, waiting_nil,
        occurrences_append, occurrences_nil]
      omega
  | exit hnatives =>
      simp only [runCopies, hnatives, List.flatMap_append, List.flatMap_cons,
        occurrences_append]
      omega
  | found | exitHasher => exact le_rfl

theorem runCopies_of_step {n n' : Node} {action : Action}
    (hcodec : ∀ cs ts, C.decode (C.encode cs) = some ts → ts = transactions cs)
    (hstep : n.step C P fuel action = some n') : NoNewCopies (runCopies C) n n' := by
  cases move_of_step hstep with
  | post => exact NoNewCopies.trans (fun _ => le_rfl) (runCopies_push _ _)
  | refusePost | deliver => exact fun _ => le_rfl
  | p2p hmove => exact runCopies_of_p2pMove hcodec hmove
  | miner hmove => exact runCopies_of_minerMove hmove
  | native hmove => exact runCopies_of_nativeMove hmove

/-! ## Runs -/

/-- The copies of a whole run. -/
theorem noNewCopies_of_run {copies : Node → List Transaction}
    (hstep : ∀ n n' action, step C P fuel n action = some n' → NoNewCopies copies n n')
    {actions : List Action} {n n' : Node} (hrun : run C P fuel n actions = some n') :
    NoNewCopies copies n n' :=
  Runs.invariant_of_run
    (fun m action m' hm _ hmove => NoNewCopies.trans hm (hstep m m' action hmove))
    (fun _ => le_rfl) (Runs.meets_true n actions) hrun

/-- **What arrives once is executed once.**  A transaction that has reached the
node by one route only, and once, stands in one place of its chain at most, and
the native processors have run it at most once. -/
theorem once_of_run {blocks : List Block} {stores : Stores} {actions : List Action}
    {n : Node} {id : Bytes × Nat}
    (hcodec : ∀ cs ts, C.decode (C.encode cs) = some ts → ts = transactions cs)
    (hrun : run C P fuel (start blocks stores) actions = some n)
    (honce : occurrences id (chain blocks) + occurrences id n.history.arrived ≤ 1) :
    occurrences id (chain n.blocks) ≤ 1 ∧ occurrences id n.history.executed ≤ 1 := by
  have hchain := noNewCopies_of_run (fun _ _ _ => chainCopies_of_step) hrun id
  have hrun := noNewCopies_of_run (fun _ _ _ => runCopies_of_step hcodec) hrun id
  simp only [chainCopies, start, waiting_nil, answers_cons, answer_mineNextBlock,
    answers_nil, List.flatMap_nil, toMine, toStore, List.nil_append, occurrences_append,
    occurrences_nil] at hchain
  simp only [runCopies, start, waiting_nil, List.flatMap_nil, toApply, List.nil_append,
    occurrences_append, occurrences_nil] at hrun
  omega

/-! ## A transaction that arrives by two routes -/

/-- The action submits the transaction to the router, which takes it. -/
def submits (C : NodeConfig) (id : Bytes × Nat) : Action → Bool
  | .post request =>
      ((Records.queueEntry C.codec request).bind C.decodeTransaction).any fun t => identity t = id
  | _ => false

/-- The action hands the transaction to the P2P process. -/
def gossips (C : NodeConfig) (id : Bytes × Nat) : Action → Bool
  | .deliver (.transaction entry) =>
      (C.decodeTransaction entry).any fun t => identity t = id
  | _ => false

/-- The block holds the transaction. -/
def holds (id : Bytes × Nat) (block : Block) : Bool :=
  decide (0 < occurrences id (transactions block.transactions))

/-- A posted transaction is applied with a peer's block while it is queued, and
then mined. -/
def minedTwiceRun : List Action :=
  [ .post Records.pingMap
  , .deliver (.block (Script.peerBlock [Script.ping.complete (0, .null)]))
  , .p2p, .p2p, .p2p, .p2p, .p2p, .p2p, .p2p, .p2p, .p2p, .p2p, .p2p, .p2p
  , .miner, .miner, .miner, .miner, .miner
  , .miner, .miner, .miner, .pop 0, .execute 0, .finish 0
  , .miner, .miner, .found 0 0, .miner, .miner ]

/-- The transaction is submitted once and never gossiped, and two blocks of the
node hold it. -/
theorem posted_transaction_mined_twice :
    ¬ ∀ (C : NodeConfig) (P : Platform) (fuel : Nat) (blocks : List Block)
      (stores : Stores) (actions : List Action) (n : Node) (id : Bytes × Nat),
      (∀ cs ts, C.decode (C.encode cs) = some ts → ts = transactions cs) →
      run C P fuel (start blocks stores) actions = some n →
      occurrences id (chain blocks) = 0 →
      actions.countP (submits C id) ≤ 1 → actions.countP (gossips C id) ≤ 1 →
      (∀ block, .deliver (.block block) ∈ actions →
        occurrences id (transactions block.transactions) ≤ 1) →
      n.blocks.countP (holds id) ≤ 1 := by
  intro h
  have hrun : (Script.nodeRun minedTwiceRun).map
      (fun n => n.blocks.countP (holds ([65], 1))) = some 2 := by decide +kernel
  obtain ⟨n, hn, hblocks⟩ := Option.map_eq_some_iff.mp hrun
  have honce := h _ _ _ _ _ _ n ([65], 1) Script.decode_encode hn rfl
    (by decide +kernel) (by decide +kernel) (fun block hblock => ?_)
  · omega
  · simp only [minedTwiceRun, List.mem_cons, Action.deliver.injEq, P2PMessage.block.injEq,
      reduceCtorEq, List.not_mem_nil, or_false, false_or] at hblock
    subst hblock
    decide

/-- A posted transaction that no peer knows. -/
theorem once_of_run_at_mined_once :
    ∃ n, Script.nodeRun Script.minedRun = some n ∧
      occurrences ([65], 1) (chain n.blocks) ≤ 1 ∧
      occurrences ([65], 1) n.history.executed ≤ 1 := by
  have hrun : (Script.nodeRun Script.minedRun).map
      (fun n => occurrences ([65], 1) n.history.arrived) = some 1 := by decide +kernel
  obtain ⟨n, hn, harrived⟩ := Option.map_eq_some_iff.mp hrun
  exact ⟨n, hn, once_of_run Script.decode_encode hn (by rw [harrived]; decide)⟩

end Ellipticoind.Ports.Node
