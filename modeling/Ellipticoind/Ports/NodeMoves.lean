import Ellipticoind.Ports.Node

/-!
# What a step of a node can do

`MinerMove`, `P2PMove` and `NativeMove` list the steps of each process, every
one with the phase it starts from, what it found, and the node it leads to.  The
invariants of a node are proved by cases on them.

## Main results

* `move_of_step` — every step of a node is a move.
* `minerMove_of_step`, `p2pMove_of_step` and the lemmas `nativeMove_of_…` — the
  same for each process.
* `receive_spec` — what a `receive` takes from the mailbox, by the answers of
  native processors in it.
-/

namespace Ellipticoind.Ports

open Ellipticoind.Verified

variable {C : NodeConfig} {P : Platform} {fuel : Nat}

/-! ## Receiving -/

/-- The answers of native processors that a message brings. -/
def Message.answer : Message → List (Nat × RoundResult)
  | .result port r => [(port, r)]
  | _ => []

/-- The answers of native processors in a mailbox. -/
def answers (mailbox : List Message) : List (Nat × RoundResult) :=
  mailbox.flatMap Message.answer

@[simp] theorem answers_cons (message : Message) (rest : List Message) :
    answers (message :: rest) = message.answer ++ answers rest := rfl

@[simp] theorem answers_append (mailbox others : List Message) :
    answers (mailbox ++ others) = answers mailbox ++ answers others :=
  List.flatMap_append

@[simp] theorem answers_nil : answers [] = [] := rfl

@[simp] theorem answer_stop : Message.stop.answer = [] := rfl

@[simp] theorem answer_mineNextBlock : Message.mineNextBlock.answer = [] := rfl

@[simp] theorem answer_result (port : Nat) (r : RoundResult) :
    (Message.result port r).answer = [(port, r)] := rfl

@[simp] theorem answer_nonce (port value : Nat) :
    (Message.nonce port value).answer = [] := rfl

/-- A `receive` takes one message, which is no cast, and leaves the others in
their order. -/
theorem receive_spec {mailbox rest : List Message} {message : Message}
    (h : receive mailbox = some (message, rest)) :
    message ≠ .mineNextBlock ∧ answers mailbox = message.answer ++ answers rest := by
  induction mailbox generalizing rest with
  | nil => cases h
  | cons first others ih =>
      have hother : first ≠ .mineNextBlock →
          some (first, others) = some (message, rest) → message ≠ .mineNextBlock ∧
            answers (first :: others) = message.answer ++ answers rest := by
        intro hfirst heq
        cases heq
        exact ⟨hfirst, rfl⟩
      cases first with
      | mineNextBlock =>
          obtain ⟨⟨message', rest'⟩, hreceive, heq⟩ := Option.map_eq_some_iff.mp h
          cases heq
          obtain ⟨hne, hanswers⟩ := ih hreceive
          exact ⟨hne, hanswers⟩
      | stop => exact hother nofun h
      | result port r => exact hother nofun h
      | nonce port value => exact hother nofun h

namespace Node

/-! ## The miner -/

/-- The steps of the miner. -/
inductive MinerMove (C : NodeConfig) (n : Node) : Node → Prop where
  /-- `handle_info(:stop, state)`. -/
  | ignoreStop {rest : List Message} (hphase : n.miner = .loop)
      (hmail : n.mailbox = .stop :: rest) :
      MinerMove C n { n with
        mailbox := rest
        history := { n.history with ignored := n.history.ignored + 1 } }
  | startRound {rest : List Message} (hphase : n.miner = .loop)
      (hmail : n.mailbox = .mineNextBlock :: rest) :
      MinerMove C n { n with mailbox := rest, miner := .mint }
  /-- A line from a port arrives between two rounds. -/
  | strayLine (hphase : n.miner = .loop)
      (hmail : ∃ message rest, n.mailbox = message :: rest ∧ message ≠ .stop ∧
        message ≠ .mineNextBlock) : MinerMove C n (n.restart C)
  | mint {entry : Bytes} (hphase : n.miner = .mint)
      (hentry : Records.asBinary C.codec (mintRequest C.publicKey).received = some entry) :
      MinerMove C n { n.push C entry with miner := .processNewBlock }
  | mintRaises (hphase : n.miner = .mint)
      (hentry : Records.asBinary C.codec (mintRequest C.publicKey).received = none) :
      MinerMove C n (n.restart C)
  | openProcessor (hphase : n.miner = .processNewBlock) :
      MinerMove C n { n with
        natives := {
          port := n.nextPort
          env := newBlockEnv (best n.blocks) C.publicKey
          popped := none
          processed := .empty
          entries := []
          connected := true
          stage := .running } :: n.natives
        nextPort := n.nextPort + 1
        miner := .receiveNative n.nextPort
        history := { n.history with round := [], roundFresh := !n.applyCommits } }
  | stopReceiving {port : Nat} {rest : List Message}
      (hphase : n.miner = .receiveNative port)
      (hmail : receive n.mailbox = some (.stop, rest)) :
      MinerMove C n { n with mailbox := rest, miner := .closeNative port }
  | closeProcessor {port : Nat} (hphase : n.miner = .closeNative port) :
      MinerMove C n (n.closeNative C port)
  | takeResult {port port' : Nat} {r : RoundResult} {rest : List Message}
      (hphase : n.miner = .receiveNative port)
      (hmail : receive n.mailbox = some (.result port' r, rest)) :
      MinerMove C n { n with mailbox := rest, miner := .buildNext r }
  | wrongLine {port port' value : Nat} {rest : List Message}
      (hphase : n.miner = .receiveNative port)
      (hmail : receive n.mailbox = some (.nonce port' value, rest)) :
      MinerMove C n (n.restart C)
  | buildNext {r : RoundResult} (hphase : n.miner = .buildNext r) :
      MinerMove C n { n with
        hashers := ⟨n.nextPort, false⟩ :: n.hashers
        nextPort := n.nextPort + 1
        miner := .hashfactor n.nextPort
          (Ports.buildNext (best n.blocks) C.publicKey C.emptyHash
            r.processed.transactions) r }
  | stopHashing {port : Nat} {newBlock : NewBlock} {r : RoundResult}
      {rest : List Message} (hphase : n.miner = .hashfactor port newBlock r)
      (hmail : receive n.mailbox = some (.stop, rest)) :
      MinerMove C n { n with mailbox := rest, miner := .closeHasher port }
  | closeHashfactor {port : Nat} (hphase : n.miner = .closeHasher port) :
      MinerMove C n (n.closeHasher C port)
  | takeNonce {port port' value : Nat} {newBlock : NewBlock} {r : RoundResult}
      {rest : List Message} (hphase : n.miner = .hashfactor port newBlock r)
      (hmail : receive n.mailbox = some (.nonce port' value, rest)) :
      MinerMove C n { n with
        mailbox := rest
        miner := .insertBlock (newBlock.complete C.toNodeLibrary value) r }
  | wrongNonce {port port' : Nat} {newBlock : NewBlock} {r r' : RoundResult}
      {rest : List Message} (hphase : n.miner = .hashfactor port newBlock r)
      (hmail : receive n.mailbox = some (.result port' r', rest)) :
      MinerMove C n (n.restart C)
  | store {block : Block} {r : RoundResult} (hphase : n.miner = .insertBlock block r)
      (hinsert : C.insert n.blocks block = .stored) :
      MinerMove C n { n with
        blocks := block :: n.blocks
        miner := .writeChangesets block r [.memory, .storage]
        history := { n.history with
          round := []
          mined := r.entries ++ n.history.mined
          applyFresh := false } }
  | refuse {block : Block} {r : RoundResult} (hphase : n.miner = .insertBlock block r)
      (hinsert : C.insert n.blocks block = .refused) :
      MinerMove C n { n with
        miner := .castMineNextBlock
        history := { n.history with round := [] } }
  | insertRaises {block : Block} {r : RoundResult}
      (hphase : n.miner = .insertBlock block r)
      (hinsert : C.insert n.blocks block = .raised) : MinerMove C n (n.restart C)
  | written {block : Block} {r : RoundResult}
      (hphase : n.miner = .writeChangesets block r []) :
      MinerMove C n { n with miner := .castMineNextBlock }
  | write {block : Block} {r : RoundResult} {kind : StateType} {kinds : List StateType}
      {stores : Stores} (hphase : n.miner = .writeChangesets block r (kind :: kinds))
      (hwrite : n.write C r.processed block.number kind = (stores, true)) :
      MinerMove C n { n with
        stores := stores
        miner := .writeChangesets block r kinds
        history := { n.history with applyFresh := false } }
  | writeRaises {block : Block} {r : RoundResult} {kind : StateType}
      {kinds : List StateType} {stores : Stores}
      (hphase : n.miner = .writeChangesets block r (kind :: kinds))
      (hwrite : n.write C r.processed block.number kind = (stores, false)) :
      MinerMove C n (restart C { n with
        stores := stores
        history := { n.history with applyFresh := false } })
  | castMineNextBlock (hphase : n.miner = .castMineNextBlock) :
      MinerMove C n { n with mailbox := n.mailbox ++ [.mineNextBlock], miner := .loop }

theorem minerMove_of_step {n n' : Node} (h : n.minerStep C = some n') :
    MinerMove C n n' := by
  unfold minerStep at h
  split at h
  · rename_i hphase
    split at h
    · cases h
    · rename_i rest hmail
      cases h
      exact .ignoreStop hphase hmail
    · rename_i rest hmail
      cases h
      exact .startRound hphase hmail
    · rename_i hnil hstop hmine
      cases h
      refine .strayLine hphase ?_
      cases hmail : n.mailbox with
      | nil => exact absurd hmail hnil
      | cons message rest =>
          refine ⟨message, rest, rfl, fun heq => ?_, fun heq => ?_⟩
          · exact hstop rest (by rw [hmail, heq])
          · exact hmine rest (by rw [hmail, heq])
  · rename_i hphase
    split at h
    · rename_i entry hentry
      cases h
      exact .mint hphase hentry
    · rename_i hentry
      cases h
      exact .mintRaises hphase hentry
  · rename_i hphase
    cases h
    exact .openProcessor hphase
  · rename_i port hphase
    split at h
    · cases h
    · rename_i rest hmail
      cases h
      exact .stopReceiving hphase hmail
    · rename_i port' r rest hmail
      cases h
      exact .takeResult hphase hmail
    · rename_i taken hnostop hnoresult hmail
      obtain ⟨message, rest⟩ := taken
      cases h
      cases message with
      | stop => exact absurd rfl (hnostop rest)
      | mineNextBlock => exact absurd rfl (receive_spec hmail).1
      | result port' r => exact absurd rfl (hnoresult port' r rest)
      | nonce port' value => exact .wrongLine hphase hmail
  · rename_i port hphase
    cases h
    exact .closeProcessor hphase
  · rename_i r hphase
    cases h
    exact .buildNext hphase
  · rename_i port newBlock r hphase
    split at h
    · cases h
    · rename_i rest hmail
      cases h
      exact .stopHashing hphase hmail
    · rename_i port' value rest hmail
      cases h
      exact .takeNonce hphase hmail
    · rename_i taken hnostop hnononce hmail
      obtain ⟨message, rest⟩ := taken
      cases h
      cases message with
      | stop => exact absurd rfl (hnostop rest)
      | mineNextBlock => exact absurd rfl (receive_spec hmail).1
      | result port' r' => exact .wrongNonce hphase hmail
      | nonce port' value => exact absurd rfl (hnononce port' value rest)
  · rename_i port hphase
    cases h
    exact .closeHashfactor hphase
  · rename_i block r hphase
    split at h
    · rename_i hinsert
      cases h
      exact .store hphase hinsert
    · rename_i hinsert
      cases h
      exact .refuse hphase hinsert
    · rename_i hinsert
      cases h
      exact .insertRaises hphase hinsert
  · rename_i block r hphase
    cases h
    exact .written hphase
  · rename_i block r kind kinds hphase
    dsimp only at h
    cases hwrite : n.write C r.processed block.number kind with
    | mk stores complete =>
        rw [hwrite] at h
        cases complete with
        | true =>
            cases h
            exact .write hphase hwrite
        | false =>
            cases h
            exact .writeRaises hphase hwrite
  · rename_i hphase
    cases h
    exact .castMineNextBlock hphase

/-! ## The P2P process -/

/-- The steps of the P2P process. -/
inductive P2PMove (C : NodeConfig) (P : Platform) (fuel : Nat) (n : Node) :
    Node → Prop where
  | post {entry : Bytes} {rest : List P2PMessage} (hphase : n.p2p = .loop)
      (hinbox : n.inbox = .transaction entry :: rest) :
      P2PMove C P fuel n (push C { n with inbox := rest } entry)
  | accept {block : Block} {rest : List P2PMessage} (hphase : n.p2p = .loop)
      (hinbox : n.inbox = .block block :: rest)
      (hvalid : n.validNextBlock C block = true) :
      P2PMove C P fuel n { n with
        inbox := rest
        p2p := .stop block
        history := { n.history with
          arrived := block.transactions.map CompletedTransaction.transaction ++
            n.history.arrived } }
  | reject {block : Block} {rest : List P2PMessage} (hphase : n.p2p = .loop)
      (hinbox : n.inbox = .block block :: rest) :
      P2PMove C P fuel n { n with inbox := rest }
  | stopMiner {block : Block} (hphase : n.p2p = .stop block) :
      P2PMove C P fuel n { n with mailbox := n.mailbox ++ [.stop], p2p := .process block }
  | openProcessor {block : Block} {ts : List Transaction} (hphase : n.p2p = .process block)
      (hdecode : C.decode (C.encode block.transactions) = some ts) :
      P2PMove C P fuel n { n with
        p2p := .receiveNative block ts .empty
        history := { n.history with applyFresh := !n.minerCommits } }
  | undecodable {block : Block} (hphase : n.p2p = .process block) :
      P2PMove C P fuel n n.hang
  | takeResult {block : Block} {processed : Processed}
      (hphase : n.p2p = .receiveNative block [] processed) :
      P2PMove C P fuel n { n with p2p := .writeFirst block processed }
  | execute {block : Block} {t : Transaction} {rest : List Transaction}
      {processed processed' : Processed}
      (hphase : n.p2p = .receiveNative block (t :: rest) processed)
      (hrun : runTransaction P fuel n.stores.redis n.stores.rocksdb
        (existingBlockEnv block) processed t = .ok processed') :
      P2PMove C P fuel n { n with
        processing := n.processing.filter (· ≠ C.transactionToVec t)
        p2p := .receiveNative block rest processed'
        history := { n.history with executed := t :: n.history.executed } }
  | executeDies {block : Block} {t : Transaction} {rest : List Transaction}
      {processed : Processed}
      (hphase : n.p2p = .receiveNative block (t :: rest) processed) :
      P2PMove C P fuel n (hang { n with
        history := { n.history with executed := t :: n.history.executed } })
  | writeFirst {block : Block} {processed : Processed} {stores : Stores}
      (hphase : n.p2p = .writeFirst block processed)
      (hwrite : n.write C processed block.number .memory = (stores, true)) :
      P2PMove C P fuel n { n with
        stores := stores
        p2p := .writeChangesets block processed [.storage, .memory, .storage]
        history := { n.history with roundFresh := false } }
  | write {block : Block} {processed : Processed} {kind : StateType}
      {kinds : List StateType} {stores : Stores}
      (hphase : n.p2p = .writeChangesets block processed (kind :: kinds))
      (hwrite : n.write C processed block.number kind = (stores, true)) :
      P2PMove C P fuel n { n with
        stores := stores
        p2p := .writeChangesets block processed kinds
        history := { n.history with roundFresh := false } }
  | writeRaises {block : Block} {processed : Processed} {kind : StateType}
      {kinds : List StateType} {stores : Stores}
      (hphase : n.p2p = .writeFirst block processed ∧ kind = .memory ∨
        n.p2p = .writeChangesets block processed (kind :: kinds))
      (hwrite : n.write C processed block.number kind = (stores, false)) :
      P2PMove C P fuel n (restartP2P { n with
        stores := stores
        history := { n.history with roundFresh := false } })
  | written {block : Block} {processed : Processed}
      (hphase : n.p2p = .writeChangesets block processed []) :
      P2PMove C P fuel n { n with p2p := .insert block }
  | store {block : Block} (hphase : n.p2p = .insert block)
      (hinsert : C.insert n.blocks block = .stored) :
      P2PMove C P fuel n { n with
        blocks := block :: n.blocks
        p2p := .castMineNextBlock
        history := { n.history with roundFresh := false } }
  | insertRaises {block : Block} (hphase : n.p2p = .insert block)
      (hinsert : C.insert n.blocks block ≠ .stored) :
      P2PMove C P fuel n n.restartP2P
  | castMineNextBlock (hphase : n.p2p = .castMineNextBlock) :
      P2PMove C P fuel n { n with mailbox := n.mailbox ++ [.mineNextBlock], p2p := .loop }

theorem p2pMove_of_step {n n' : Node} (h : n.p2pStep C P fuel = some n') :
    P2PMove C P fuel n n' := by
  unfold p2pStep at h
  split at h
  · rename_i hphase
    split at h
    · cases h
    · rename_i entry rest hinbox
      cases h
      exact .post hphase hinbox
    · rename_i block rest hinbox
      split at h
      · rename_i hvalid
        cases h
        exact .accept hphase hinbox hvalid
      · cases h
        exact .reject hphase hinbox
  · rename_i block hphase
    cases h
    exact .stopMiner hphase
  · rename_i block hphase
    split at h
    · rename_i ts hdecode
      cases h
      exact .openProcessor hphase hdecode
    · cases h
      exact .undecodable hphase
  · rename_i block processed hphase
    cases h
    exact .takeResult hphase
  · rename_i block t rest processed hphase
    dsimp only at h
    split at h
    · rename_i processed' hrun
      cases h
      exact .execute hphase hrun
    · cases h
      exact .executeDies hphase
  · rename_i block processed hphase
    simp only [writeApplied, Option.some.injEq] at h
    cases hwrite : n.write C processed block.number .memory with
    | mk stores complete =>
        rw [hwrite] at h
        cases complete with
        | true =>
            cases h
            exact .writeFirst hphase hwrite
        | false =>
            cases h
            exact @P2PMove.writeRaises C P fuel n block processed .memory [] stores
              (.inl ⟨hphase, rfl⟩) hwrite
  · rename_i block processed hphase
    cases h
    exact .written hphase
  · rename_i block processed kind kinds hphase
    simp only [writeApplied, Option.some.injEq] at h
    cases hwrite : n.write C processed block.number kind with
    | mk stores complete =>
        rw [hwrite] at h
        cases complete with
        | true =>
            cases h
            exact .write hphase hwrite
        | false =>
            cases h
            exact .writeRaises (.inr hphase) hwrite
  · rename_i block hphase
    split at h
    · rename_i hinsert
      cases h
      exact .store hphase hinsert
    · rename_i hinsert
      cases h
      exact .insertRaises hphase fun heq => hinsert heq
  · rename_i hphase
    cases h
    exact .castMineNextBlock hphase
  · cases h

/-! ## The native programs -/

/-- The steps of the native programs, each with the program that takes it. -/
inductive NativeMove (C : NodeConfig) (P : Platform) (fuel : Nat) (n : Node) :
    Action → Node → Prop where
  | pop {before after : List Native} {native : Native} {queued : List Bytes}
      {entry : Bytes} (hnatives : n.natives = before ++ (native :: after))
      (hstage : native.stage = .running) (hpopped : native.popped = none)
      (hqueued : n.queued = queued ++ [entry]) :
      NativeMove C P fuel n (.pop before.length) { n with
        queued := queued
        processing := entry :: n.processing
        natives := before ++ { native with popped := some entry } :: after
        history := { n.history with
          round :=
            match n.miner with
            | .receiveNative port =>
                if native.port = port then n.history.round ++ [entry]
                else n.history.round
            | _ => n.history.round } }
  | undecodable {before after : List Native} {native : Native} {entry : Bytes}
      (hnatives : n.natives = before ++ (native :: after))
      (hstage : native.stage = .running) (hpopped : native.popped = some entry)
      (hdecode : C.decodeTransaction entry = none) :
      NativeMove C P fuel n (.execute before.length) { n with
        natives := before ++ { native with stage := .panicked } :: after }
  | execute {before after : List Native} {native : Native} {entry : Bytes}
      {t : Transaction} {processed : Processed}
      (hnatives : n.natives = before ++ (native :: after))
      (hstage : native.stage = .running) (hpopped : native.popped = some entry)
      (hdecode : C.decodeTransaction entry = some t)
      (hrun : runTransaction P fuel n.stores.redis n.stores.rocksdb native.env
        native.processed t = .ok processed) :
      NativeMove C P fuel n (.execute before.length) { n with
        processing := n.processing.filter (· ≠ C.transactionToVec t)
        natives := before ++ { native with
          popped := none
          processed := processed
          entries := native.entries ++ [entry] } :: after
        history := { n.history with executed := t :: n.history.executed } }
  | executeDies {before after : List Native} {native : Native} {entry : Bytes}
      {t : Transaction} (hnatives : n.natives = before ++ (native :: after))
      (hstage : native.stage = .running) (hpopped : native.popped = some entry)
      (hdecode : C.decodeTransaction entry = some t) :
      NativeMove C P fuel n (.execute before.length) { n with
        natives := before ++ { native with stage := .panicked } :: after
        history := { n.history with executed := t :: n.history.executed } }
  | finish {before after : List Native} {native : Native}
      (hnatives : n.natives = before ++ (native :: after))
      (hstage : native.stage = .running) (hpopped : native.popped = none) :
      NativeMove C P fuel n (.finish before.length) { n with
        natives := before ++ { native with stage := .printed } :: after
        mailbox :=
          if native.connected then
            n.mailbox ++ [.result native.port ⟨native.processed, native.entries⟩]
          else n.mailbox }
  | exit {before after : List Native} {native : Native}
      (hnatives : n.natives = before ++ (native :: after))
      (hstage : native.stage ≠ .running) :
      NativeMove C P fuel n (.exit before.length) { n with natives := before ++ after }
  | found {before after : List Hasher} {hasher : Hasher} {value : Nat}
      (hhashers : n.hashers = before ++ hasher :: after)
      (hanswered : hasher.answered = false) :
      NativeMove C P fuel n (.found before.length value) { n with
        hashers := before ++ { hasher with answered := true } :: after
        mailbox := n.mailbox ++ [.nonce hasher.port value] }
  | exitHasher {before after : List Hasher} {hasher : Hasher}
      (hhashers : n.hashers = before ++ hasher :: after)
      (hanswered : hasher.answered = true) :
      NativeMove C P fuel n (.exitHasher before.length) { n with
        hashers := before ++ after }

/-- What stands at a place of a list, with what stands before and after it. -/
theorem exists_split {α : Type} {xs : List α} {i : Nat} {x : α} (h : xs[i]? = some x) :
    ∃ before after, xs = before ++ x :: after ∧ before.length = i := by
  obtain ⟨hi, hget⟩ := List.getElem?_eq_some_iff.mp h
  refine ⟨xs.take i, xs.drop (i + 1), ?_, List.length_take_of_le hi.le⟩
  rw [← hget, List.getElem_cons_drop, List.take_append_drop]

theorem nativeMove_of_pop {n n' : Node} {i : Nat} (h : n.pop i = some n') :
    NativeMove C P fuel n (.pop i) n' := by
  unfold pop at h
  split at h
  · cases h
  · rename_i native hget
    obtain ⟨before, after, hnatives, rfl⟩ := exists_split hget
    split at h
    · rename_i hready
      split at h
      · cases h
      · rename_i entry hlast
        have hqueued := List.dropLast_append_getLast? entry hlast
        cases h
        rw [hnatives, List.set_append_right _ _ le_rfl, Nat.sub_self, List.set_cons_zero]
        exact .pop hnatives hready.1 hready.2 hqueued.symm
    · cases h

theorem nativeMove_of_execute {n n' : Node} {i : Nat}
    (h : n.execute C P fuel i = some n') :
    NativeMove C P fuel n (.execute i) n' := by
  unfold execute at h
  split at h
  · cases h
  · rename_i native hget
    obtain ⟨before, after, hnatives, rfl⟩ := exists_split hget
    have hset (native' : Native) :
        n.natives.set before.length native' = before ++ (native' :: after) := by
      rw [hnatives, List.set_append_right _ _ le_rfl, Nat.sub_self, List.set_cons_zero]
    split at h
    · rename_i entry hstage hpopped
      split at h
      · rename_i hdecode
        cases h
        rw [hset]
        exact .undecodable hnatives hstage hpopped hdecode
      · rename_i t hdecode
        dsimp only at h
        split at h
        · cases h
          rw [hset]
          exact .executeDies hnatives hstage hpopped hdecode
        · rename_i processed hrun
          cases h
          rw [hset]
          exact .execute hnatives hstage hpopped hdecode hrun
    · cases h

theorem nativeMove_of_finish {n n' : Node} {i : Nat} (h : n.finish i = some n') :
    NativeMove C P fuel n (.finish i) n' := by
  unfold finish at h
  split at h
  · cases h
  · rename_i native hget
    obtain ⟨before, after, hnatives, rfl⟩ := exists_split hget
    split at h
    · rename_i hready
      cases h
      rw [hnatives, List.set_append_right _ _ le_rfl, Nat.sub_self, List.set_cons_zero]
      exact .finish hnatives hready.1 hready.2
    · cases h

theorem nativeMove_of_exit {n n' : Node} {i : Nat} (h : n.exit i = some n') :
    NativeMove C P fuel n (.exit i) n' := by
  unfold exit at h
  split at h
  · cases h
  · rename_i native hget
    obtain ⟨before, after, hnatives, rfl⟩ := exists_split hget
    split at h
    · cases h
    · rename_i hstage
      cases h
      rw [hnatives, List.eraseIdx_append_of_length_le le_rfl, Nat.sub_self,
        List.eraseIdx_cons_zero]
      exact .exit hnatives hstage

theorem nativeMove_of_found {n n' : Node} {i value : Nat}
    (h : n.found i value = some n') : NativeMove C P fuel n (.found i value) n' := by
  unfold found at h
  split at h
  · cases h
  · rename_i hasher hget
    obtain ⟨before, after, hhashers, rfl⟩ := exists_split hget
    split at h
    · cases h
    · rename_i hanswered
      cases h
      rw [hhashers, List.set_append_right _ _ le_rfl, Nat.sub_self, List.set_cons_zero]
      exact .found hhashers (Bool.eq_false_iff.mpr hanswered)

theorem nativeMove_of_exitHasher {n n' : Node} {i : Nat}
    (h : n.exitHasher i = some n') : NativeMove C P fuel n (.exitHasher i) n' := by
  unfold exitHasher at h
  split at h
  · cases h
  · rename_i hasher hget
    obtain ⟨before, after, hhashers, rfl⟩ := exists_split hget
    split at h
    · rename_i hanswered
      cases h
      rw [hhashers, List.eraseIdx_append_of_length_le le_rfl, Nat.sub_self,
        List.eraseIdx_cons_zero]
      exact .exitHasher hhashers hanswered
    · cases h

/-! ## The node -/

/-- The steps of a node. -/
inductive Move (C : NodeConfig) (P : Platform) (fuel : Nat) (n : Node) :
    Action → Node → Prop where
  | post {request : Records.TransactionMap} {entry : Bytes}
      (hentry : Records.queueEntry C.codec request = some entry) :
      Move C P fuel n (.post request)
        (push C { n with
          history := { n.history with checked := request :: n.history.checked } } entry)
  | refusePost {request : Records.TransactionMap} : Move C P fuel n (.post request) n
  | deliver {message : P2PMessage} :
      Move C P fuel n (.deliver message) (n.deliver message)
  | p2p {n' : Node} (hmove : P2PMove C P fuel n n') : Move C P fuel n .p2p n'
  | miner {n' : Node} (hmove : MinerMove C n n') : Move C P fuel n .miner n'
  | native {action : Action} {n' : Node} (hmove : NativeMove C P fuel n action n') :
      Move C P fuel n action n'

/-- The fields of the map that `mint` posts. -/
theorem fields_mint {K : Records.Codec} (hK : K.Writes) (publicKey : Bytes) :
    Records.Fields K ((mintRequest publicKey).view.entries K) (mintTransaction publicKey) := by
  have hread {α : Type} {read : Cbor.Item → Option α} {f : Records.TransactionField}
      {term : Records.Term} {a : α} (hterm : (mintRequest publicKey).view f = some term)
      (h : read (K.item term) = some a) :
      (Records.field ((mintRequest publicKey).view.entries K) f.key).bind read = some a := by
    rw [Records.field_pairs, hterm]
    exact h
  exact {
    contractAddress := hread (f := .contractAddress) rfl (Records.byteBuf_item hK rfl)
    sender := hread (f := .sender) rfl (Records.byteBuf_item hK rfl)
    nonce := hread (f := .nonce) rfl (Records.u64_item hK rfl)
    gasLimit := hread (f := .gasLimit) rfl (Records.u64_item hK rfl)
    function := hread (f := .function) rfl (Records.string_item hK rfl)
    arguments := hread (f := .arguments) rfl (by rw [hK.list]; rfl) }

/-- The entry that `mint` posts is read as the mint. -/
theorem mint_of_decode (hC : C.codec.Writes) {entry : Bytes} {t : Transaction}
    (hentry : Records.asBinary C.codec (mintRequest C.publicKey).received = some entry)
    (h : C.decodeTransaction entry = some t) : t = mintTransaction C.publicKey := by
  obtain ⟨entries, hread, hfields⟩ := Records.fromSlice_eq_some_iff.mp h
  cases Records.entries_of_read_pairs hC hentry hread
  exact hfields.unique (fields_mint hC C.publicKey)

/-- A request that is queued. -/
theorem step_post {n : Node} {request : Records.TransactionMap} {entry : Bytes}
    (hentry : Records.queueEntry C.codec request = some entry) :
    n.step C P fuel (.post request) =
      some (push C { n with
        history := { n.history with checked := request :: n.history.checked } } entry) := by
  rw [step, Node.post, hentry]

/-- A mint that can be written. -/
theorem step_mint {n : Node} {entry : Bytes} (hphase : n.miner = .mint)
    (hentry : Records.asBinary C.codec (mintRequest C.publicKey).received = some entry) :
    n.step C P fuel .miner = some { n.push C entry with miner := .processNewBlock } := by
  simp only [step, minerStep, hphase, hentry]

/-- A transaction that runs. -/
theorem step_execute {n : Node} {i : Nat} {native : Native} {entry : Bytes} {t : Transaction}
    {processed : Processed} (hnative : n.natives[i]? = some native)
    (hstage : native.stage = .running) (hpopped : native.popped = some entry)
    (hdecode : C.decodeTransaction entry = some t)
    (hresult : runTransaction P fuel n.stores.redis n.stores.rocksdb native.env
      native.processed t = .ok processed) :
    n.step C P fuel (.execute i) = some { n with
      processing := n.processing.filter (· ≠ C.transactionToVec t)
      natives := n.natives.set i { native with
        popped := none
        processed := processed
        entries := native.entries ++ [entry] }
      history := { n.history with executed := t :: n.history.executed } } := by
  simp only [step, execute, hnative, hstage, hpopped, hdecode, hresult]

/-- **Every step of a node is a move.** -/
theorem move_of_step {n n' : Node} {action : Action}
    (h : n.step C P fuel action = some n') : Move C P fuel n action n' := by
  cases action with
  | post request =>
      simp only [step, Node.post, Option.some.injEq] at h
      split at h
      · rename_i entry hentry
        subst h
        exact .post hentry
      · subst h
        exact .refusePost
  | deliver message =>
      cases h
      exact .deliver
  | p2p => exact .p2p (p2pMove_of_step h)
  | miner => exact .miner (minerMove_of_step h)
  | pop i => exact .native (nativeMove_of_pop h)
  | execute i => exact .native (nativeMove_of_execute h)
  | finish i => exact .native (nativeMove_of_finish h)
  | exit i => exact .native (nativeMove_of_exit h)
  | found i value => exact .native (nativeMove_of_found h)
  | exitHasher i => exact .native (nativeMove_of_exitHasher h)

end Node

end Ellipticoind.Ports
