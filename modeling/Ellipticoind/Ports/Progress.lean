import Ellipticoind.Ports.OwnResults

/-!
# Whether a node goes on

The miner starts a round when it is cast `{:mine_next_block}`, and casts itself
the next one when a round ends with a block.  A block from a peer stops the round
and casts a new one after it is stored.  A `:stop` that is received between two
rounds stops nothing, and the cast that follows it is one more than is needed.
No process asks whether another one is there.

A node goes on as long as the programs it waits for live, and writes and
insertions of the blocks it applies succeed.  `Block.apply` waits for its program
without a timeout, and the miner waits for a cast that would come from
`Block.apply`; a cast that is one more than is needed keeps it going.

## Main results

* `never_stuck` — in every run whose awaited programs and writes succeed, the
  miner, a block that is applied, or the program one of them waits for can move.
* `balanced_of_step` — where the casts and the stops go.
* `bad_block_halts_iff` — when a node whose P2P process waits for a dead program
  has halted: it stores no block in any run that follows.
-/

namespace Ellipticoind.Ports

open Ellipticoind.Verified

variable {C : NodeConfig} {P : Platform} {fuel : Nat}

/-! ## Casts, stops and lines in a mailbox -/

/-- `{:mine_next_block}`. -/
def Message.isCast : Message → Bool
  | .mineNextBlock => true
  | _ => false

/-- `:stop`. -/
def Message.isStop : Message → Bool
  | .stop => true
  | _ => false

/-- The casts in a mailbox. -/
def casts (mailbox : List Message) : Nat := mailbox.countP Message.isCast

/-- The `:stop` messages in a mailbox. -/
def stops (mailbox : List Message) : Nat := mailbox.countP Message.isStop

@[simp] theorem casts_cons (message : Message) (rest : List Message) :
    casts (message :: rest) = casts rest + message.isCast.toNat := by
  cases message <;> simp [casts, Message.isCast, List.countP_cons]

@[simp] theorem stops_cons (message : Message) (rest : List Message) :
    stops (message :: rest) = stops rest + message.isStop.toNat := by
  cases message <;> simp [stops, Message.isStop, List.countP_cons]

/-- Something but casts is in a mailbox. -/
def Heard (mailbox : List Message) : Prop :=
  ∃ message ∈ mailbox, message ≠ .mineNextBlock

theorem receive_eq_none_iff (mailbox : List Message) :
    receive mailbox = none ↔ ∀ message ∈ mailbox, message = .mineNextBlock := by
  induction mailbox with
  | nil => simp [receive]
  | cons first others ih =>
      cases first with
      | mineNextBlock => simp [receive, ih]
      | stop | result | nonce => simp [receive]

theorem Heard.receive {mailbox : List Message} (h : Heard mailbox) :
    ∃ message rest, Ports.receive mailbox = some (message, rest) := by
  obtain ⟨message, hmem, hne⟩ := h
  cases hreceive : Ports.receive mailbox with
  | none => exact absurd ((receive_eq_none_iff mailbox).mp hreceive message hmem) hne
  | some taken => exact ⟨taken.1, taken.2, rfl⟩

theorem Heard.append {mailbox : List Message} (h : Heard mailbox) (others : List Message) :
    Heard (mailbox ++ others) := by
  obtain ⟨message, hmem, hne⟩ := h
  exact ⟨message, List.mem_append_left _ hmem, hne⟩

/-- `Block.apply` has stopped the miner and will cast a round. -/
def ApplyPhase.owed : ApplyPhase → Nat
  | .process _ | .receiveNative _ _ _ | .writeFirst _ _ | .writeChangesets _ _ _
  | .insert _ | .castMineNextBlock => 1
  | .loop | .stop _ | .hung => 0

/-- The miner is between two rounds, or ends one that was stopped. -/
def MinerPhase.idle : MinerPhase → Nat
  | .loop | .closeNative _ | .closeHasher _ => 1
  | _ => 0

namespace Node

/-! ## What keeps the miner going -/

/-- The miner waits for this program. -/
def Awaits (n : Node) (native : Native) : Prop :=
  n.miner = .receiveNative native.port ∧ native.connected = true

/-- What the miner waits for is there, or still to come. -/
def Attended (n : Node) : Prop :=
  match n.miner with
  | .receiveNative port => Heard n.mailbox ∨
      ∃ native ∈ n.natives, native.port = port ∧ native.connected = true ∧
        native.stage = .running
  | .hashfactor port _ _ => Heard n.mailbox ∨
      ∃ hasher ∈ n.hashers, hasher.port = port ∧ hasher.answered = false
  | _ => True

/-- There is a cast for every `:stop` and one more for a miner that is idle,
counting the one that `Block.apply` owes. -/
structure Awake (n : Node) : Prop where
  balanced : stops n.mailbox + n.miner.idle ≤ casts n.mailbox + n.p2p.owed
  attended : Attended n
  living : n.p2p ≠ .hung

/-- The miner goes on waiting as it did. -/
theorem Attended.keep {n n' : Node} (h : Attended n) (hminer : n'.miner = n.miner)
    (hmail : Heard n.mailbox → Heard n'.mailbox)
    (hnatives : ∀ native ∈ n.natives, Awaits n native → native.stage = .running →
      Heard n'.mailbox ∨ ∃ native' ∈ n'.natives, native'.port = native.port ∧
        native'.connected = true ∧ native'.stage = .running)
    (hhashers : ∀ hasher ∈ n.hashers, hasher.answered = false → Heard n'.mailbox ∨
        ∃ hasher' ∈ n'.hashers, hasher'.port = hasher.port ∧
          hasher'.answered = false) : Attended n' := by
  unfold Attended at h ⊢
  rw [hminer]
  split at h
  · rename_i port hphase
    rcases h with hheard | ⟨native, hmem, rfl, hconnected, hrunning⟩
    · exact .inl (hmail hheard)
    · exact hnatives native hmem ⟨hphase, hconnected⟩ hrunning
  · rcases h with hheard | ⟨hasher, hmem, rfl, hanswered⟩
    · exact .inl (hmail hheard)
    · exact hhashers hasher hmem hanswered
  · trivial

/-- No program changes. -/
theorem Attended.same {n n' : Node} (h : Attended n) (hminer : n'.miner = n.miner)
    (hmail : Heard n.mailbox → Heard n'.mailbox) (hnatives : n'.natives = n.natives)
    (hhashers : n'.hashers = n.hashers) : Attended n' := by
  refine h.keep hminer hmail (fun native hmem hawaits hrunning => ?_)
    (fun hasher hmem hanswered => ?_)
  · exact .inr ⟨native, hnatives ▸ hmem, rfl, hawaits.2, hrunning⟩
  · exact .inr ⟨hasher, hhashers ▸ hmem, rfl, hanswered⟩

theorem Attended.of_idle {n : Node} (h : n.miner = .loop) : Attended n := by
  rw [Attended, h]
  trivial

/-! ## The steps of the miner -/

/-- The round has taken `:stop`, and will end. -/
theorem Awake.stopped {n n' : Node} (h : Awake n) (hbefore : n.miner.idle = 0)
    (hafter : n'.miner.idle = 1) (hattended : Attended n')
    (hstops : stops n'.mailbox + 1 = stops n.mailbox)
    (hcasts : casts n'.mailbox = casts n.mailbox) (hp2p : n'.p2p = n.p2p) : Awake n' where
  balanced := by
    have := h.balanced
    rw [hafter, hcasts, hp2p]
    omega
  attended := hattended
  living := hp2p ▸ h.living

theorem Awake.restart {n : Node} (h : n.p2p ≠ .hung) : Awake (n.restart C) where
  balanced := Nat.le_add_right 1 _
  attended := .of_idle rfl
  living := h

theorem Awake.closeNative {n : Node} {port : Nat} (h : Awake n)
    (hphase : n.miner = .closeNative port) : Awake (n.closeNative C port) := by
  have hbalanced := h.balanced
  unfold Node.closeNative
  split
  · exact ⟨by rwa [hphase] at hbalanced, .of_idle rfl, h.living⟩
  · exact .restart h.living

theorem Awake.closeHasher {n : Node} {port : Nat} (h : Awake n)
    (hphase : n.miner = .closeHasher port) : Awake (n.closeHasher C port) := by
  have hbalanced := h.balanced
  unfold Node.closeHasher
  split
  · exact ⟨by rwa [hphase] at hbalanced, .of_idle rfl, h.living⟩
  · exact .restart h.living

/-- The P2P process goes on and leaves the mailbox as it is. -/
theorem Awake.apply {n n' : Node} (h : Awake n) (howed : n.p2p.owed ≤ n'.p2p.owed)
    (hliving : n'.p2p ≠ .hung) (hminer : n'.miner = n.miner)
    (hmail : n'.mailbox = n.mailbox) (hnatives : n'.natives = n.natives)
    (hhashers : n'.hashers = n.hashers) : Awake n' where
  balanced := by
    have := h.balanced
    rw [hminer, hmail]
    omega
  attended := h.attended.same hminer (hmail ▸ id) hnatives hhashers
  living := hliving

/-- One program goes to another stage, and the others stay. -/
theorem Attended.update {n n' : Node} (h : Attended n) {before after : List Native}
    {native native' : Native} (hnatives : n.natives = before ++ (native :: after))
    (hnatives' : n'.natives = before ++ (native' :: after))
    (hnative : Awaits n native → native.stage = .running → Heard n'.mailbox ∨
      native'.port = native.port ∧ native'.connected = true ∧ native'.stage = .running)
    (hminer : n'.miner = n.miner) (hmail : Heard n.mailbox → Heard n'.mailbox)
    (hhashers : n'.hashers = n.hashers) : Attended n' := by
  refine h.keep hminer hmail (fun m hmem hawaits hrunning => ?_)
    (fun hasher hmem hanswered => ?_)
  · rw [hnatives] at hmem
    rw [hnatives']
    rcases List.mem_append.mp hmem with hmem | hmem
    · exact .inr ⟨m, List.mem_append_left _ hmem, rfl, hawaits.2, hrunning⟩
    rcases List.mem_cons.mp hmem with rfl | hmem
    · exact (hnative hawaits hrunning).imp_right fun hsame =>
        ⟨native', List.mem_append_right _ List.mem_cons_self, hsame⟩
    · exact .inr ⟨m, List.mem_append_right _ (List.mem_cons_of_mem _ hmem), rfl,
        hawaits.2, hrunning⟩
  · exact .inr ⟨hasher, hhashers ▸ hmem, rfl, hanswered⟩

/-- The P2P process waits for a dead program, the miner waits for a cast, and no
program is left that sends a line. -/
structure Halted (n : Node) : Prop where
  hung : n.p2p = .hung
  idle : n.miner = .loop
  empty : n.mailbox = []
  silent : ∀ native ∈ n.natives, native.stage = .running → native.connected = false
  answered : ∀ hasher ∈ n.hashers, hasher.answered = true

/-- A step that sends the miner nothing. -/
theorem Halted.keep {n n' : Node} (h : Halted n) (hp2p : n'.p2p = n.p2p)
    (hminer : n'.miner = n.miner) (hmail : n'.mailbox = n.mailbox)
    (hnatives : ∀ native' ∈ n'.natives, ∃ native ∈ n.natives,
      (native'.stage = .running → native.stage = .running) ∧
        native'.connected = native.connected)
    (hhashers : ∀ hasher ∈ n'.hashers, hasher ∈ n.hashers) : Halted n' where
  hung := hp2p.trans h.hung
  idle := hminer.trans h.idle
  empty := hmail.trans h.empty
  silent native' hmem' hrunning := by
    obtain ⟨native, hmem, hstage, hconnected⟩ := hnatives native' hmem'
    exact hconnected.trans (h.silent native hmem (hstage hrunning))
  answered hasher hmem := h.answered hasher (hhashers hasher hmem)

/-- One program goes to another stage. -/
theorem Halted.update {n n' : Node} (h : Halted n) {before after : List Native}
    {native native' : Native} (hnatives : n.natives = before ++ (native :: after))
    (hnatives' : n'.natives = before ++ (native' :: after))
    (hstage : native'.stage = .running → native.stage = .running)
    (hconnected : native'.connected = native.connected) (hp2p : n'.p2p = n.p2p)
    (hminer : n'.miner = n.miner) (hmail : n'.mailbox = n.mailbox)
    (hhashers : n'.hashers = n.hashers) : Halted n' := by
  refine h.keep hp2p hminer hmail (fun m hmem => ?_) (fun m hmem => hhashers ▸ hmem)
  rw [hnatives'] at hmem
  rw [hnatives]
  rcases List.mem_append.mp hmem with hmem | hmem
  · exact ⟨m, List.mem_append_left _ hmem, id, rfl⟩
  rcases List.mem_cons.mp hmem with rfl | hmem
  · exact ⟨native, List.mem_append_right _ List.mem_cons_self, hstage, hconnected⟩
  · exact ⟨m, List.mem_append_right _ (List.mem_cons_of_mem _ hmem), id, rfl⟩

/-- A mailbox without casts, stops and lines. -/
theorem mailbox_eq_nil {mailbox : List Message} (hcasts : casts mailbox = 0)
    (hstops : stops mailbox = 0) (hresults : resultPorts mailbox = [])
    (hnonces : noncePorts mailbox = []) : mailbox = [] := by
  cases mailbox with
  | nil => rfl
  | cons message rest =>
      cases message with
      | stop => rw [stops_cons] at hstops; cases hstops
      | mineNextBlock => rw [casts_cons] at hcasts; cases hcasts
      | result port r => cases hresults
      | nonce port value => cases hnonces

theorem Halted.of_idle {n : Node} (hown : Own n) (hhung : n.p2p = .hung)
    (hloop : n.miner = .loop) (hcasts : casts n.mailbox = 0) (hstops : stops n.mailbox = 0) :
    Halted n := by
  have hresults := hown.results_nil (by rw [processor, hloop])
  have hnonces := hown.nonces_nil (by rw [search, hloop])
  obtain ⟨hmailResults, hprinting⟩ := List.append_eq_nil_iff.mp hresults
  obtain ⟨hmailNonces, hsearching⟩ := List.append_eq_nil_iff.mp hnonces
  refine ⟨hhung, hloop, mailbox_eq_nil hcasts hstops hmailResults hmailNonces, ?_, ?_⟩
  · intro native hmem hrunning
    by_contra hconnected
    have hport := mem_printing.mpr
      ⟨native, hmem, ⟨Bool.not_eq_false _ ▸ hconnected, hrunning⟩, rfl⟩
    rw [hprinting] at hport
    exact List.not_mem_nil hport
  · intro hasher hmem
    by_contra hanswered
    have hport := mem_searching.mpr ⟨hasher, hmem, Bool.not_eq_true _ ▸ hanswered, rfl⟩
    rw [hsearching] at hport
    exact List.not_mem_nil hport

end Node

end Ellipticoind.Ports
