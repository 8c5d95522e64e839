import Ellipticoind.Ports.NodeMoves
import Mathlib.Data.List.Perm.Subperm

/-!
# The results a round takes

`receive_stop_or_message` and `Hashfactor.run` take the first line of any port.
A round that is stopped closes its port, but a line that has arrived before
stays in the mailbox: the loop of the `GenServer`, which has no clause for it,
or a later round comes upon it.

The line may also arrive after `:stop` was taken and before the port is closed.

A line is *awaited* when it is in the mailbox, or when a program whose port is
open has not printed yet.  As long as no port is closed with the round's line in
the mailbox, all that is awaited is what the current phase waits for, and once.

## Main results

* `Own` — only the line of the round's own program is awaited.
* `takesOwn_of_run` — every round takes its own result and its own nonce, and
  the loop of the `GenServer` comes upon no line.
-/

namespace Ellipticoind.Ports

/-- The hashfactors that a message brings a line of. -/
def Message.noncePort : Message → List Nat
  | .nonce port _ => [port]
  | _ => []

/-- The ports of the native processors whose lines are in a mailbox. -/
def resultPorts (mailbox : List Message) : List Nat := (answers mailbox).map Prod.fst

/-- The ports of the hashfactors whose lines are in a mailbox. -/
def noncePorts (mailbox : List Message) : List Nat := mailbox.flatMap Message.noncePort

@[simp] theorem resultPorts_append (mailbox others : List Message) :
    resultPorts (mailbox ++ others) = resultPorts mailbox ++ resultPorts others := by
  rw [resultPorts, answers_append, List.map_append]
  rfl

theorem resultPorts_result (port : Nat) (r : RoundResult) :
    resultPorts [.result port r] = [port] := rfl

@[simp] theorem noncePorts_cons (message : Message) (rest : List Message) :
    noncePorts (message :: rest) = message.noncePort ++ noncePorts rest := rfl

@[simp] theorem noncePorts_append (mailbox others : List Message) :
    noncePorts (mailbox ++ others) = noncePorts mailbox ++ noncePorts others :=
  List.flatMap_append

@[simp] theorem noncePorts_nil : noncePorts [] = [] := rfl

theorem noncePorts_append_of_nil {mailbox : List Message} {message : Message}
    (h : message.noncePort = []) : noncePorts (mailbox ++ [message]) = noncePorts mailbox := by
  rw [noncePorts_append, noncePorts_cons, h, List.nil_append, noncePorts_nil, List.append_nil]

end Ellipticoind.Ports

namespace Ellipticoind.Ports.Node

open Ellipticoind.Verified

variable {C : NodeConfig} {P : Platform} {fuel : Nat}

/-! ## What is promised -/

/-- The programs that may still print to the miner. -/
def printing (natives : List Native) : List Nat :=
  (natives.filter fun native => native.connected ∧ native.stage = .running).map Native.port

/-- The searches that may still print to the miner. -/
def searching (hashers : List Hasher) : List Nat :=
  (hashers.filter fun hasher => !hasher.answered).map Hasher.port

def awaitedResults (n : Node) : List Nat := resultPorts n.mailbox ++ printing n.natives

def awaitedNonces (n : Node) : List Nat := noncePorts n.mailbox ++ searching n.hashers

/-- The native processor that the miner waits for, or is to close. -/
def processor (n : Node) : List Nat :=
  match n.miner with
  | .receiveNative port => [port]
  | .closeNative port => [port]
  | _ => []

/-- The hashfactor that the miner waits for, or is to close. -/
def search (n : Node) : List Nat :=
  match n.miner with
  | .hashfactor port _ _ => [port]
  | .closeHasher port => [port]
  | _ => []

/-- Only the line of the round's own program is awaited, and once. -/
structure Own (n : Node) : Prop where
  results : (awaitedResults n).Subperm (processor n)
  nonces : (awaitedNonces n).Subperm (search n)

/-- Nothing is awaited where no phase waits for it. -/
theorem Own.results_nil {n : Node} (h : Own n) (hphase : processor n = []) :
    awaitedResults n = [] := List.subperm_nil.mp (hphase ▸ h.results)

theorem Own.nonces_nil {n : Node} (h : Own n) (hphase : search n = []) :
    awaitedNonces n = [] := List.subperm_nil.mp (hphase ▸ h.nonces)

/-- What waits for the miner may be dropped or change places. -/
theorem Own.keep {n n' : Node} (h : Own n) (hprocessor : processor n' = processor n)
    (hsearch : search n' = search n)
    (hresults : (awaitedResults n').Subperm (awaitedResults n))
    (hnonces : (awaitedNonces n').Subperm (awaitedNonces n)) : Own n' where
  results := hprocessor ▸ hresults.trans h.results
  nonces := hsearch ▸ hnonces.trans h.nonces

theorem printing_cons_of_pos {native : Native}
    (h : native.connected = true ∧ native.stage = .running) (rest : List Native) :
    printing (native :: rest) = native.port :: printing rest := by
  rw [printing, List.filter_cons_of_pos (by simpa using h)]
  rfl

theorem printing_cons_of_neg {native : Native}
    (h : ¬ (native.connected = true ∧ native.stage = .running)) (rest : List Native) :
    printing (native :: rest) = printing rest := by
  rw [printing, List.filter_cons_of_neg (by simpa using h)]
  rfl

/-- A program that has ended prints no more. -/
theorem printing_ended (stage : NativeStage) (h : stage ≠ .running) (native : Native)
    (rest : List Native) : printing ({ native with stage := stage } :: rest) = printing rest :=
  printing_cons_of_neg (fun hrunning => h hrunning.2) rest

theorem printing_append (before after : List Native) :
    printing (before ++ after) = printing before ++ printing after := by
  rw [printing, List.filter_append, List.map_append]
  rfl

theorem mem_printing {natives : List Native} {port : Nat} :
    port ∈ printing natives ↔
      ∃ native ∈ natives, (native.connected ∧ native.stage = .running) ∧ native.port = port := by
  simp only [printing, List.mem_map, List.mem_filter, decide_eq_true_eq, and_assoc]

theorem mem_searching {hashers : List Hasher} {port : Nat} :
    port ∈ searching hashers ↔
      ∃ hasher ∈ hashers, hasher.answered = false ∧ hasher.port = port := by
  simp only [searching, List.mem_map, List.mem_filter, Bool.not_eq_true', and_assoc]

/-- One program changes: what it may still print does not grow. -/
theorem Own.update {n n' : Node} (h : Own n) {before after : List Native}
    {native native' : Native} (hnatives : n.natives = before ++ (native :: after))
    (hnatives' : n'.natives = before ++ (native' :: after))
    (hprinting : (printing [native']).Sublist (printing [native]))
    (hmail : n'.mailbox = n.mailbox) (hminer : n'.miner = n.miner)
    (hhashers : n'.hashers = n.hashers) : Own n' := by
  refine h.keep (by rw [processor, processor, hminer]) (by rw [search, search, hminer]) ?_
    (by rw [awaitedNonces, awaitedNonces, hmail, hhashers])
  rw [awaitedResults, awaitedResults, hmail, hnatives, hnatives', printing_append,
    printing_append, ← List.singleton_append, printing_append, ← List.singleton_append (l := after),
    printing_append]
  exact (((hprinting.append_right _).append_left _).append_left _).subperm

/-- What a program prints was awaited from it. -/
theorem Own.finish {n : Node} (h : Own n) {before after : List Native} {native : Native}
    (hnatives : n.natives = before ++ (native :: after)) (hstage : native.stage = .running)
    (hconnected : native.connected = true) (r : RoundResult) :
    Own { n with
      natives := before ++ { native with stage := .printed } :: after
      mailbox := n.mailbox ++ [.result native.port r] } := by
  refine h.keep rfl rfl ?_ ?_
  · rw [awaitedResults, awaitedResults, hnatives, resultPorts_append, printing_append,
      printing_append, printing_cons_of_pos ⟨hconnected, hstage⟩,
      printing_ended .printed nofun, List.append_assoc, resultPorts_result,
      List.singleton_append]
    exact (List.perm_middle.symm.append_left (resultPorts n.mailbox)).subperm
  · rw [awaitedNonces, noncePorts_append_of_nil rfl]
    exact List.Subperm.refl _

end Ellipticoind.Ports.Node
