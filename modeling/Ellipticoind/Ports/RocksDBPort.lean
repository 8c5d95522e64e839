import Ellipticoind.Ports.PortData
import Ellipticoind.Verified.LittleEndian
import Ellipticoind.Verified.Runs

/-!
# The RocksDB port

`rocksdb.ex` keeps a native program, `rocksdb/src/main.rs`, that answers one
line with one line: `put` with `ok`, and `get` with the value in base 64.  What
the program prints comes to the server's mailbox in data messages that need not
be lines.

A `get` takes the first data message there is, a `put` the first that is `ok`
with its newline; between two calls the server drops what it finds at the head
of its mailbox.  An `Action` is one of these steps, or a message from the port,
and any order of actions is possible.

`Server.printed`, `Server.history` and `Server.answers` are not in the source; no
definition that returns anything else reads them.

## Main results

* `main_put`, `main_get` — what the native program does with a command.
* `faithful_of_run` — when every `get` returns what was put last.
-/

namespace Ellipticoind.Ports.RocksDBPort

open Ellipticoind.Verified
open Ellipticoind.Verified.LittleEndian

/-! ## The native program -/

/-- RocksDB, and `base64::decode`, which reads back what `base64::encode`
makes. -/
structure Crates where
  Store : Type
  empty : Store
  get : Store → Bytes → Option Bytes
  put : Store → Bytes → Bytes → Store
  decode : Bytes → Option Bytes
  get_empty : ∀ key, get empty key = none
  get_put : ∀ store key value key',
    get (put store key value) key' = if key' = key then some value else get store key'
  decode_encode : ∀ bytes, decode (Base64.encode bytes) = some bytes

/-- A line without a carriage return at its end. -/
def chomp (line : Bytes) : Bytes := if line.getLast? = some 13 then line.dropLast else line

/-- `BufRead::lines`.  The commands are ASCII, so none of them fails. -/
def lines (input : Bytes) : List Bytes :=
  let parts := input.splitOn newline
  (if parts.getLast? = some [] then parts.dropLast else parts).map chomp

section Native

variable (C : Crates)

/-- `put`, and what it prints. -/
def put (store : C.Store) (key value : Bytes) : C.Store × Bytes :=
  (C.put store key value, utf8 "ok\n")

/-- `get`, and what it prints. -/
def get (store : C.Store) (key : Bytes) : C.Store × Bytes :=
  match C.get store key with
  | some value => (store, Base64.encode value ++ [newline])
  | none => (store, Base64.encode [123] ++ [newline])

/-- A round of `main`'s loop; it panics where there is no result. -/
def mainLine (store : C.Store) (line : Bytes) : Option (C.Store × Bytes) :=
  match line.splitOn space with
  | [command, key, value] =>
      if command = utf8 "put" then
        (C.decode key).bind fun key => (C.decode value).map fun value => put C store key value
      else none
  | [command, key] =>
      if command = utf8 "get" then (C.decode key).map fun key => get C store key else none
  | _ => none

/-- `main`, on some input. -/
def main (store : C.Store) (input : Bytes) : Option (C.Store × Bytes) :=
  (lines input).foldlM
    (fun state line => (mainLine C state.1 line).map fun next => (next.1, state.2 ++ next.2))
    (store, [])

end Native

/-! ## The server -/

inductive Call where
  | get (blockNumber : Int) (key : Bytes)
  | put (blockNumber : Int) (key value : Bytes)
  deriving DecidableEq

/-- `<<block_number::little-size(64)>> <> key`. -/
def storeKey (blockNumber : Int) (key : Bytes) : Bytes :=
  leBytes 8 (blockNumber % 2 ^ 64).toNat ++ key

/-- `command`, in the two clauses of `handle_call`. -/
def Call.command : Call → Bytes
  | .get blockNumber key =>
      utf8 "get " ++ Base64.encode (storeKey blockNumber key) ++ [newline]
  | .put blockNumber key value =>
      utf8 "put " ++ Base64.encode (storeKey blockNumber key) ++ space :: Base64.encode value ++
        [newline]

inductive Phase where
  /-- In the loop of the `GenServer`. -/
  | loop
  /-- In the `receive` of a call. -/
  | waits (call : Call)
  | raised
  /-- The native program has panicked. -/
  | panicked
  deriving DecidableEq

structure Put where
  blockNumber : Int
  key : Bytes
  value : Bytes

/-- What a `get` has returned, and the puts there were by then. -/
structure Answer where
  history : List Put
  blockNumber : Int
  key : Bytes
  value : Bytes

structure Server (C : Crates) where
  phase : Phase
  /-- The data messages no one has taken. -/
  mailbox : List Bytes
  /-- What the native program has printed and the port has not delivered. -/
  pipe : Bytes
  store : C.Store
  /-- What the native program has printed for the last command. -/
  printed : Bytes
  /-- The puts so far, the last one first. -/
  history : List Put
  answers : List Answer

inductive Action where
  /-- The server takes a call, and the native program answers the command. -/
  | call (call : Call)
  /-- The port makes a data message of the next bytes. -/
  | deliver (length : Nat)
  /-- `handle_info`. -/
  | handleInfo
  /-- The `receive` of a call. -/
  | receive

namespace Server

variable {C : Crates}

def start : Server C where
  phase := .loop
  mailbox := []
  pipe := []
  store := C.empty
  printed := []
  history := []
  answers := []

def record (s : Server C) : Call → List Put
  | .get _ _ => s.history
  | .put blockNumber key value => ⟨blockNumber, key, value⟩ :: s.history

/-- `send(port, {self(), {:command, command}})`. -/
def call (s : Server C) (call : Call) : Server C :=
  match main C s.store call.command with
  | some (store, output) =>
      { s with phase := .waits call, store := store, pipe := s.pipe ++ output,
               printed := output, history := s.record call }
  | none => { s with phase := .panicked }

/-- The message that the `receive` of `put` matches. -/
def ok : Bytes := utf8 "ok\n"

/-- The `receive` of `put`, and the mailbox it leaves. -/
def receiveOk : List Bytes → Option (List Bytes)
  | [] => none
  | message :: rest =>
      if message = ok then some rest else (receiveOk rest).map (message :: ·)

/-- The `receive` of `get`, on its message. -/
def answer (s : Server C) (blockNumber : Int) (key message : Bytes) (rest : List Bytes) :
    Server C :=
  match decode64 message with
  | some value =>
      { s with phase := .loop, mailbox := rest,
               answers := ⟨s.history, blockNumber, key, value⟩ :: s.answers }
  | none => { s with phase := .raised }

def receive (s : Server C) : Option (Server C) :=
  match s.phase, s.mailbox with
  | .waits (.get blockNumber key), message :: rest =>
      some (s.answer blockNumber key message rest)
  | .waits (.put _ _ _), mailbox =>
      (receiveOk mailbox).map fun rest => { s with phase := .loop, mailbox := rest }
  | _, _ => none

def step (s : Server C) : Action → Option (Server C)
  | .call call => if s.phase = .loop then some (s.call call) else none
  | .deliver length =>
      if 0 < length ∧ length ≤ s.pipe.length then
        some { s with mailbox := s.mailbox ++ [s.pipe.take length], pipe := s.pipe.drop length }
      else none
  | .handleInfo =>
      if s.phase = .loop ∧ s.mailbox ≠ [] then some { s with mailbox := s.mailbox.tail } else none
  | .receive => s.receive

end Server

/-! ## What is promised -/

/-- The value last put for a block number and a key. -/
def latest (history : List Put) (blockNumber : Int) (key : Bytes) : Option Bytes :=
  (history.find? fun put => put.blockNumber = blockNumber ∧ put.key = key).map Put.value

/-- The value last put for the key, at any block number with the same low 64
bits. -/
def latestLow (history : List Put) (blockNumber : Int) (key : Bytes) : Option Bytes :=
  (history.find? fun put =>
    put.blockNumber % 2 ^ 64 = blockNumber % 2 ^ 64 ∧ put.key = key).map Put.value

/-- A value that was put is returned; for a pair never put, the answer is no
value at all. -/
def Answer.Right (answer : Answer) : Prop :=
  match latest answer.history answer.blockNumber answer.key with
  | some value => answer.value = value
  | none => ∀ value : Bytes, answer.value ≠ value

/-- Every answer is right, and no call waits for what will not come. -/
structure Server.Faithful {C : Crates} (s : Server C) : Prop where
  runs : s.phase ≠ .raised ∧ s.phase ≠ .panicked
  right : ∀ answer ∈ s.answers, answer.Right
  returns : ∀ call, s.phase = .waits call → s.pipe = [] → s.receive ≠ none

/-- A `get` asks for a pair that has been put, and that no later put at another
block number has covered; the message it takes is what the native program has
printed for it, but for newlines at the ends.  While a `put` waits, what is
printed for it comes as a message of its own. -/
def Server.Suits {C : Crates} (s : Server C) : Action → Prop
  | .call (.get blockNumber key) =>
      ∃ value, latest s.history blockNumber key = some value ∧
        latestLow s.history blockNumber key = some value
  | .deliver length =>
      ∀ blockNumber key value, s.phase = .waits (.put blockNumber key value) →
        length + s.printed.length ≤ s.pipe.length ∨
          length = s.printed.length ∧ s.pipe = s.printed
  | .receive =>
      ∀ blockNumber key, s.phase = .waits (.get blockNumber key) →
        ∃ message rest, s.mailbox = message :: rest ∧
          trimNewlines (listToString message) = trimNewlines (listToString s.printed)
  | _ => True

/-! ## Commands -/

theorem carriageReturn_notMem_encode (bytes : Bytes) : 13 ∉ Base64.encode bytes :=
  Base64.notMem_encode (by decide +kernel) (by decide) bytes

/-- A command is one line. -/
theorem lines_of_line {line : Bytes} (hnewline : newline ∉ line) (hreturn : 13 ∉ line) :
    lines (line ++ [newline]) = [line] := by
  have hparts : (line ++ [newline]).splitOn newline = [line, []] := by
    rw [List.splitOn_append_cons_self_of_not_mem hnewline, List.splitOn_nil]
  have hchomp : chomp line = line :=
    if_neg fun hlast => hreturn (List.mem_of_getLast? hlast)
  rw [lines, hparts]
  exact congrArg (fun l => [l]) hchomp

/-- The words of a command. -/
theorem splitOn_word {word : Bytes} (h : space ∉ word) (rest : Bytes) :
    (word ++ space :: rest).splitOn space = word :: rest.splitOn space :=
  List.splitOn_append_cons_self_of_not_mem h rest

section Commands

variable {C : Crates}

/-- On a line, `main` makes one round. -/
theorem main_line {store store' : C.Store} {line output : Bytes} (hnewline : newline ∉ line)
    (hreturn : 13 ∉ line) (h : mainLine C store line = some (store', output)) :
    main C store (line ++ [newline]) = some (store', output) := by
  rw [main, lines_of_line hnewline hreturn, List.foldlM_cons, h]
  rfl

/-- What `main` does with the command of a `put`. -/
theorem main_put (store : C.Store) (blockNumber : Int) (key value : Bytes) :
    main C store (Call.put blockNumber key value).command =
      some (C.put store (storeKey blockNumber key) value, Server.ok) := by
  have hcommand : (Call.put blockNumber key value).command =
      (utf8 "put" ++ space :: (Base64.encode (storeKey blockNumber key) ++
        space :: Base64.encode value)) ++ [newline] := by
    have hword : utf8 "put " = utf8 "put" ++ [space] := by decide
    simp only [Call.command, hword, List.append_assoc, List.cons_append, List.nil_append]
  have hmem : ∀ c, c ∉ utf8 "put" → c ≠ space →
      (∀ bytes, c ∉ Base64.encode bytes) → c ∉ utf8 "put" ++ space ::
        (Base64.encode (storeKey blockNumber key) ++ space :: Base64.encode value) := by
    intro c hput hspace hencode
    simp only [List.mem_append, List.mem_cons, not_or]
    exact ⟨hput, hspace, hencode _, hspace, hencode _⟩
  rw [hcommand]
  refine main_line (hmem _ (by decide) (by decide) newline_notMem_encode)
    (hmem _ (by decide) (by decide) carriageReturn_notMem_encode) ?_
  rw [mainLine, splitOn_word (by decide), splitOn_word (space_notMem_encode _),
    List.splitOn_eq_singleton (space_notMem_encode _)]
  dsimp only
  rw [if_pos rfl, C.decode_encode, C.decode_encode]
  rfl

/-- What `main` does with the command of a `get`. -/
theorem main_get (store : C.Store) (blockNumber : Int) (key : Bytes) :
    main C store (Call.get blockNumber key).command =
      some (store, Base64.encode ((C.get store (storeKey blockNumber key)).getD [123]) ++
        [newline]) := by
  have hcommand : (Call.get blockNumber key).command =
      (utf8 "get" ++ space :: Base64.encode (storeKey blockNumber key)) ++ [newline] := by
    have hword : utf8 "get " = utf8 "get" ++ [space] := by decide
    simp only [Call.command, hword, List.append_assoc, List.cons_append, List.nil_append]
  have hmem : ∀ c, c ∉ utf8 "get" → c ≠ space → (∀ bytes, c ∉ Base64.encode bytes) →
      c ∉ utf8 "get" ++ space :: Base64.encode (storeKey blockNumber key) := by
    intro c hget hspace hencode
    simp only [List.mem_append, List.mem_cons, not_or]
    exact ⟨hget, hspace, hencode _⟩
  rw [hcommand]
  refine main_line (hmem _ (by decide) (by decide) newline_notMem_encode)
    (hmem _ (by decide) (by decide) carriageReturn_notMem_encode) ?_
  rw [mainLine, splitOn_word (by decide), List.splitOn_eq_singleton (space_notMem_encode _)]
  dsimp only
  rw [if_pos rfl, C.decode_encode, Option.map_some, get]
  cases C.get store (storeKey blockNumber key) with
  | none => rfl
  | some value => rfl

/-! ## Keys and histories -/

theorem storeKey_eq_iff {n n' : Int} {key key' : Bytes} :
    storeKey n key = storeKey n' key' ↔ n % 2 ^ 64 = n' % 2 ^ 64 ∧ key = key' := by
  constructor
  · intro h
    obtain ⟨hnumber, hkey⟩ := List.append_inj h (by simp)
    have hlow : ∀ n : Int, (n % 2 ^ 64).toNat < 256 ^ 8 := fun n => by omega
    have hmod := leBytes_inj (hlow n) (hlow n') hnumber
    exact ⟨by omega, hkey⟩
  · rintro ⟨hnumber, hkey⟩
    rw [storeKey, storeKey, hnumber, hkey]

/-- The database holds, for each of its keys, what was put last. -/
def Agrees (store : C.Store) (history : List Put) : Prop :=
  ∀ n key, C.get store (storeKey n key) = latestLow history n key

theorem agrees_empty : Agrees C.empty [] := fun _ _ => C.get_empty _

theorem Agrees.put {store : C.Store} {history : List Put} (h : Agrees store history)
    (n : Int) (key value : Bytes) :
    Agrees (C.put store (storeKey n key) value) (⟨n, key, value⟩ :: history) := by
  intro n' key'
  rw [C.get_put]
  by_cases hsame : storeKey n' key' = storeKey n key
  · obtain ⟨hnumber, hkey⟩ := storeKey_eq_iff.mp hsame
    rw [if_pos hsame, latestLow, List.find?_cons_of_pos]
    · rfl
    · exact decide_eq_true ⟨hnumber.symm, hkey.symm⟩
  · rw [if_neg hsame, latestLow, List.find?_cons_of_neg]
    · exact h n' key'
    · rw [decide_eq_true_iff]
      exact fun heq => hsame (storeKey_eq_iff.mpr ⟨heq.1.symm, heq.2.symm⟩)

end Commands

/-! ## Steps -/

namespace Server

variable {C : Crates}

/-- The server between any two steps, as long as all went well. -/
structure Inv (s : Server C) : Prop where
  runs : s.phase ≠ .raised ∧ s.phase ≠ .panicked
  right : ∀ answer ∈ s.answers, answer.Right
  store : Agrees s.store s.history
  asked : ∀ n key, s.phase = .waits (.get n key) →
    ∃ value, latest s.history n key = some value ∧
      s.printed = Base64.encode value ++ [newline]
  getting : ∀ n key, s.phase = .waits (.get n key) → s.mailbox ≠ [] ∨ s.pipe ≠ []
  putting : ∀ n key value, s.phase = .waits (.put n key value) →
    s.printed = ok ∧ (ok ∈ s.mailbox ∨ ∃ before, s.pipe = before ++ ok)

/-- Between two calls. -/
theorem inv_of_loop {s : Server C} (hphase : s.phase = .loop)
    (right : ∀ answer ∈ s.answers, answer.Right) (store : Agrees s.store s.history) :
    s.Inv where
  runs := by
    rw [hphase]
    exact ⟨Phase.noConfusion, Phase.noConfusion⟩
  right := right
  store := store
  asked _ _ hwaits := Phase.noConfusion (hphase.symm.trans hwaits)
  getting _ _ hwaits := Phase.noConfusion (hphase.symm.trans hwaits)
  putting _ _ _ hwaits := Phase.noConfusion (hphase.symm.trans hwaits)

theorem inv_start : (start : Server C).Inv :=
  inv_of_loop rfl (List.forall_mem_nil _) agrees_empty

/-- A reply that has come on its own is found. -/
theorem receiveOk_of_mem {mailbox : List Bytes} (h : ok ∈ mailbox) :
    ∃ rest, receiveOk mailbox = some rest := by
  induction mailbox with
  | nil => exact nomatch h
  | cons message rest ih =>
      rw [receiveOk]
      by_cases hok : message = ok
      · exact ⟨rest, if_pos hok⟩
      · obtain ⟨others, hothers⟩ := ih ((List.mem_cons.mp h).resolve_left (Ne.symm hok))
        exact ⟨message :: others, by rw [if_neg hok, hothers]; rfl⟩

/-- What can be seen of a server between two steps. -/
theorem Inv.faithful {s : Server C} (h : s.Inv) : s.Faithful where
  runs := h.runs
  right := h.right
  returns call hphase hpipe := by
    cases call with
    | get n key =>
        obtain hmailbox | hne := h.getting n key hphase
        · obtain ⟨message, rest, hcons⟩ := List.exists_cons_of_ne_nil hmailbox
          rw [receive, hphase, hcons]
          exact Option.some_ne_none _
        · exact absurd hpipe hne
    | put n key value =>
        obtain ⟨_, hmem | ⟨before, hbefore⟩⟩ := h.putting n key value hphase
        · obtain ⟨rest, hrest⟩ := receiveOk_of_mem hmem
          rw [receive, hphase]
          dsimp only
          rw [hrest]
          exact Option.some_ne_none _
        · have hlength := congrArg List.length (hbefore.symm.trans hpipe)
          rw [List.length_append] at hlength
          exact absurd hlength (by simp [ok, utf8])

theorem inv_call {s : Server C} {call : Call} (h : s.Inv) (hsuits : s.Suits (.call call)) :
    (s.call call).Inv := by
  cases call with
  | get n key =>
      obtain ⟨value, hlatest, hlow⟩ := hsuits
      have hmain := main_get s.store n key
      rw [h.store n key, hlow, Option.getD_some] at hmain
      rw [Server.call, hmain]
      exact {
        runs := ⟨nofun, nofun⟩
        right := h.right
        store := h.store
        asked := by
          rintro n' key' heq
          cases heq
          exact ⟨value, hlatest, rfl⟩
        getting := fun _ _ _ => .inr (by simp)
        putting := nofun }
  | put n key value =>
      rw [Server.call, main_put]
      exact {
        runs := ⟨nofun, nofun⟩
        right := h.right
        store := h.store.put n key value
        asked := nofun
        getting := nofun
        putting := fun _ _ _ _ => ⟨rfl, .inr ⟨s.pipe, rfl⟩⟩ }

theorem inv_deliver {s : Server C} {length : Nat} (h : s.Inv)
    (hsuits : s.Suits (.deliver length)) :
    Inv { s with mailbox := s.mailbox ++ [s.pipe.take length],
                 pipe := s.pipe.drop length } where
  runs := h.runs
  right := h.right
  store := h.store
  asked := h.asked
  getting _ _ _ := .inl (by simp)
  putting n key value hphase := by
    obtain ⟨hprinted, hreply⟩ := h.putting n key value hphase
    refine ⟨hprinted, ?_⟩
    obtain hmem | ⟨before, hbefore⟩ := hreply
    · exact .inl (List.mem_append_left _ hmem)
    · have hcut := hsuits n key value hphase
      rw [hprinted] at hcut
      obtain hbeforehand | ⟨hlength, hwhole⟩ := hcut
      · rw [hbefore, List.length_append, Nat.add_le_add_iff_right] at hbeforehand
        refine .inr ⟨before.drop length, ?_⟩
        show s.pipe.drop length = _
        rw [hbefore, List.drop_append_of_le_length hbeforehand]
      · refine .inl (List.mem_append_right _ (List.mem_singleton.mpr ?_))
        rw [hwhole, hlength, List.take_length]

theorem inv_receive {s s' : Server C} (h : s.Inv) (hsuits : s.Suits .receive)
    (hstep : s.receive = some s') : s'.Inv := by
  rw [receive] at hstep
  cases hphase : s.phase with
  | loop => simp [hphase] at hstep
  | raised => simp [hphase] at hstep
  | panicked => simp [hphase] at hstep
  | waits call =>
      cases call with
      | put n key value =>
          rw [hphase] at hstep
          dsimp only at hstep
          obtain ⟨_, _, rfl⟩ := Option.map_eq_some_iff.mp hstep
          exact inv_of_loop rfl h.right h.store
      | get n key =>
          obtain ⟨message, rest, hmailbox, htext⟩ := hsuits n key hphase
          obtain ⟨value, hlatest, hprinted⟩ := h.asked n key hphase
          have hdecode : decode64 message = some value := by
            rw [decode64, htext, hprinted]
            exact decode64_line value
          have hright : Answer.Right ⟨s.history, n, key, value⟩ := by
            rw [Answer.Right, hlatest]
          rw [hphase, hmailbox] at hstep
          cases hstep
          rw [answer, hdecode]
          exact inv_of_loop rfl (List.forall_mem_cons.mpr ⟨hright, h.right⟩) h.store

theorem inv_step {s s' : Server C} {action : Action} (h : s.Inv) (hsuits : s.Suits action)
    (hstep : s.step action = some s') : s'.Inv := by
  cases action with
  | call call =>
      obtain ⟨_, heq⟩ := Option.ite_none_right_eq_some.mp hstep
      cases heq
      exact inv_call h hsuits
  | deliver length =>
      obtain ⟨_, heq⟩ := Option.ite_none_right_eq_some.mp hstep
      cases heq
      exact inv_deliver h hsuits
  | handleInfo =>
      obtain ⟨hloop, heq⟩ := Option.ite_none_right_eq_some.mp hstep
      cases heq
      exact inv_of_loop hloop.1 h.right h.store
  | receive => exact inv_receive h hsuits hstep

end Server

/--
**A run stays faithful as long as replies come whole**: every `get` asks for a
pair that was put and that no later put with the same low bits of the block
number has covered, and takes what the native program has printed for it; and
the reply to a `put` comes as a message of its own.
-/
theorem faithful_of_run (C : Crates) (actions : List Action) (s : Server C)
    (hmeets : Runs.Meets Server.step Server.Suits (Server.start : Server C) actions)
    (hrun : Runs.run Server.step Server.start actions = some s) : s.Faithful :=
  Server.Inv.faithful
    (Runs.invariant_of_run (fun _ _ _ => Server.inv_step) Server.inv_start hmeets hrun)

/-! ## Examples of runs -/

/-- A database that is a function, and the decoder of the same library. -/
def functionCrates : Crates where
  Store := Bytes → Option Bytes
  empty _ := none
  get store key := store key
  put store key value key' := if key' = key then some value else store key'
  decode := Base64.decode
  get_empty _ := rfl
  get_put _ _ _ _ := rfl
  decode_encode := Base64.decode_encode

/-- A value of six bytes, whose text comes in two messages. -/
theorem reply_in_two_messages :
    ¬ ∀ (C : Crates) (actions : List Action) (s : Server C),
      Runs.run Server.step Server.start actions = some s → s.Faithful := by
  intro hclaim
  have hrun : (Runs.run Server.step (Server.start : Server functionCrates)
      [.call (.put 1 [107] [1, 2, 3, 4, 5, 6]), .deliver 3, .receive, .call (.get 1 [107]),
        .deliver 4, .receive]).map Server.answers = some
      [⟨[⟨1, [107], [1, 2, 3, 4, 5, 6]⟩], 1, [107], [1, 2, 3]⟩] := by rfl
  obtain ⟨s, hs, hanswers⟩ := Option.map_eq_some_iff.mp hrun
  have hright := (hclaim functionCrates _ s hs).right _ (hanswers ▸ List.mem_singleton_self _)
  exact absurd (show ([1, 2, 3] : Bytes) = [1, 2, 3, 4, 5, 6] from hright) (by decide)

/-- A put, and a get whose text comes apart from its newline. -/
def putAndGet : List Action :=
  [.call (.put 1 [107] [1, 2, 3]), .deliver 3, .receive, .call (.get 1 [107]), .deliver 4,
    .receive]

theorem faithful_of_put_and_get :
    ∃ s : Server functionCrates, Runs.run Server.step Server.start putAndGet = some s ∧
      s.Faithful := by
  obtain ⟨s, hs⟩ : ∃ s : Server functionCrates,
      Runs.run Server.step Server.start putAndGet = some s := ⟨_, rfl⟩
  refine ⟨s, hs, faithful_of_run functionCrates putAndGet s ?_ hs⟩
  refine Runs.meets_cons trivial rfl ?_
  refine Runs.meets_cons (fun _ _ _ _ => .inr ⟨rfl, rfl⟩) rfl ?_
  refine Runs.meets_cons (fun _ _ h => nomatch h) rfl ?_
  refine Runs.meets_cons ⟨[1, 2, 3], rfl, rfl⟩ rfl ?_
  refine Runs.meets_cons (fun _ _ _ h => nomatch h) rfl ?_
  exact Runs.meets_cons (fun _ _ _ => ⟨_, _, rfl, by decide +kernel⟩) rfl trivial

end Ellipticoind.Ports.RocksDBPort
