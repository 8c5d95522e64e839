import Ellipticoind.Ports.Broadcast

/-!
# Messages between nodes over libp2p

What a struct goes through when it is broadcast with this transport: `handle_cast` of
`libp2p.ex` writes a frame to the port; `sendMessages` of `libp2p.go` reads the message from it
and publishes it; the other nodes' `receiveMessages` write a frame with what they receive from
others; and `handle_port_data` of the server there hands the struct to its subscribers.

The Go process passes on the bytes as they are.  Nothing is said of what `GossipSub` does with
a message: it may be lost, come late or more than once.

## Main results

* `run_eq` — the server does with its frames what `handle_port_data` does with each of them.
* `gossiped` — every subscriber gets a struct for every message received, in that order.
-/

namespace Ellipticoind.Ports.Libp2p

open Ellipticoind.Verified
open Ellipticoind.Verified.Frames
open Ellipticoind.Ports.Broadcast (message type encode broadcast Reader)

/-- A blank. -/
def space : UInt8 := 32

/-! ## `receiveMessages` -/

/-- What the Go process comes to write for. -/
inductive Occasion where
  | started
  | log (text : Bytes)
  /-- `pubsub.Receive` has brought a message and its sender. -/
  | received (peer : Bytes) (msg : Bytes)

/-- What is handed to `writeMessage`, at the node with the given ID. -/
def Occasion.written (id : Bytes) : Occasion → List Bytes
  | .started => [utf8 "started"]
  | .log text => [utf8 "log:" ++ text]
  | .received peer msg => if peer = id then [] else [utf8 "message:" ++ msg]

/-- The messages of others. -/
def Occasion.foreign (id : Bytes) : Occasion → List Bytes
  | .received peer msg => if peer = id then [] else [msg]
  | _ => []

/-! ## `libp2p.ex` -/

/-- The state of the server, and what its subscribers were sent. -/
structure Subscribed (Struct : Type) where
  phase : Phase
  subscribers : List Nat
  started : Bool
  sent : List (Nat × Struct)

namespace Subscribed

variable {Struct : Type}

def init : Subscribed Struct where
  phase := .loop
  subscribers := []
  started := false
  sent := []

/-- `handle_call({:subscribe, pid}, …)`. -/
def subscribe (s : Subscribed Struct) (pid : Nat) : Subscribed Struct :=
  { s with subscribers := pid :: s.subscribers }

/- `Messages.decode`, at a message and its type: `none` where it raises. -/
variable (decode : Bytes → Bytes → Option Struct)

/-- `String.split(message, " ", parts: 2)`, if it comes to two parts. -/
def splitType (message : Bytes) : Option (Bytes × Bytes) :=
  match message.dropWhile (· ≠ space) with
  | [] => none
  | _ :: raw => some (message.takeWhile (· ≠ space), raw)

/-- The message is decoded for every subscriber. -/
def deliver (s : Subscribed Struct) (type raw : Bytes) : Subscribed Struct :=
  if s.subscribers = [] then s
  else
    match decode raw type with
    | some struct => { s with sent := s.sent ++ s.subscribers.map (·, struct) }
    | none => { s with phase := .stopped }

/-- `handle_port_data`. -/
def handlePortData (s : Subscribed Struct) (data : Bytes) : Subscribed Struct :=
  if data = utf8 "started" then { s with started := true }
  else if utf8 "message:" <+: data then
    match splitType (data.drop 8) with
    | some (type, raw) => s.deliver decode type raw
    | none => s
  else s

/-- One message of `Enum.reduce`; what raises ends the server. -/
def handleMessage (s : Subscribed Struct) (data : Bytes) : Subscribed Struct :=
  if s.phase = .stopped then s else s.handlePortData decode data

/-- The end of `split_messages`, and `Enum.reduce` over its messages. -/
def proceed (s : Subscribed Struct) : Split → Subscribed Struct
  | .done messages => messages.foldl (handleMessage decode) { s with phase := .loop }
  | .receive length full messages => { s with phase := .receiving length full messages }
  | .raised => { s with phase := .stopped }

/-- A message from the port: `handle_info`, or a round of `continue_receiving`. -/
def receive (s : Subscribed Struct) (data : Bytes) : Subscribed Struct :=
  match s.phase with
  | .loop => s.proceed decode (splitMessages data [])
  | .receiving length full messages =>
      if full.length + data.length = length then
        s.proceed decode (splitMessages (full ++ data) messages)
      else { s with phase := .receiving length (full ++ data) messages }
  | .stopped => s

def run (s : Subscribed Struct) (pieces : List Bytes) : Subscribed Struct :=
  pieces.foldl (receive decode) s

/-! ## The frames and what is done with them -/

/-- The server is in its loop, or it has stopped. -/
def AtRest (s : Subscribed Struct) : Prop := s.phase = .loop ∨ s.phase = .stopped

/-- The server waits where `split_messages` does, unless it has stopped. -/
def waiting (s : Subscribed Struct) (phase : Phase) : Subscribed Struct :=
  if s.phase = .stopped then s else { s with phase := phase }

variable {decode}

theorem waiting_stopped {s : Subscribed Struct} (h : s.phase = .stopped) (phase : Phase) :
    s.waiting phase = s := if_pos h

theorem waiting_loop {s : Subscribed Struct} (h : s.phase = .loop) (phase : Phase) :
    s.waiting phase = { s with phase := phase } :=
  if_neg (by rw [h]; exact nofun)

/-- At rest is where it waits in the loop. -/
theorem AtRest.waiting_loop {s : Subscribed Struct} (h : s.AtRest) : s.waiting .loop = s := by
  rcases h with h | h
  · rw [Subscribed.waiting_loop h, ← h]
  · exact waiting_stopped h _

theorem AtRest.handleMessage {s : Subscribed Struct} (h : s.AtRest) (data : Bytes) :
    (s.handleMessage decode data).AtRest := by
  unfold Subscribed.handleMessage handlePortData deliver
  split
  · exact h
  split
  · exact h
  split
  · split
    · split
      · exact h
      split
      · exact h
      · exact .inr rfl
    · exact h
  · exact h

theorem AtRest.foldl {s : Subscribed Struct} (h : s.AtRest) (messages : List Bytes) :
    (messages.foldl (Subscribed.handleMessage decode) s).AtRest := by
  induction messages generalizing s with
  | nil => exact h
  | cons data rest ih => exact ih (h.handleMessage data)

theorem foldl_stopped {s : Subscribed Struct} (h : s.phase = .stopped) (messages : List Bytes) :
    messages.foldl (handleMessage decode) s = s := by
  induction messages with
  | nil => rfl
  | cons data rest ih =>
      have hdata : s.handleMessage decode data = s := if_pos h
      rw [List.foldl_cons, hdata, ih]

/-- The server that only keeps its messages goes on as this one does. -/
theorem proceed_eq {s : Subscribed Struct} (hs : s.phase = .loop) (b : Server) (phase : Phase)
    (split : Split) :
    ∃ new, (b.proceed split).delivered = b.delivered ++ new ∧
      { s with phase := phase }.proceed decode split =
        (new.foldl (handleMessage decode) s).waiting (b.proceed split).phase := by
  cases split with
  | done messages =>
      refine ⟨messages, rfl, ?_⟩
      have hloop : { s with phase := .loop } = s := by rw [← hs]
      have hrest : s.AtRest := .inl hs
      show messages.foldl (handleMessage decode) { s with phase := .loop } = _
      rw [hloop]
      exact (hrest.foldl messages).waiting_loop.symm
  | receive length full messages =>
      exact ⟨[], (List.append_nil _).symm, (waiting_loop hs _).symm⟩
  | raised => exact ⟨[], (List.append_nil _).symm, (waiting_loop hs _).symm⟩

variable (decode) in
theorem receive_eq_of_loop {s : Subscribed Struct} (hs : s.phase = .loop) (b : Server)
    (piece : Bytes) :
    ∃ new, (b.receive piece).delivered = b.delivered ++ new ∧
      { s with phase := b.phase }.receive decode piece =
        (new.foldl (handleMessage decode) s).waiting (b.receive piece).phase := by
  unfold Subscribed.receive Server.receive
  cases hphase : b.phase with
  | loop => exact proceed_eq hs b _ _
  | stopped =>
      refine ⟨[], (List.append_nil _).symm, ?_⟩
      show { s with phase := .stopped } = s.waiting b.phase
      rw [hphase, waiting_loop hs]
  | receiving length full messages =>
      dsimp only
      split
      · exact proceed_eq hs b _ _
      · exact ⟨[], (List.append_nil _).symm, (waiting_loop hs _).symm⟩

variable (decode) in
theorem receive_eq {s : Subscribed Struct} (hs : s.AtRest) (b : Server) (piece : Bytes) :
    ∃ new, (b.receive piece).delivered = b.delivered ++ new ∧
      (s.waiting b.phase).receive decode piece =
        (new.foldl (handleMessage decode) s).waiting (b.receive piece).phase := by
  rcases hs with hs | hs
  · rw [waiting_loop hs]
    exact receive_eq_of_loop decode hs b piece
  · obtain ⟨new, hnew, -⟩ :=
      receive_eq_of_loop decode (s := { s with phase := .loop }) rfl b piece
    refine ⟨new, hnew, ?_⟩
    rw [foldl_stopped hs, waiting_stopped hs, waiting_stopped hs]
    unfold Subscribed.receive
    rw [hs]

/-- **The server does with its frames what `handle_port_data` does with each of them.** -/
theorem run_eq {s : Subscribed Struct} (hs : s.phase = .loop) (pieces : List Bytes) :
    s.run decode pieces =
      ((Server.start.run pieces).delivered.foldl (handleMessage decode) s).waiting
        (Server.start.run pieces).phase := by
  have hrest : s.AtRest := .inl hs
  induction pieces using List.reverseRecOn with
  | nil => exact hrest.waiting_loop.symm
  | append_singleton before piece ih =>
      obtain ⟨new, hnew, hreceive⟩ := receive_eq decode
        (hrest.foldl (Server.start.run before).delivered) (Server.start.run before) piece
      have hrun : s.run decode (before ++ [piece]) =
          (s.run decode before).receive decode piece := by
        rw [run, List.foldl_append]
        rfl
      rw [hrun, ih, hreceive, run_append_singleton, hnew, List.foldl_append]

/-! ## What `handle_port_data` makes of what is written -/

/-- The copies of the structs, each for every subscriber. -/
def copies (copy : Struct → Struct) (subscribers : List Nat) (structs : List Struct) :
    List (Nat × Struct) :=
  structs.flatMap fun struct => subscribers.map (·, copy struct)

theorem splitType_append {name : Bytes} (hname : space ∉ name) (raw : Bytes) :
    splitType (name ++ space :: raw) = some (name, raw) := by
  have hall : ∀ c ∈ name, decide (c ≠ space) = true := by
    intro c hc
    exact decide_eq_true fun heq => hname (heq ▸ hc)
  rw [splitType, List.dropWhile_append_of_pos hall, List.takeWhile_append_of_pos hall]
  simp

/-- The messages of others come to their copies; nothing else is sent on. -/
theorem foldl_written {M : Struct → Bytes} {copy : Struct → Struct} {id : Bytes}
    {occasion : Occasion} {Q : Struct → Prop}
    (hparts : ∀ struct, Q struct → ∃ type raw, splitType (M struct) = some (type, raw) ∧
      decode raw type = some (copy struct))
    (hforeign : ∀ msg ∈ occasion.foreign id, ∃ struct, Q struct ∧ M struct = msg)
    {s : Subscribed Struct} (hs : s.phase = .loop) :
    ∃ received started, (∀ struct ∈ received, Q struct) ∧
      occasion.foreign id = received.map M ∧
      (occasion.written id).foldl (handleMessage decode) s =
        { s with
          started := started
          sent := s.sent ++ copies copy s.subscribers received } := by
  have hsent : s.sent ++ copies copy s.subscribers [] = s.sent := List.append_nil _
  have hrunning (data : Bytes) :
      [data].foldl (handleMessage decode) s = s.handlePortData decode data :=
    if_neg (by rw [hs]; exact nofun)
  cases occasion with
  | started =>
      refine ⟨[], true, nofun, rfl, ?_⟩
      rw [Occasion.written, hrunning, handlePortData, if_pos rfl, hsent]
  | log text =>
      refine ⟨[], s.started, nofun, rfl, ?_⟩
      rw [Occasion.written, hrunning, handlePortData, if_neg, if_neg, hsent]
      · rintro ⟨rest, hrest⟩
        cases (List.cons.inj hrest).1
      · intro heq
        cases (List.cons.inj heq).1
  | received peer msg =>
      by_cases hself : peer = id
      · refine ⟨[], s.started, nofun, if_pos hself, ?_⟩
        rw [Occasion.written, if_pos hself, hsent]
        rfl
      · have hmsg : (Occasion.received peer msg).foreign id = [msg] := if_neg hself
        rw [hmsg] at hforeign ⊢
        obtain ⟨struct, hstruct, rfl⟩ := hforeign msg List.mem_cons_self
        obtain ⟨type, raw, hsplit, hdecode⟩ := hparts struct hstruct
        refine ⟨[struct], s.started, List.forall_mem_singleton.mpr hstruct, rfl, ?_⟩
        have hprefix : utf8 "message:" <+: utf8 "message:" ++ M struct :=
          List.prefix_append _ _
        have hdrop : (utf8 "message:" ++ M struct).drop 8 = M struct := List.drop_left' rfl
        rw [Occasion.written, if_neg hself, hrunning, handlePortData, if_neg, if_pos hprefix,
          hdrop, hsplit]
        · simp only [deliver, hdecode, copies, List.flatMap_singleton]
          split
          · rename_i hnone
            have hnil : s.subscribers.map (·, copy struct) = [] := by rw [hnone, List.map_nil]
            rw [hnil, List.append_nil]
          · rfl
        · intro heq
          cases (List.cons.inj heq).1

theorem foldl_flatMap_written {M : Struct → Bytes} {copy : Struct → Struct} {id : Bytes}
    {occasions : List Occasion} {Q : Struct → Prop}
    (hparts : ∀ struct, Q struct → ∃ type raw, splitType (M struct) = some (type, raw) ∧
      decode raw type = some (copy struct))
    (hforeign : ∀ msg ∈ occasions.flatMap (Occasion.foreign id), ∃ struct, Q struct ∧
      M struct = msg) {s : Subscribed Struct} (hs : s.phase = .loop) :
    ∃ received started, (∀ struct ∈ received, Q struct) ∧
      occasions.flatMap (Occasion.foreign id) = received.map M ∧
      (occasions.flatMap (Occasion.written id)).foldl (handleMessage decode) s =
        { s with
          started := started
          sent := s.sent ++ copies copy s.subscribers received } := by
  induction occasions generalizing s with
  | nil =>
      refine ⟨[], s.started, nofun, rfl, ?_⟩
      show s = { s with sent := s.sent ++ [] }
      rw [List.append_nil]
  | cons occasion rest ih =>
      rw [List.flatMap_cons] at hforeign
      obtain ⟨hfirst, hrest⟩ := List.forall_mem_append.mp hforeign
      obtain ⟨received, started, hmem, hmsgs, hfold⟩ := foldl_written hparts hfirst hs
      obtain ⟨received', started', hmem', hmsgs', hfold'⟩ := ih hrest (s := { s with
        started := started
        sent := s.sent ++ copies copy s.subscribers received }) hs
      refine ⟨received ++ received', started', List.forall_mem_append.mpr ⟨hmem, hmem'⟩, ?_, ?_⟩
      · rw [List.flatMap_cons, hmsgs, hmsgs', List.map_append]
      · rw [List.flatMap_cons, List.foldl_append, hfold, hfold']
        simp only [copies, List.flatMap_append, List.append_assoc]

end Subscribed

/-! ## From one node to another -/

section Gossiped

variable {Struct : Type} {moduleName asBinary : Struct → Bytes} {protobuf : Bytes → Bytes → Bytes}
  {decode : Bytes → Bytes → Option Struct} {copy : Struct → Struct}

/-- A frame of the stream has been handed over where the server is in its loop. -/
theorem all_delivered {messages pieces : List Bytes} (hmessages : ∀ m ∈ messages, m.length < 2 ^ 32)
    (hpieces : ∀ piece ∈ pieces, piece ≠ [])
    (hstream : pieces.flatten = messages.flatMap writeMessage)
    (hsuits : ∀ before piece after, pieces = before ++ piece :: after →
      Suits messages before.flatten.length piece) :
    (Server.start.run pieces).delivered = messages ∧
      (Server.start.run pieces).phase = .loop := by
  have hawaits := awaits_run hmessages hpieces hstream
    (fun before piece after hsplit _ => hsuits before piece after hsplit) pieces []
    (List.append_nil _).symm
  have hall : complete messages pieces.flatten.length = messages := by
    rw [hstream]
    exact arrived_stream header messages
  refine ⟨hawaits.delivered.trans hall, ?_⟩
  obtain ⟨tail, d, hsplit, -, ⟨-, hloop⟩ | ⟨m, rest, rfl, -⟩⟩ := hawaits.phase
  · exact hloop
  · rw [hall] at hsplit
    have hlength := congrArg List.length hsplit
    simp at hlength

/-- Frames that come one by one suit. -/
theorem suits_of_frames (messages : List Bytes) {before after : List Bytes} {piece : Bytes}
    (hsplit : messages.map writeMessage = before ++ piece :: after) :
    Suits messages before.flatten.length piece := by
  obtain ⟨old, rest, rfl, hold, hrest⟩ := List.map_eq_append_iff.mp hsplit
  obtain ⟨m, tail, rfl, hpiece, -⟩ := List.map_eq_cons_iff.mp hrest
  have hbefore : before.flatten = stream header old := by
    rw [← hold, stream, List.flatMap_def]
    rfl
  have hframe : stream header [m] = piece := by
    rw [← hpiece, stream_cons, stream_nil, List.append_nil]
    rfl
  have hnext : old ++ m :: tail = (old ++ [m]) ++ tail := by simp
  have hcomplete : complete (old ++ m :: tail) (before.flatten.length + piece.length) =
      old ++ [m] := by
    have hlength : before.flatten.length + piece.length =
        (stream header (old ++ [m])).length + 0 := by
      rw [hbefore, ← hframe, stream_append, List.length_append, Nat.add_zero]
    rw [hnext, hlength, complete, arrived_append, arrived_zero, List.append_nil]
  have hcompleted : complete (old ++ m :: tail) before.flatten.length = old := by
    rw [hbefore, ← Nat.add_zero (stream header old).length, complete, arrived_append,
      arrived_zero, List.append_nil]
  refine (suits_iff hcompleted hcomplete (d := 0) (by rw [hbefore, Nat.add_zero])).mpr
    ⟨fun hnil => absurd hnil (List.cons_ne_nil _ _), fun _ => ⟨?_, by simp, .inl rfl⟩⟩
  rw [hframe, Nat.zero_add]

/-- `Messages.decode` makes a struct of what `Messages.encode` has made of this one, and the
name of its module has no blank. -/
structure Carried (moduleName asBinary : Struct → Bytes) (protobuf : Bytes → Bytes → Bytes)
    (decode : Bytes → Bytes → Option Struct) (copy : Struct → Struct) (struct : Struct) :
    Prop where
  name : space ∉ type moduleName struct
  decodes : decode (encode moduleName asBinary protobuf struct) (type moduleName struct) =
    some (copy struct)

/-- The Go process of a node publishes what it reads: no header of its stream is cut. -/
structure Publishes (moduleName asBinary : Struct → Bytes) (protobuf : Bytes → Bytes → Bytes)
    (structs : List Struct) (out published : List Bytes) : Prop where
  stream : out.flatten = structs.flatMap (broadcast moduleName asBinary protobuf)
  headers : Runs.Meets Reader.next Reader.Suits (Reader.new out)
    (structs.map (message moduleName asBinary protobuf))
  reads : ∃ reader, (Reader.new out).readMessages structs.length = some (published, reader)

theorem Publishes.eq {structs : List Struct} {out published : List Bytes}
    (h : Publishes moduleName asBinary protobuf structs out published) :
    published = structs.map (message moduleName asBinary protobuf) := by
  obtain ⟨hstream, hheaders, reader, hreads⟩ := h
  rw [Broadcast.flatMap_broadcast] at hstream
  have hall := (Reader.readMessages_iff (r := .new out)
    (List.forall_mem_map.mpr fun struct _ =>
      Broadcast.message_ne_zero moduleName asBinary protobuf struct) hstream).mpr hheaders
  rw [List.length_map, hreads] at hall
  exact Option.some.inj hall

/-- **Where no header is cut on its way to the Go process of a sender, and no frame is cut or
held up on its way from that of a receiver, the receiver's subscribers get what was broadcast**:
a copy for every message received, in the order in which they were received, and the server is
ready for more.  Messages of several senders may be lost, repeated and late in between. -/
theorem gossiped {κ : Type} {structs : κ → List Struct} {out published : κ → List Bytes}
    (hcarried : ∀ k, ∀ struct ∈ structs k,
      Carried moduleName asBinary protobuf decode copy struct)
    (hsenders : ∀ k, Publishes moduleName asBinary protobuf (structs k) (out k) (published k))
    {id : Bytes} {occasions : List Occasion}
    (hreceived : ∀ msg ∈ occasions.flatMap (Occasion.foreign id), ∃ k, msg ∈ published k)
    (hsmall : ∀ data ∈ occasions.flatMap (Occasion.written id), data.length < 2 ^ 32)
    {pieces : List Bytes} (hpieces : ∀ piece ∈ pieces, piece ≠ [])
    (hstream : pieces.flatten = (occasions.flatMap (Occasion.written id)).flatMap writeMessage)
    (hsuits : ∀ before piece after, pieces = before ++ piece :: after →
      Suits (occasions.flatMap (Occasion.written id)) before.flatten.length piece)
    {s : Subscribed Struct} (hs : s.phase = .loop) :
    ∃ received, (∀ struct ∈ received, ∃ k, struct ∈ structs k) ∧
      occasions.flatMap (Occasion.foreign id) =
        received.map (message moduleName asBinary protobuf) ∧
      (s.run decode pieces).phase = .loop ∧
      (s.run decode pieces).sent =
        s.sent ++ Subscribed.copies copy s.subscribers received := by
  have hparts : ∀ struct, (∃ k, struct ∈ structs k) → ∃ type raw,
      Subscribed.splitType (message moduleName asBinary protobuf struct) = some (type, raw) ∧
        decode raw type = some (copy struct) := by
    rintro struct ⟨k, hstruct⟩
    have h := hcarried k struct hstruct
    exact ⟨_, _, Subscribed.splitType_append h.name _, h.decodes⟩
  have hforeign : ∀ msg ∈ occasions.flatMap (Occasion.foreign id),
      ∃ struct, (∃ k, struct ∈ structs k) ∧
        message moduleName asBinary protobuf struct = msg := by
    intro msg hmsg
    obtain ⟨k, hmem⟩ := hreceived msg hmsg
    rw [(hsenders k).eq] at hmem
    obtain ⟨struct, hstruct, heq⟩ := List.mem_map.mp hmem
    exact ⟨struct, ⟨k, hstruct⟩, heq⟩
  obtain ⟨hdelivered, hphase⟩ := all_delivered hsmall hpieces hstream hsuits
  obtain ⟨received, started, hmem, hmsgs, hfold⟩ :=
    Subscribed.foldl_flatMap_written hparts hforeign hs
  refine ⟨received, hmem, hmsgs, ?_⟩
  rw [Subscribed.run_eq hs, hdelivered, hphase, hfold, Subscribed.waiting_loop (by exact hs)]
  exact ⟨rfl, rfl⟩

end Gossiped

/-! ## A small example -/

namespace Overheard

/-- Blocks that are nothing but their bytes. -/
def blockName : Bytes → Bytes := fun _ => utf8 "Elixir.Ellipticoind.Models.Block"

def wrap (_ bytes : Bytes) : Bytes := 10 :: UInt8.ofNat bytes.length :: bytes

def content (raw _ : Bytes) : Option Bytes := some (raw.drop 2)

/-- A block for the Go process of its sender, cut behind its header. -/
def outPieces : List Bytes := [[0, 0, 0, 9], [66, 108, 111, 99, 107, 32, 10, 1, 160]]

/-- The peer starts, and receives this block, and one that it has published itself. -/
def occasions : List Occasion :=
  [ .started, .received [2] (message blockName id wrap [160])
  , .received [1] (message blockName id wrap [161]) ]

def frames : List Bytes := (occasions.flatMap (Occasion.written [1])).map writeMessage

theorem publishes_outPieces :
    Publishes blockName id wrap [[160]] outPieces [message blockName id wrap [160]] where
  stream := by decide +kernel
  headers := ⟨⟨by decide +kernel, by decide +kernel⟩, fun _ _ => trivial⟩
  reads := ⟨⟨[], [[]]⟩, by rfl⟩

end Overheard

open Overheard in
/-- The block of the other node is handed to both subscribers. -/
theorem gossiped_at_frames :
    (({ Subscribed.init with subscribers := [5, 4] } : Subscribed Bytes).run content frames).sent =
      [(5, [160]), (4, [160])] := by
  have hcarried : ∀ _ : Unit, ∀ struct ∈ [[160]], Carried blockName id wrap content id struct :=
    fun _ => List.forall_mem_singleton.mpr ⟨by decide +kernel, rfl⟩
  have hreceived : ∀ msg ∈ occasions.flatMap (Occasion.foreign [1]),
      ∃ _ : Unit, msg ∈ [message blockName id wrap [160]] := fun _ hmsg => ⟨(), hmsg⟩
  have hpieces : ∀ piece ∈ frames, piece ≠ [] := by decide +kernel
  have hstream : frames.flatten =
      (occasions.flatMap (Occasion.written [1])).flatMap writeMessage := List.flatMap_def.symm
  obtain ⟨received, hmem, hforeign, -, hsent⟩ := gossiped hcarried
    (fun _ => publishes_outPieces) hreceived (by decide +kernel) hpieces hstream
    (fun _ _ _ hsplit => suits_of_frames _ hsplit)
    (s := { Subscribed.init with subscribers := [5, 4] }) rfl
  have hlength : received.length = 1 := by
    have hlengths := congrArg List.length hforeign
    rw [List.length_map] at hlengths
    exact hlengths.symm
  have hall : received = List.replicate 1 [160] :=
    List.eq_replicate_iff.mpr ⟨hlength, fun struct hstruct =>
      (hmem struct hstruct).elim fun _ h => List.mem_singleton.mp h⟩
  rw [hsent, hall]
  rfl

end Ellipticoind.Ports.Libp2p
