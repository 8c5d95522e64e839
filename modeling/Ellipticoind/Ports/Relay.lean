import Ellipticoind.Ports.Broadcast
import Ellipticoind.Ports.Marshal
import Ellipticoind.Ports.Noise

/-!
# From one node to another

What a struct goes through when it is broadcast: `handle_cast` of `noise.ex`
writes a line to the port; the loop of `main` in `noise.go` reads the message
from it and sends it to the peers; a peer's handler prints what it has received;
and the peer's server hands it to its subscribers.

The stream to a peer marshals what it is given and unmarshals what it brings.
Messages go over streams of their own, so nothing is said about the order in
which a peer prints them; it is the order in which its subscribers get them.

## Main results

* `relay_eq` — what a peer prints when a struct is broadcast.
* `delivered` — every subscriber gets every message once, in the order printed.
-/

namespace Ellipticoind.Ports.Relay

open Ellipticoind.Verified
open Ellipticoind.Verified.Lines
open Ellipticoind.Verified.StateRun
open Ellipticoind.Ports.Protobuf
open Ellipticoind.Ports.Noise

/-! ## Functions of the sources -/

/-- What the two programs take from their libraries. -/
structure Library (Struct : Type) where
  moduleName : Struct → Bytes
  asBinary : Struct → Bytes
  /-- The encoding of a message of `ellipticoin.proto`, by its name. -/
  protobuf : Bytes → Bytes → Bytes
  /-- `Map.get(:bytes)` of a message that is decoded, by its name. -/
  protobufDecode : Bytes → Bytes → Option Bytes
  /-- `Cbor.decode!()` and `struct` of the model with the given name. -/
  restore : Bytes → Bytes → Option Struct
  /-- `base64.StdEncoding.DecodeString`, whatever its error. -/
  decodeString : Bytes → Bytes

section Source

variable {Struct : Type} (L : Library Struct)

/-- `Messages.decode`. -/
def decode (raw type : Bytes) : Option Struct :=
  (L.protobufDecode type raw).bind (L.restore type)

/-- `handle_cast({:broadcast, message}, …)`: the line for the port. -/
def castLine (struct : Struct) : Bytes :=
  Broadcast.type L.moduleName struct ++ space ::
    (Base64.encode (Broadcast.encode L.moduleName L.asBinary L.protobuf struct) ++ [newline])

/-- What the loop of `main` sends to a peer for a line: a type of message, and
what `Unmarshal` has made of it. -/
def mainLoop (line : Bytes) : Except Protobuf.Stop (Option (MessageType × Bytes)) :=
  match (trimSuffix line).splitOn space with
  | name :: encoded :: _ =>
      let bytes := L.decodeString encoded
      if name = utf8 "Block" then .ok (some (block, (unmarshal block [] bytes).1))
      else if name = utf8 "Transaction" then
        .ok (some (transaction, (unmarshal transaction [] bytes).1))
      else .ok none
  | _ => .error .panicked
where
  /-- `strings.TrimSuffix(string(line), "\n")`. -/
  trimSuffix (line : Bytes) : Bytes :=
    if line.getLast? = some newline then line.dropLast else line

/-- `stream.Recv()`: a message, or `nil` with the error that nobody looks at. -/
def recv (type : MessageType) (bytes : Bytes) : Option Bytes :=
  match unmarshal type [] bytes with
  | (message, none) => some message
  | (_, some _) => none

/-- The line for a message that is received. -/
def messageLine (type : MessageType) (bytes : Bytes) : Bytes :=
  utf8 "message:" ++ (utf8 type.name ++ space :: Base64.encode bytes)

/-- `PropagateBlock` and `PropagateTransaction`: what is printed. -/
def propagate (type : MessageType) (txt : Option Bytes) : Except Protobuf.Stop Bytes :=
  marshal type txt >>= fun bytes => .ok (messageLine type bytes ++ [newline])

/-- What a peer prints when a struct is broadcast. -/
def relay (struct : Struct) : Except Protobuf.Stop Bytes :=
  mainLoop L (castLine L struct) >>= fun
    | none => .ok []
    | some (type, message) =>
        marshal type (some message) >>= fun bytes => propagate type (recv type bytes)

end Source

/-! ## A line on its way -/

/-- What the libraries do, by their documentation: base 64 is read back, and
both sides have the encoding of `ellipticoin.proto`. -/
structure Library.Faithful {Struct : Type} (L : Library Struct) : Prop where
  base64 : ∀ bytes, L.decodeString (Base64.encode bytes) = bytes
  encodes : ∀ type ∈ [block, transaction], ∀ bytes : Bytes, bytes.length + 19 < 2 ^ 63 →
    L.protobuf (utf8 type.name) bytes = wire type bytes
  decodes : ∀ type ∈ [block, transaction], ∀ bytes : Bytes, bytes.length + 19 < 2 ^ 63 →
    L.protobufDecode (utf8 type.name) (wire type bytes) = some bytes

/-- A struct of one of the two models, with something to say. -/
structure Carried {Struct : Type} (L : Library Struct) (type : MessageType)
    (struct : Struct) : Prop where
  model : type ∈ [block, transaction]
  name : Broadcast.type L.moduleName struct = utf8 type.name
  pos : L.asBinary struct ≠ []
  small : (L.asBinary struct).length + 19 < 2 ^ 63

section Relay

variable {Struct : Type} {L : Library Struct}

theorem hasBytes_of_mem {type : MessageType} (h : type ∈ [block, transaction]) :
    type.hasBytes = true := by
  simp only [List.mem_cons, List.not_mem_nil, or_false] at h
  rcases h with rfl | rfl <;> rfl

theorem name_notMem {type : MessageType} (h : type ∈ [block, transaction]) :
    space ∉ utf8 type.name ∧ newline ∉ utf8 type.name := by
  simp only [List.mem_cons, List.not_mem_nil, or_false] at h
  rcases h with rfl | rfl <;> decide

/-- What is written is read back on the other side of a stream. -/
theorem unmarshal_wire_nil {type : MessageType} (h : type ∈ [block, transaction])
    {bytes : Bytes} (hsmall : bytes.length + 19 < 2 ^ 63) :
    unmarshal type [] (wire type bytes) = (bytes, none) := by
  rw [unmarshal_wire [] (hasBytes_of_mem h) hsmall]
  split
  · rename_i hnil
    rw [hnil]
  · rfl

/-- The loop of `main` reads the message from the line of the port. -/
theorem mainLoop_castLine (hL : L.Faithful) {type : MessageType} {struct : Struct}
    (h : Carried L type struct) :
    mainLoop L (castLine L struct) = .ok (some (type, L.asBinary struct)) := by
  have hmodel := h.model
  have hencode : Broadcast.encode L.moduleName L.asBinary L.protobuf struct =
      wire type (L.asBinary struct) := by
    rw [Broadcast.encode, h.name, hL.encodes type hmodel _ h.small]
  have htrim : mainLoop.trimSuffix (castLine L struct) =
      utf8 type.name ++ space :: Base64.encode (wire type (L.asBinary struct)) := by
    rw [castLine, h.name, hencode, mainLoop.trimSuffix, ← List.cons_append,
      ← List.append_assoc, List.getLast?_concat, if_pos rfl, List.dropLast_concat]
  have hread := unmarshal_wire_nil hmodel h.small
  rw [mainLoop, htrim, List.splitOn_append_cons_self_of_not_mem (name_notMem hmodel).1,
    List.splitOn_eq_singleton (space_notMem_encode _)]
  simp only [hL.base64]
  simp only [List.mem_cons, List.not_mem_nil, or_false] at hmodel
  rcases hmodel with rfl | rfl
  · rw [if_pos (show utf8 block.name = utf8 "Block" from rfl), hread]
  · rw [if_neg (by decide), if_pos (show utf8 transaction.name = utf8 "Transaction" from rfl),
      hread]

/-- **What a peer prints when a struct is broadcast.** -/
theorem relay_eq (hL : L.Faithful) {type : MessageType} {struct : Struct}
    (h : Carried L type struct) :
    relay L struct =
      .ok (messageLine type (wire type (L.asBinary struct)) ++ [newline]) := by
  refine except_bind_eq_ok.mpr ⟨_, mainLoop_castLine hL h, ?_⟩
  refine except_bind_eq_ok.mpr ⟨_, marshal_eq _ _, ?_⟩
  rw [recv, unmarshal_wire_nil h.model h.small]
  exact except_bind_eq_ok.mpr ⟨_, marshal_eq _ _, rfl⟩

/-! ## What a peer's subscribers get -/

/-- What the Go process prints: that it has started, what it logs, and the
messages it receives. -/
inductive Printed (Struct : Type) where
  | started
  | log (text : Bytes)
  | message (type : MessageType) (struct : Struct)

variable (L) in
/-- The line, without its newline. -/
def Printed.line : Printed Struct → Bytes
  | .started => utf8 "started"
  | .log text => utf8 "log:" ++ text
  | .message type struct => messageLine type (wire type (L.asBinary struct))

variable (L) in
/-- What is printed: for a struct, what has become of it on its way. -/
def Printed.output : Printed Struct → Bytes
  | .started => utf8 "started" ++ [newline]
  | .log text => utf8 "log:" ++ text ++ [newline]
  | .message _ struct =>
      match relay L struct with
      | .ok line => line
      | .error _ => []

/-- The structs of the messages. -/
def Printed.structs : Printed Struct → List Struct
  | .started => []
  | .log _ => []
  | .message _ struct => [struct]

variable (L) in
/-- A log does not end with a blank and is one line; a message is one that was
carried. -/
def Printed.Sound : Printed Struct → Prop
  | .started => True
  | .log text =>
      newline ∉ text ∧ ∀ c, text.getLast? = some c → whitespace c = false
  | .message type struct => Carried L type struct

theorem Printed.Sound.output (hL : L.Faithful) {printed : Printed Struct}
    (h : printed.Sound L) : printed.output L = printed.line L ++ [newline] := by
  cases printed with
  | started => rfl
  | log text => rfl
  | message type struct => rw [Printed.output, relay_eq hL h, Printed.line]

theorem whitespace_encode {bytes : Bytes} {c : UInt8} (h : c ∈ Base64.encode bytes) :
    whitespace c = false := by
  have hletters : ∀ c ∈ Base64.alphabet, whitespace c = false := by decide +kernel
  rcases Base64.mem_encode h with hletter | rfl
  · exact hletters c hletter
  · decide

theorem encode_ne_nil {bytes : Bytes} (h : bytes ≠ []) : Base64.encode bytes ≠ [] := by
  intro hnil
  have hdecode := Base64.decode_encode bytes
  rw [hnil] at hdecode
  exact h (Option.some.inj hdecode).symm

theorem wire_ne_nil {type : MessageType} {struct : Struct} (h : Carried L type struct) :
    wire type (L.asBinary struct) ≠ [] := by
  rw [wire, if_pos ⟨hasBytes_of_mem h.model, List.length_pos_iff.mpr h.pos⟩]
  exact List.cons_ne_nil _ _

/-- A line that begins with a letter. -/
theorem tidy_of_letter {c : UInt8} {rest : Bytes} (hc : whitespace c = false)
    (hnewline : newline ∉ rest) (hlast : ∀ c', rest.getLast? = some c' → whitespace c' = false) :
    Tidy newline whitespace (c :: rest) where
  sep_notMem hmem := by
    rcases List.mem_cons.mp hmem with rfl | hmem
    · cases hc
    · exact hnewline hmem
  first := ⟨c, rest, rfl, hc⟩
  last := by
    rcases List.eq_nil_or_concat rest with rfl | ⟨front, c', rfl⟩
    · exact ⟨[], c, rfl, hc⟩
    · rw [List.concat_eq_append] at hlast ⊢
      exact ⟨c :: front, c', rfl, hlast c' List.getLast?_concat⟩

theorem Printed.Sound.tidy {printed : Printed Struct} (h : printed.Sound L) :
    Tidy newline whitespace (printed.line L) := by
  cases printed with
  | started =>
      have hline : utf8 "started" = 115 :: utf8 "tarted" := by rfl
      have hlast : (utf8 "tarted").getLast? = some 100 := by rfl
      rw [Printed.line, hline]
      refine tidy_of_letter (by decide) (by decide) fun c hc => ?_
      cases hlast.symm.trans hc
      rfl
  | log text =>
      obtain ⟨hnewline, hlast⟩ := h
      have hline : utf8 "log:" ++ text = 108 :: (utf8 "og:" ++ text) := by rfl
      have hcolon : (utf8 "og:").getLast? = some 58 := by rfl
      rw [Printed.line, hline]
      refine tidy_of_letter (by decide) (fun hmem => ?_) fun c hc => ?_
      · rcases List.mem_append.mp hmem with hmem | hmem
        · exact absurd hmem (by decide)
        · exact hnewline hmem
      · by_cases htext : text = []
        · rw [htext, List.append_nil] at hc
          cases hcolon.symm.trans hc
          rfl
        · rw [List.getLast?_append_of_ne_nil _ htext] at hc
          exact hlast c hc
  | message type struct =>
      have hne := encode_ne_nil (wire_ne_nil h)
      have hline : messageLine type (wire type (L.asBinary struct)) = 109 :: (utf8 "essage:" ++
          (utf8 type.name ++ space :: Base64.encode (wire type (L.asBinary struct)))) := by rfl
      rw [Printed.line, hline]
      refine tidy_of_letter (by decide) (fun hmem => ?_) fun c hc => ?_
      · simp only [List.mem_append, List.mem_cons] at hmem
        rcases hmem with hmem | hmem | hmem | hmem
        · exact absurd hmem (by decide)
        · exact (name_notMem h.model).2 hmem
        · exact absurd hmem (by decide)
        · exact newline_notMem_encode _ hmem
      · rw [List.getLast?_append_of_ne_nil _ (by simp),
          List.getLast?_append_of_ne_nil _ (by simp), ← List.singleton_append,
          List.getLast?_append_of_ne_nil _ hne] at hc
        exact whitespace_encode (List.mem_of_getLast? hc)

/-- The message is decoded as what was carried. -/
theorem decode_wire (hL : L.Faithful) {type : MessageType} {struct restored : Struct}
    (h : Carried L type struct)
    (hrestore : L.restore (utf8 type.name) (L.asBinary struct) = some restored) :
    ((Base64.decode (Base64.encode (wire type (L.asBinary struct)))).bind fun message =>
      decode L message (utf8 type.name)) = some restored := by
  rw [Base64.decode_encode, Option.bind_some, decode, hL.decodes type h.model _ h.small,
    Option.bind_some, hrestore]

variable (L) in
/-- What the subscribers make of the structs. -/
def Restores (copy : Struct → Struct) : Printed Struct → Prop
  | .message type struct =>
      L.restore (utf8 type.name) (L.asBinary struct) = some (copy struct)
  | _ => True

/-- The copies of the structs, each for every subscriber. -/
def copies (copy : Struct → Struct) (subscribers : List Nat) (structs : List Struct) :
    List (Nat × Struct) :=
  structs.flatMap fun struct => subscribers.map (·, copy struct)

/-- One line that is handled. -/
theorem handleLine_printed (hL : L.Faithful) {copy : Struct → Struct}
    {printed : Printed Struct} (h : printed.Sound L) (hcopy : Restores L copy printed)
    {s : Server Struct} (hs : s.phase = .loop) :
    ∃ started, s.handleLine (decode L) (printed.line L) =
      { s with
        started := started
        sent := s.sent ++ copies copy s.subscribers printed.structs } := by
  have hcopies : s.sent ++ copies copy s.subscribers [] = s.sent := List.append_nil _
  rw [Server.handleLine, if_neg (by simp [hs]), Server.handlePortData]
  cases printed with
  | started =>
      refine ⟨true, ?_⟩
      rw [Printed.line, if_pos rfl, Printed.structs, hcopies]
  | log text =>
      refine ⟨s.started, ?_⟩
      rw [Printed.line, if_neg, if_neg, Printed.structs, hcopies]
      · rintro ⟨rest, hrest⟩
        cases (List.cons.inj hrest).1
      · intro heq
        cases (List.cons.inj heq).1
  | message type struct =>
      refine ⟨s.started, ?_⟩
      have hprefix : utf8 "message:" <+: messageLine type (wire type (L.asBinary struct)) :=
        List.prefix_append _ _
      have hdrop : (messageLine type (wire type (L.asBinary struct))).drop 8 =
          utf8 type.name ++ space :: Base64.encode (wire type (L.asBinary struct)) :=
        List.drop_left' rfl
      rw [Printed.line, if_neg, if_pos hprefix, hdrop,
        List.splitOn_append_cons_self_of_not_mem (name_notMem h.model).1,
        List.splitOn_eq_singleton (space_notMem_encode _)]
      · simp only [Server.deliver, decode_wire hL h hcopy, Printed.structs, copies,
          List.flatMap_singleton]
        split
        · rename_i hnone
          have hnil : s.subscribers.map (·, copy struct) = [] := by rw [hnone, List.map_nil]
          rw [hnil, List.append_nil]
        · rfl
      · intro heq
        cases (List.cons.inj heq).1

/-- All lines, in order. -/
theorem foldl_printed (hL : L.Faithful) {copy : Struct → Struct}
    {printed : List (Printed Struct)} (h : ∀ p ∈ printed, p.Sound L)
    (hcopy : ∀ p ∈ printed, Restores L copy p) {s : Server Struct} (hs : s.phase = .loop) :
    ∃ started, (printed.map (Printed.line L)).foldl (Server.handleLine (decode L)) s =
      { s with
        started := started
        sent := s.sent ++ copies copy s.subscribers (printed.flatMap Printed.structs) } := by
  induction printed generalizing s with
  | nil => exact ⟨s.started, by simp [copies]⟩
  | cons p rest ih =>
      obtain ⟨hp, hrest⟩ := List.forall_mem_cons.mp h
      obtain ⟨hcp, hcrest⟩ := List.forall_mem_cons.mp hcopy
      obtain ⟨started, hline⟩ := handleLine_printed hL hp hcp hs
      rw [List.map_cons, List.foldl_cons, hline]
      obtain ⟨started', hlines⟩ := ih hrest hcrest (s := { s with
        started := started
        sent := s.sent ++ copies copy s.subscribers p.structs }) hs
      refine ⟨started', hlines.trans ?_⟩
      simp only [copies, List.flatMap_cons, List.flatMap_append, List.append_assoc]

theorem stream_printed (hL : L.Faithful) {printed : List (Printed Struct)}
    (h : ∀ p ∈ printed, p.Sound L) :
    stream newline (printed.map (Printed.line L)) = printed.flatMap (Printed.output L) := by
  induction printed with
  | nil => rfl
  | cons p rest ih =>
      obtain ⟨hp, hrest⟩ := List.forall_mem_cons.mp h
      rw [List.map_cons, stream_cons, ih hrest, List.flatMap_cons, hp.output hL,
        List.append_assoc]
      rfl

/-- **Where the server gets whole lines, every subscriber gets every struct that
was broadcast, once and in the order in which they were printed.** -/
theorem delivered (hL : L.Faithful) {copy : Struct → Struct}
    {printed : List (Printed Struct)} (h : ∀ p ∈ printed, p.Sound L)
    (hcopy : ∀ p ∈ printed, Restores L copy p) {s : Server Struct} (hs : s.phase = .loop)
    {pieces : List Bytes} (hpieces : pieces.flatten = printed.flatMap (Printed.output L))
    (hloop : (batches [] pieces).2 = []) (hwhole : WholeLines pieces) :
    (s.run (decode L) pieces).phase = .loop ∧
      (s.run (decode L) pieces).sent =
        s.sent ++ copies copy s.subscribers (printed.flatMap Printed.structs) := by
  have htidy : ∀ line ∈ printed.map (Printed.line L), Tidy newline whitespace line := by
    intro line hline
    obtain ⟨p, hp, rfl⟩ := List.mem_map.mp hline
    exact (h p hp).tidy
  obtain ⟨started, hlines⟩ := foldl_printed hL h hcopy hs
  rw [← stream_printed hL h] at hpieces
  rw [run_lines htidy hpieces hloop hs hwhole, hlines]
  exact ⟨hs, rfl⟩

end Relay

/-! ## A small example -/

namespace OneBlock

/-- Blocks that are nothing but their bytes. -/
def library : Library Bytes where
  moduleName _ := utf8 "Elixir.Ellipticoind.Models.Block"
  asBinary := id
  protobuf _ bytes := wire block bytes
  protobufDecode _ raw := recv block raw
  restore _ bytes := some bytes
  decodeString text := (Base64.decode text).getD []

theorem wire_eq {type : MessageType} (h : type ∈ [block, transaction]) (bytes : Bytes) :
    wire type bytes = wire block bytes := by
  rw [wire, wire, hasBytes_of_mem h]
  rfl

theorem faithful_library : library.Faithful where
  base64 bytes := by
    show (Base64.decode (Base64.encode bytes)).getD [] = bytes
    rw [Base64.decode_encode]
    rfl
  encodes type h bytes _ := (wire_eq h bytes).symm
  decodes type h bytes hsmall := by
    show recv block (wire type bytes) = some bytes
    rw [wire_eq h, recv, unmarshal_wire_nil (by simp) hsmall]

theorem carried_library : Carried library block [1, 2] where
  model := by simp
  name := by decide +kernel
  pos := by decide
  small := by decide

/-- A peer starts, fails to reach another one, and receives a block. -/
def printed : List (Printed Bytes) := [.started, .log (utf8 "timeout"), .message block [1, 2]]

/-- The first piece ends before a newline. -/
def pieces : List Bytes :=
  [utf8 "started\nlog:timeout", utf8 "\nmessage:Block CgIBAg==\n"]

theorem sound_printed : ∀ p ∈ printed, p.Sound library := by
  intro p hp
  simp only [printed, List.mem_cons, List.not_mem_nil, or_false] at hp
  rcases hp with rfl | rfl | rfl
  · trivial
  · refine ⟨by decide, fun c hc => ?_⟩
    have hlast : (utf8 "timeout").getLast? = some 116 := by rfl
    cases hlast.symm.trans hc
    rfl
  · exact carried_library

theorem restores_printed : ∀ p ∈ printed, Restores library id p := by
  intro p hp
  simp only [printed, List.mem_cons, List.not_mem_nil, or_false] at hp
  rcases hp with rfl | rfl | rfl
  · trivial
  · trivial
  · rfl

theorem flatten_pieces : pieces.flatten = printed.flatMap (Printed.output library) := by
  decide +kernel

theorem wholeLines_pieces : WholeLines pieces := by
  have htidy : ∀ line ∈ printed.map (Printed.line library), Tidy newline whitespace line := by
    intro line hline
    obtain ⟨p, hp, rfl⟩ := List.mem_map.mp hline
    exact (sound_printed p hp).tidy
  have hpieces := flatten_pieces.trans (stream_printed faithful_library sound_printed).symm
  exact wholeLines_of_texts htidy hpieces (by decide +kernel) (by decide +kernel)

end OneBlock

theorem delivered_at_pieces :
    (({ Server.init with subscribers := [5, 4] } : Server Bytes).run
        (decode OneBlock.library) OneBlock.pieces).sent =
      [(5, [1, 2]), (4, [1, 2])] :=
  (delivered OneBlock.faithful_library OneBlock.sound_printed OneBlock.restores_printed rfl
    OneBlock.flatten_pieces (by decide +kernel) OneBlock.wholeLines_pieces).2

end Ellipticoind.Ports.Relay
