import Ellipticoind.Ports.Redis
import Ellipticoind.Verified.Frames

/-!
# Messages from the Go process

`writeMessage` of `libp2p.go`, and the receiving end in `libp2p.ex`.  The Go
process writes each message behind its length in four bytes, big-endian; the
port delivers the bytes in pieces that know nothing of messages.

The server takes one piece in its loop, splits it, and waits inside
`split_messages` for the rest of a message that is not complete.  The messages
it has split off by then wait with it, and what it gets must end with that
message exactly.

`Server.delivered` is what `handle_port_data` has been called with.

## Main results

* `splitMessages_spec` — what becomes of a piece that begins with a frame.
* `delivers_iff` — when the messages arrive complete, in order and in time.
-/

namespace Ellipticoind.Ports.Libp2p

open Ellipticoind.Verified.LittleEndian
open Ellipticoind.Verified.Frames

/-! ## Both ends -/

/-- `binary.BigEndian.PutUint32`. -/
def putUint32 (n : Nat) : Bytes := (leBytes 4 n).reverse

/-- `message_size::unsigned-32`. -/
def unsigned32 (bytes : Bytes) : Nat := leNat bytes.reverse

/-- `writeMessage`. -/
def writeMessage (bytes : Bytes) : Bytes := putUint32 bytes.length ++ bytes

/-- What `split_messages` comes to. -/
inductive Split where
  | done (messages : List Bytes)
  /-- It waits in `continue_receiving`. -/
  | receive (length : Nat) (full : Bytes) (messages : List Bytes)
  /-- No clause matches fewer than four bytes. -/
  | raised
  deriving DecidableEq

/-- `split_messages`, up to a wait. -/
def splitMessages (full : Bytes) (messages : List Bytes) : Split :=
  if full.length < 4 then .raised
  else
    let messageSize := unsigned32 (full.take 4)
    let messageData := full.drop 4
    if messageData.length = messageSize then .done (messageData :: messages)
    else if messageData.length < messageSize then
      .receive (messageSize + 4) full messages
    else
      splitMessages (messageData.drop messageSize)
        (messages ++ [messageData.take messageSize])
termination_by full.length
decreasing_by
  simp only [List.length_drop]
  omega

/-- Where the server is. -/
inductive Phase where
  /-- In the loop of the `GenServer`. -/
  | loop
  /-- In `continue_receiving`, called from `split_messages`. -/
  | receiving (length : Nat) (full : Bytes) (messages : List Bytes)
  | stopped
  deriving DecidableEq

structure Server where
  phase : Phase
  delivered : List Bytes

namespace Server

def start : Server where
  phase := .loop
  delivered := []

/-- The end of `split_messages`, and `Enum.reduce` over its messages. -/
def proceed (s : Server) : Split → Server
  | .done messages => { phase := .loop, delivered := s.delivered ++ messages }
  | .receive length full messages => { s with phase := .receiving length full messages }
  | .raised => { s with phase := .stopped }

/-- A message from the port: `handle_info`, or a round of
`continue_receiving`. -/
def receive (s : Server) (data : Bytes) : Server :=
  match s.phase with
  | .loop => s.proceed (splitMessages data [])
  | .receiving length full messages =>
      if full.length + data.length = length then
        s.proceed (splitMessages (full ++ data) messages)
      else { s with phase := .receiving length (full ++ data) messages }
  | .stopped => s

def run (s : Server) (pieces : List Bytes) : Server := pieces.foldl receive s

end Server

/-! ## What is promised -/

/-- The encoding of lengths in front of the messages. -/
def header : Header UInt8 where
  width := 4
  encode := putUint32
  decode := unsigned32
  bound := 2 ^ 32
  length_encode n := by simp [putUint32]
  decode_encode n h := by
    rw [unsigned32, putUint32, List.reverse_reverse, leNat_leBytes]
    exact Nat.mod_eq_of_lt h

/-- What the Go program writes is the stream of the messages' frames. -/
theorem flatMap_writeMessage (messages : List Bytes) :
    messages.flatMap writeMessage = stream header messages := rfl

/-- The messages whose frames are complete after some bytes. -/
abbrev complete (messages : List Bytes) (bytes : Nat) : List Bytes :=
  arrived header messages bytes

/-- Every message is handed over once and in order, and whenever the server
waits, it has handed over what is complete. -/
structure Delivers (messages pieces : List Bytes) : Prop where
  all : (Server.start.run pieces).delivered = messages
  prompt : ∀ before after, pieces = before ++ after →
    (Server.start.run before).phase ≠ .stopped ∧
      (Server.start.run before).delivered = complete messages before.flatten.length

/-- A piece after `received` bytes.  Either it completes no message, and then the
header of the one it ends in is there; or it ends where a message ends, and it
completes one message, or several equal ones if it began where a message
begins. -/
structure Suits (messages : List Bytes) (received : Nat) (piece : Bytes) : Prop where
  headed : complete messages (received + piece.length) = complete messages received →
    ((complete messages received).flatMap writeMessage).length + 4 ≤ received + piece.length
  whole : ∀ new, new ≠ [] →
    complete messages (received + piece.length) = complete messages received ++ new →
      ((complete messages (received + piece.length)).flatMap writeMessage).length =
          received + piece.length ∧
        (∀ a ∈ new, ∀ b ∈ new, a = b) ∧
        (((complete messages received).flatMap writeMessage).length = received ∨
          new.length = 1)

/-! ## Splitting -/

theorem splitMessages_of_short {full : Bytes} (messages : List Bytes)
    (h : full.length < 4) : splitMessages full messages = .raised := by
  rw [splitMessages, if_pos h]

/-- What becomes of some bytes that begin with a message's header. -/
theorem splitMessages_frame {m : Bytes} (hm : m.length < 2 ^ 32) {full data : Bytes}
    (messages : List Bytes) (hfull : full = putUint32 m.length ++ data) :
    splitMessages full messages =
      if data.length = m.length then .done (data :: messages)
      else if data.length < m.length then .receive (m.length + 4) full messages
      else splitMessages (data.drop m.length) (messages ++ [data.take m.length]) := by
  have hwidth : (putUint32 m.length).length = 4 := header.length_encode _
  have htake : full.take 4 = putUint32 m.length := by
    rw [hfull, ← hwidth, List.take_left]
  have hdrop : full.drop 4 = data := by
    rw [hfull, ← hwidth, List.drop_left]
  have hsize : unsigned32 (putUint32 m.length) = m.length := header.decode_encode _ hm
  rw [splitMessages, if_neg]
  · simp only [htake, hdrop, hsize]
  · rw [hfull, List.length_append, hwidth]
    omega

theorem four_le_frame (m : Bytes) : 4 ≤ (frame header m).length := by
  rw [length_frame]
  exact Nat.le_add_right 4 _

theorem arrived_zero (ms : List Bytes) : arrived header ms 0 = [] := by
  cases ms with
  | nil => rfl
  | cons m rest =>
      have hlength := four_le_frame m
      exact arrived_of_lt header (by omega)

/-- `split_messages` on a piece that completes the messages `new` and goes `d`
bytes into the first of `tail`. -/
inductive SplitSpec (acc new tail : List Bytes) (d : Nat) : Split → Prop where
  | whole (hne : new ≠ []) (hd : d = 0) :
      SplitSpec acc new tail d (.done (new.getLast hne :: (acc ++ new.dropLast)))
  | short (hpos : 0 < d) (hlt : d < 4) : SplitSpec acc new tail d .raised
  | inside (m : Bytes) (rest : List Bytes) (htail : tail = m :: rest) (hle : 4 ≤ d)
      (hlt : d < (frame header m).length) :
      SplitSpec acc new tail d
        (.receive (frame header m).length ((frame header m).take d) (acc ++ new))

/-- With a frame in front. -/
theorem SplitSpec.cons {acc new tail : List Bytes} {d : Nat} {m : Bytes} {split : Split}
    (h : SplitSpec (acc ++ [m]) new tail d split) : SplitSpec acc (m :: new) tail d split := by
  cases h with
  | whole hne hd =>
      have hwhole : SplitSpec acc (m :: new) tail d
          (.done ((m :: new).getLast (List.cons_ne_nil _ _) ::
            (acc ++ (m :: new).dropLast))) := .whole _ hd
      rw [List.getLast_cons hne, List.dropLast_cons_of_ne_nil hne] at hwhole
      rw [List.append_assoc]
      exact hwhole
  | short hpos hlt => exact .short hpos hlt
  | inside m' rest htail hle hlt =>
      rw [List.append_assoc]
      exact .inside m' rest htail hle hlt

/-- What becomes of a piece that begins with a frame. -/
theorem splitMessages_spec {rest : List Bytes} (hrest : ∀ m ∈ rest, m.length < 2 ^ 32)
    {piece after : Bytes} (hpiece : piece ≠ [])
    (h : stream header rest = piece ++ after) (acc : List Bytes) :
    ∃ new tail d, rest = new ++ tail ∧ piece.length = (stream header new).length + d ∧
      (∀ m t, tail = m :: t → d < (frame header m).length) ∧
        SplitSpec acc new tail d (splitMessages piece acc) := by
  induction rest generalizing piece acc with
  | nil => exact absurd (List.append_eq_nil_iff.mp h.symm).1 hpiece
  | cons m tail ih =>
      obtain ⟨hm, htail⟩ := List.forall_mem_cons.mp hrest
      have hlength : (frame header m).length = 4 + m.length := length_frame header m
      by_cases hle : (frame header m).length ≤ piece.length
      · obtain ⟨w, rfl, hstream⟩ := starts_with_frame header h hle
        have hsplit : splitMessages (frame header m ++ w) acc = _ :=
          splitMessages_frame hm acc (List.append_assoc _ m w)
        cases w with
        | nil =>
            rw [if_pos (by rw [List.append_nil])] at hsplit
            refine ⟨[m], tail, 0, rfl, ?_, fun m' _ _ => ?_, ?_⟩
            · rw [stream_cons]
              rfl
            · have hfour := four_le_frame m'
              omega
            · rw [hsplit, List.append_nil]
              have hwhole : SplitSpec acc [m] tail 0
                  (.done ([m].getLast (List.cons_ne_nil m []) :: (acc ++ [m].dropLast))) :=
                .whole _ rfl
              rwa [List.getLast_singleton, List.dropLast_singleton, List.append_nil] at hwhole
        | cons b w =>
            have hlonger : (m ++ b :: w).length = m.length + (w.length + 1) :=
              List.length_append
            rw [if_neg (by omega), if_neg (by omega), List.drop_left, List.take_left] at hsplit
            obtain ⟨new, tail', d, rfl, hlength', hnext, hspec⟩ :=
              ih htail (List.cons_ne_nil b w) hstream (acc ++ [m])
            refine ⟨m :: new, tail', d, rfl, ?_, hnext, ?_⟩
            · rw [List.length_append, hlength', stream_cons, List.length_append,
                Nat.add_assoc]
            · rw [hsplit]
              exact hspec.cons
      · have hlt := Nat.not_le.mp hle
        have hfirst := take_of_lt header h (Nat.le_of_lt hlt)
        have hpos := List.length_pos_iff.mpr hpiece
        refine ⟨[], m :: tail, piece.length, rfl, (Nat.zero_add _).symm, ?_, ?_⟩
        · rintro _ _ heq
          cases heq
          exact hlt
        · by_cases hshort : piece.length < 4
          · rw [splitMessages_of_short acc hshort]
            exact .short hpos hshort
          · have hdata : piece = putUint32 m.length ++ m.take (piece.length - 4) := by
              have hwidth : (putUint32 m.length).length = 4 := header.length_encode _
              conv_lhs => rw [hfirst]
              show (putUint32 m.length ++ m).take piece.length = _
              rw [List.take_append, hwidth, List.take_of_length_le (by omega)]
            have hsize : (m.take (piece.length - 4)).length = piece.length - 4 := by
              rw [List.length_take]
              omega
            have hsplit := splitMessages_frame hm acc hdata
            rw [if_neg (by omega), if_pos (by omega)] at hsplit
            have hinside : SplitSpec acc [] (m :: tail) piece.length
                (.receive (frame header m).length ((frame header m).take piece.length)
                  (acc ++ [])) := .inside m tail rfl (Nat.not_lt.mp hshort) hlt
            rw [← hfirst, List.append_nil, hlength, Nat.add_comm] at hinside
            rw [hsplit]
            exact hinside

/-! ## One piece -/

/-- The server after some bytes of the stream, as long as all went well: it has
handed over what is complete, and waits for the rest of the next message. -/
structure Awaits (messages : List Bytes) (received : Nat) (s : Server) : Prop where
  delivered : s.delivered = complete messages received
  phase : ∃ tail d, messages = complete messages received ++ tail ∧
    received = (stream header (complete messages received)).length + d ∧
      ((d = 0 ∧ s.phase = .loop) ∨ ∃ m rest, tail = m :: rest ∧ 4 ≤ d ∧
        d < (frame header m).length ∧
        s.phase = .receiving (frame header m).length ((frame header m).take d) [])

theorem awaits_start (messages : List Bytes) : Awaits messages 0 .start where
  delivered := (arrived_zero messages).symm
  phase := by
    refine ⟨messages, 0, ?_, ?_, .inl ⟨rfl, rfl⟩⟩
    · rw [complete, arrived_zero]
      rfl
    · rw [complete, arrived_zero]
      rfl

/-- `Suits`, where the messages complete before and after the piece are known. -/
theorem suits_iff {messages old new : List Bytes} {d received : Nat} {piece : Bytes}
    (hold : complete messages received = old)
    (hnew : complete messages (received + piece.length) = old ++ new)
    (hreceived : received = (stream header old).length + d) :
    Suits messages received piece ↔
      (new = [] → 4 ≤ d + piece.length) ∧
        (new ≠ [] → (stream header new).length = d + piece.length ∧
          (∀ a ∈ new, ∀ b ∈ new, a = b) ∧ (d = 0 ∨ new.length = 1)) := by
  constructor
  · rintro ⟨hheaded, hwhole⟩
    rw [hold, hnew, flatMap_writeMessage] at hheaded
    refine ⟨fun hempty => ?_, fun hne => ?_⟩
    · have hlength := hheaded (by rw [hempty, List.append_nil])
      omega
    · obtain ⟨hlength, hequal, hone⟩ := hwhole new hne (by rw [hnew, hold])
      rw [hnew, flatMap_writeMessage, stream_append, List.length_append] at hlength
      rw [hold, flatMap_writeMessage] at hone
      exact ⟨by omega, hequal, hone.imp (by omega) id⟩
  · rintro ⟨hheaded, hwhole⟩
    refine ⟨fun hsame => ?_, fun new' hne hnew' => ?_⟩
    · rw [hnew, hold] at hsame
      have hfour := hheaded (List.append_cancel_left (hsame.trans (List.append_nil _).symm))
      rw [hold, flatMap_writeMessage]
      omega
    · rw [hnew, hold] at hnew'
      cases List.append_cancel_left hnew'
      obtain ⟨hlength, hequal, hone⟩ := hwhole hne
      rw [hnew, hold, flatMap_writeMessage, flatMap_writeMessage, stream_append,
        List.length_append]
      exact ⟨by omega, hequal, hone.imp (by omega) id⟩

/-- The stream, as seen from the message that is being received. -/
theorem stream_tail {old tail : List Bytes} {before after : Bytes} {d : Nat}
    (h : stream header (old ++ tail) = before ++ after)
    (hlength : before.length = (stream header old).length + d) :
    ∃ x, x.length = d ∧ stream header tail = x ++ after := by
  rw [stream_append] at h
  obtain ⟨x, hx, hrest⟩ | ⟨x, hx, hrest⟩ := List.append_eq_append_iff.mp h
  · refine ⟨x, ?_, hrest⟩
    have hlength' := congrArg List.length hx
    rw [List.length_append] at hlength'
    omega
  · have hlength' := congrArg List.length hx
    rw [List.length_append] at hlength'
    have hnil : x = [] := List.length_eq_zero_iff.mp (by omega)
    subst hnil
    exact ⟨[], by rw [List.length_nil] at hlength' ⊢; omega, hrest.symm⟩

/-- A piece that arrives in the loop. -/
theorem receive_in_loop {tail : List Bytes} (htail : ∀ m ∈ tail, m.length < 2 ^ 32)
    {s : Server} (hphase : s.phase = .loop) {piece after : Bytes} (hpiece : piece ≠ [])
    (h : stream header tail = piece ++ after) :
    ∃ new rest d, tail = new ++ rest ∧ piece.length = (stream header new).length + d ∧
      (∀ m t, rest = m :: t → d < (frame header m).length) ∧
      ((new ≠ [] ∧ d = 0 ∧ (s.receive piece).phase = .loop ∧
          ((s.receive piece).delivered = s.delivered ++ new ↔
            ∀ a ∈ new, ∀ b ∈ new, a = b)) ∨
        (0 < d ∧ d < 4 ∧ (s.receive piece).phase = .stopped) ∨
        ∃ m t, rest = m :: t ∧ 4 ≤ d ∧ d < (frame header m).length ∧
          (s.receive piece).phase =
            .receiving (frame header m).length ((frame header m).take d) new ∧
          (s.receive piece).delivered = s.delivered) := by
  have hreceive : s.receive piece = s.proceed (splitMessages piece []) := by
    rw [Server.receive, hphase]
  obtain ⟨new, rest, d, hsplit, hlength, hnext, hspec⟩ :=
    splitMessages_spec htail hpiece h []
  refine ⟨new, rest, d, hsplit, hlength, hnext, ?_⟩
  rw [hreceive]
  generalize splitMessages piece [] = split at hspec
  cases hspec with
  | whole hne hd =>
      refine .inl ⟨hne, hd, rfl, ?_⟩
      show s.delivered ++ _ = s.delivered ++ new ↔ _
      rw [List.append_right_inj, List.nil_append]
      exact getLast_cons_dropLast_iff hne
  | short hpos hlt => exact .inr (.inl ⟨hpos, hlt, rfl⟩)
  | inside m t hrest hle hlt => exact .inr (.inr ⟨m, t, hrest, hle, hlt, rfl, rfl⟩)

/-- What is complete after a piece, from what it completes of the rest. -/
theorem complete_of_split {old tail new rest : List Bytes} {received d e k : Nat}
    (hreceived : received = (stream header old).length + d) (htail : tail = new ++ rest)
    (hlength : d + k = (stream header new).length + e)
    (hnext : ∀ m t, rest = m :: t → e < (frame header m).length) :
    complete (old ++ tail) (received + k) = old ++ new := by
  rw [htail, ← List.append_assoc, hreceived, Nat.add_assoc, hlength, ← Nat.add_assoc,
    ← List.length_append, ← stream_append]
  exact arrived_eq header hnext

/-- A piece keeps up the waiting exactly where it suits: if it does, the server
awaits the next one, and what it hands over is what is complete only if it
does. -/
def Decides (messages : List Bytes) (received : Nat) (s : Server) (piece : Bytes) : Prop :=
  (Suits messages received piece →
      Awaits messages (received + piece.length) (s.receive piece)) ∧
    ((s.receive piece).phase ≠ .stopped →
      (s.receive piece).delivered = complete messages (received + piece.length) →
        Suits messages received piece)

section Receive

variable {old : List Bytes} {received d : Nat} {s : Server} {piece after : Bytes}

/-- The piece begins a message. -/
theorem decides_in_loop {tail : List Bytes} (htail : ∀ m ∈ tail, m.length < 2 ^ 32)
    (hold : complete (old ++ tail) received = old) (hdelivered : s.delivered = old)
    (hreceived : received = (stream header old).length) (hloop : s.phase = .loop)
    (hpiece : piece ≠ []) (hstream : stream header tail = piece ++ after) :
    Decides (old ++ tail) received s piece := by
  obtain ⟨new, rest, e, hnew, hlength, hnext, hcases⟩ :=
    receive_in_loop htail hloop hpiece hstream
  have hpos := List.length_pos_iff.mpr hpiece
  have hafter : complete (old ++ tail) (received + piece.length) = old ++ new :=
    complete_of_split (d := 0) hreceived hnew (by rw [Nat.zero_add, hlength]) hnext
  unfold Decides
  rw [suits_iff (d := 0) hold hafter hreceived, hafter, Nat.zero_add]
  rcases hcases with ⟨hne, rfl, hphase, hequal⟩ | ⟨hpos', hshort, hphase⟩ |
    ⟨m, t, rfl, hle, hlt, hphase, hkept⟩
  · constructor
    · rintro ⟨_, hwhole⟩
      obtain ⟨_, hall, _⟩ := hwhole hne
      refine ⟨?_, rest, 0, ?_, ?_, .inl ⟨rfl, hphase⟩⟩
      · rw [hafter, hequal.mpr hall, hdelivered]
      · rw [hafter, List.append_assoc, ← hnew]
      · rw [hafter, stream_append, List.length_append]
        omega
    · intro _ hsame
      rw [← hdelivered] at hsame
      exact ⟨fun hempty => absurd hempty hne, fun _ =>
        ⟨by omega, hequal.mp hsame, .inl rfl⟩⟩
  · constructor
    · rintro ⟨hheaded, hwhole⟩
      by_cases hempty : new = []
      · have hfour := hheaded hempty
        rw [hempty, stream_nil, List.length_nil] at hlength
        omega
      · have hlength' := (hwhole hempty).1
        omega
    · exact fun hrunning => absurd hphase hrunning
  · constructor
    · rintro ⟨_, hwhole⟩
      have hempty : new = [] := by
        by_contra hne
        have hlength' := (hwhole hne).1
        omega
      subst hempty
      refine ⟨?_, m :: t, e, ?_, ?_, .inr ⟨m, t, rfl, hle, hlt, hphase⟩⟩
      · rw [hafter, hkept, hdelivered, List.append_nil]
      · rw [hafter, List.append_nil, hnew]
        rfl
      · rw [hafter, List.append_nil, hreceived, hlength, stream_nil, List.length_nil]
        omega
    · intro _ hsame
      rw [hkept, hdelivered] at hsame
      have hempty : new = [] :=
        List.append_cancel_left (hsame.symm.trans (List.append_nil _).symm)
      exact ⟨fun _ => by omega, fun hne => absurd hempty hne⟩

variable {m : Bytes} {rest : List Bytes}

/-- The piece ends the message it goes on with. -/
theorem decides_at_end (hm : m.length < 2 ^ 32)
    (hold : complete (old ++ m :: rest) received = old) (hdelivered : s.delivered = old)
    (hreceived : received = (stream header old).length + d)
    (hwaits : s.phase = .receiving (frame header m).length ((frame header m).take d) [])
    (hjoin : (frame header m).take d ++ piece = frame header m)
    (hends : d + piece.length = (frame header m).length) :
    Decides (old ++ m :: rest) received s piece := by
  have hsingle : (stream header [m]).length = d + piece.length := by
    rw [hends, stream_cons, stream_nil, List.append_nil]
  have hafter : complete (old ++ m :: rest) (received + piece.length) = old ++ [m] :=
    complete_of_split (e := 0) hreceived (List.singleton_append).symm hsingle.symm
      fun m' _ _ => Nat.lt_of_lt_of_le (by decide) (four_le_frame m')
  have hdone : splitMessages (frame header m) [] = .done [m] := by
    have hsplit : splitMessages (frame header m) [] = _ := splitMessages_frame hm [] rfl
    rw [hsplit, if_pos rfl]
  have hlength : ((frame header m).take d).length + piece.length = (frame header m).length := by
    rw [← List.length_append, hjoin]
  have hreceive : s.receive piece = s.proceed (.done [m]) := by
    rw [Server.receive, hwaits]
    dsimp only
    rw [if_pos hlength, hjoin, hdone]
  unfold Decides
  rw [suits_iff hold hafter hreceived, hreceive]
  constructor
  · refine fun _ => ⟨?_, rest, 0, ?_, ?_, .inl ⟨rfl, rfl⟩⟩
    · rw [hafter]
      exact congrArg (· ++ [m]) hdelivered
    · rw [hafter, List.append_assoc]
      rfl
    · rw [hafter, stream_append, List.length_append]
      omega
  · exact fun _ _ => ⟨fun hempty => (nomatch hempty), fun _ =>
      ⟨hsingle, by simp, .inr rfl⟩⟩

/-- What the server does with a piece that does not end the message. -/
theorem receive_on (hd : d ≤ (frame header m).length)
    (hwaits : s.phase = .receiving (frame header m).length ((frame header m).take d) [])
    (hends : d + piece.length ≠ (frame header m).length) :
    s.receive piece =
      ⟨.receiving (frame header m).length ((frame header m).take d ++ piece) [],
        s.delivered⟩ := by
  rw [Server.receive, hwaits]
  dsimp only
  rw [if_neg]
  rwa [List.length_take, Nat.min_eq_left hd]

/-- The piece stays within the message. -/
theorem decides_within (hfour : 4 ≤ d) (hlt : d < (frame header m).length)
    (hold : complete (old ++ m :: rest) received = old) (hdelivered : s.delivered = old)
    (hreceived : received = (stream header old).length + d)
    (hwaits : s.phase = .receiving (frame header m).length ((frame header m).take d) [])
    (hjoin : (frame header m).take d ++ piece = (frame header m).take (d + piece.length))
    (hwithin : d + piece.length < (frame header m).length) :
    Decides (old ++ m :: rest) received s piece := by
  have hafter : complete (old ++ m :: rest) (received + piece.length) = old ++ [] :=
    complete_of_split hreceived rfl (Nat.zero_add _).symm fun m' t h => by
      rwa [← (List.cons.inj h).1]
  unfold Decides
  rw [suits_iff hold hafter hreceived,
    receive_on (Nat.le_of_lt hlt) hwaits (Nat.ne_of_lt hwithin), hjoin]
  constructor
  · refine fun _ => ⟨?_, m :: rest, d + piece.length, ?_, ?_,
      .inr ⟨m, rest, rfl, by omega, hwithin, rfl⟩⟩
    · rw [hafter, List.append_nil]
      exact hdelivered
    · rw [hafter, List.append_nil]
    · rw [hafter, List.append_nil, hreceived, Nat.add_assoc]
  · exact fun _ _ => ⟨fun _ => by omega, fun hne => absurd rfl hne⟩

/-- The piece goes beyond the message, which `continue_receiving` never
notices. -/
theorem decides_beyond (hlt : d < (frame header m).length) (hfour : 4 ≤ d)
    (hold : complete (old ++ m :: rest) received = old) (hdelivered : s.delivered = old)
    (hreceived : received = (stream header old).length + d)
    (hwaits : s.phase = .receiving (frame header m).length ((frame header m).take d) [])
    (hbeyond : (frame header m).length < d + piece.length) :
    Decides (old ++ m :: rest) received s piece := by
  obtain ⟨rest', e, hnew, hlength, hnext⟩ :=
    arrived_split header (m :: rest) (d + piece.length)
  generalize arrived header (m :: rest) (d + piece.length) = new at hnew hlength
  have hafter : complete (old ++ m :: rest) (received + piece.length) = old ++ new :=
    complete_of_split hreceived hnew hlength hnext
  have hne : new ≠ [] := by
    rintro rfl
    have hlt' := hnext m rest hnew.symm
    rw [stream_nil, List.length_nil] at hlength
    omega
  unfold Decides
  rw [suits_iff hold hafter hreceived,
    receive_on (Nat.le_of_lt hlt) hwaits (Nat.ne_of_gt hbeyond), hafter]
  constructor
  · rintro ⟨_, hwhole⟩
    obtain ⟨hcount, _, hone⟩ := hwhole hne
    obtain ⟨m', hm'⟩ := List.length_eq_one_iff.mp (hone.resolve_left (by omega))
    subst hm'
    cases (List.cons.inj hnew).1
    rw [stream_cons, stream_nil, List.append_nil] at hcount
    omega
  · intro _ hsame
    rw [show (Server.mk _ s.delivered).delivered = s.delivered from rfl, hdelivered] at hsame
    exact absurd (List.append_cancel_left (hsame.symm.trans (List.append_nil _).symm)) hne

end Receive

/-- What one piece of the stream decides. -/
theorem awaits_receive {messages : List Bytes} (hmessages : ∀ m ∈ messages, m.length < 2 ^ 32)
    {received : Nat} {s : Server} (hs : Awaits messages received s)
    {before piece after : Bytes} (hpiece : piece ≠ [])
    (hstream : stream header messages = before ++ (piece ++ after))
    (hbefore : before.length = received) : Decides messages received s piece := by
  obtain ⟨hdelivered, tail, d, hsplit, hreceived, hphase⟩ := hs
  generalize hold : complete messages received = old at hdelivered hsplit hreceived
  subst hsplit
  obtain ⟨x, hx, htail⟩ := stream_tail hstream (hbefore.trans hreceived)
  have hmem : ∀ m ∈ tail, m.length < 2 ^ 32 := fun m hm =>
    hmessages m (List.mem_append_right _ hm)
  rcases hphase with ⟨rfl, hloop⟩ | ⟨m, rest, rfl, hfour, hlt, hwaits⟩
  · rw [List.length_eq_zero_iff.mp hx, List.nil_append] at htail
    exact decides_in_loop hmem hold hdelivered hreceived hloop hpiece htail
  · have hbegin : x = (frame header m).take d := by
      have hbegin := take_of_lt header htail (by omega)
      rwa [hx] at hbegin
    have hjoin : d + piece.length ≤ (frame header m).length →
        (frame header m).take d ++ piece = (frame header m).take (d + piece.length) := by
      intro hle
      have hlength : (x ++ piece).length = d + piece.length := by
        rw [List.length_append, hx]
      rw [← List.append_assoc] at htail
      have hpart := take_of_lt header htail (by omega)
      rwa [hlength, hbegin] at hpart
    rcases Nat.lt_trichotomy (d + piece.length) (frame header m).length with
      hwithin | hends | hbeyond
    · exact decides_within hfour hlt hold hdelivered hreceived hwaits
        (hjoin (Nat.le_of_lt hwithin)) hwithin
    · have hwhole := hjoin (Nat.le_of_eq hends)
      rw [hends, List.take_length] at hwhole
      exact decides_at_end (hmem m List.mem_cons_self) hold hdelivered hreceived hwaits
        hwhole hends
    · exact decides_beyond hlt hfour hold hdelivered hreceived hwaits hbeyond

/-! ## All pieces -/

theorem run_append_singleton (s : Server) (before : List Bytes) (piece : Bytes) :
    s.run (before ++ [piece]) = (s.run before).receive piece := by
  rw [Server.run, List.foldl_append]
  rfl

section Stream

variable {messages pieces : List Bytes} (hmessages : ∀ m ∈ messages, m.length < 2 ^ 32)
  (hpieces : ∀ piece ∈ pieces, piece ≠ [])
  (hstream : pieces.flatten = messages.flatMap writeMessage)

include hmessages hpieces hstream

theorem decides_of_awaits {before after : List Bytes} {piece : Bytes}
    (hsplit : pieces = before ++ piece :: after)
    (hs : Awaits messages before.flatten.length (Server.start.run before)) :
    Decides messages before.flatten.length (Server.start.run before) piece := by
  have hbytes : stream header messages = before.flatten ++ (piece ++ after.flatten) := by
    rw [← flatMap_writeMessage, ← hstream, hsplit, List.flatten_append, List.flatten_cons]
  exact awaits_receive hmessages hs (hpieces piece (by simp [hsplit])) hbytes rfl

/-- If each piece suits that the server awaits, it awaits all of them. -/
theorem awaits_run
    (hsuits : ∀ before piece after, pieces = before ++ piece :: after →
      Awaits messages before.flatten.length (Server.start.run before) →
        Suits messages before.flatten.length piece) (before after : List Bytes)
    (hsplit : pieces = before ++ after) :
    Awaits messages before.flatten.length (Server.start.run before) := by
  induction before using List.reverseRecOn generalizing after with
  | nil => exact awaits_start messages
  | append_singleton before piece ih =>
      have hcons : pieces = before ++ piece :: after := by
        rw [hsplit, List.append_assoc]
        rfl
      have hs := ih _ hcons
      have hnext := (decides_of_awaits hmessages hpieces hstream hcons hs).1
        (hsuits before piece after hcons hs)
      rw [run_append_singleton, List.flatten_append, List.length_append]
      simpa using hnext

/-- **When frames arrive complete, in order and in time.**  The messages that the
Go process wrote are handed over once each, in their order, and none that is
complete waits, exactly if every piece of the stream suits: it completes no
message, but at least the header of the one it ends in; or it ends where a
message ends, and completes one message, or begins a message and completes
several equal ones. -/
theorem delivers_iff :
    Delivers messages pieces ↔
      ∀ before piece after, pieces = before ++ piece :: after →
        Suits messages before.flatten.length piece := by
  constructor
  · intro hdelivers before piece after hsplit
    have hsuits : ∀ before piece after, pieces = before ++ piece :: after →
        Awaits messages before.flatten.length (Server.start.run before) →
          Suits messages before.flatten.length piece := by
      intro before piece after hsplit hs
      obtain ⟨hrunning, hcomplete⟩ := hdelivers.prompt (before ++ [piece]) after
        (by rw [hsplit, List.append_assoc]; rfl)
      rw [run_append_singleton] at hrunning hcomplete
      rw [List.flatten_append, List.length_append, List.flatten_singleton] at hcomplete
      exact (decides_of_awaits hmessages hpieces hstream hsplit hs).2 hrunning hcomplete
    exact hsuits before piece after hsplit
      (awaits_run hmessages hpieces hstream hsuits before (piece :: after) hsplit)
  · intro hsuits
    have hawaits := awaits_run hmessages hpieces hstream fun before piece after hsplit _ =>
      hsuits before piece after hsplit
    refine ⟨?_, fun before after hsplit => ?_⟩
    · have hall := hawaits pieces [] (List.append_nil _).symm
      rw [hall.delivered, hstream]
      exact arrived_stream header messages
    · have hs := hawaits before after hsplit
      refine ⟨fun hstopped => ?_, hs.delivered⟩
      obtain ⟨_, _, _, _, ⟨_, hphase⟩ | ⟨_, _, _, _, _, hphase⟩⟩ := hs.phase
      · exact absurd (hphase.symm.trans hstopped) nofun
      · exact absurd (hphase.symm.trans hstopped) nofun

end Stream

/-- Two messages in one piece change places. -/
theorem last_message_goes_first :
    ¬ ∀ messages pieces : List Bytes, (∀ m ∈ messages, m.length < 2 ^ 32) →
      (∀ piece ∈ pieces, piece ≠ []) →
        pieces.flatten = messages.flatMap writeMessage → Delivers messages pieces := by
  intro hclaim
  have hfirst : splitMessages (writeMessage [1] ++ writeMessage [2]) [] = _ :=
    splitMessages_frame (m := [1]) (by decide) [] (List.append_assoc _ _ _)
  have hsecond : splitMessages (writeMessage [2]) [[1]] = _ :=
    splitMessages_frame (m := [2]) (by decide) [[1]] rfl
  have hdelivers := hclaim [[1], [2]] [writeMessage [1] ++ writeMessage [2]] (by decide)
    (by decide) (by decide)
  have hall : (Server.start.receive (writeMessage [1] ++ writeMessage [2])).delivered =
      [[1], [2]] := hdelivers.all
  have hsplit : splitMessages (writeMessage [1] ++ writeMessage [2]) [] =
      .done [[2], [1]] := hfirst.trans hsecond
  unfold Server.receive Server.start at hall
  dsimp only at hall
  rw [hsplit] at hall
  exact absurd hall (by decide)

/-- One message, cut after its header. -/
theorem delivers_at_cut_message : Delivers [[1, 2]] [[0, 0, 0, 2], [1, 2]] := by
  have hheader : Suits [[1, 2]] 0 [0, 0, 0, 2] := by
    have hold : complete [[1, 2]] 0 = [] := by decide
    have hnew : complete [[1, 2]] (0 + [(0 : UInt8), 0, 0, 2].length) = [] ++ [] := by decide
    exact (suits_iff (d := 0) hold hnew rfl).mpr
      ⟨fun _ => by decide, fun hne => absurd rfl hne⟩
  have hbody : Suits [[1, 2]] 4 [1, 2] := by
    have hold : complete [[1, 2]] 4 = [] := by decide
    have hnew : complete [[1, 2]] (4 + [(1 : UInt8), 2].length) = [] ++ [[1, 2]] := by decide
    exact (suits_iff (d := 4) hold hnew rfl).mpr
      ⟨fun hempty => (nomatch hempty), fun _ => ⟨by decide, by simp, .inr rfl⟩⟩
  refine (delivers_iff (by decide) (by decide) (by decide)).mpr ?_
  rintro before piece after hsplit
  cases before with
  | nil =>
      cases hsplit
      exact hheader
  | cons first before =>
      obtain ⟨rfl, hsplit⟩ := List.cons.inj hsplit
      cases before with
      | nil =>
          cases hsplit
          exact hbody
      | cons second before =>
          have hlength := congrArg List.length hsplit
          simp at hlength

end Ellipticoind.Ports.Libp2p
