import Ellipticoind.Ports.PortData
import Ellipticoind.Verified.Lines

/-!
# Lines from the Noise process

The receiving end of the port to `noise.go`, in `noise.ex`.  The Go process
prints one line for each thing it has to say; the port hands over pieces of its
output as lists of bytes, and a piece of more than 65515 bytes is taken for one
that is not complete.

The bytes of a piece are code points to `List.to_string`, so a text is a list of
code points below 256 here; its bytes are those of `listToString`, which only
`byte_size` looks at.  What is printed or logged goes nowhere.

## Main results

* `run_eq` — the server's run is that of `handle_port_data` over the texts that
  the pieces are split into.
* `texts_eq_lines_iff` — when these are the lines that were printed.
* `run_lines` — then every line is handled once, in order.
-/

namespace Ellipticoind.Ports.Noise

open Ellipticoind.Verified
open Ellipticoind.Verified.Lines

/-! ## The server -/

/-- The code points that `String.trim` takes off. -/
def whitespace (c : UInt8) : Bool :=
  decide (9 ≤ c ∧ c ≤ 13 ∨ c = 32 ∨ c = 133 ∨ c = 160)

/-- `byte_size(List.to_string(part)) > 65515`. -/
def full (part : Bytes) : Bool := decide (65515 < (listToString part).length)

/-- Where the server is. -/
inductive Phase where
  /-- In the loop of the `GenServer`. -/
  | loop
  /-- In `keep_receiving`, with what it has got. -/
  | receiving (message : Bytes)
  | stopped
  deriving DecidableEq

structure Server (Message : Type) where
  phase : Phase
  subscribers : List Nat
  started : Bool
  /-- What was sent, and to whom. -/
  sent : List (Nat × Message)

section Server

/- `Messages.decode`, which may raise. -/
variable {Message : Type} (decode : Bytes → Bytes → Option Message)

namespace Server

/-- `init`. -/
def init : Server Message where
  phase := .loop
  subscribers := []
  started := false
  sent := []

/-- `handle_call({:subscribe, pid}, …)`. -/
def subscribe (s : Server Message) (pid : Nat) : Server Message :=
  { s with subscribers := pid :: s.subscribers }

/-- The message is decoded for every subscriber. -/
def deliver (s : Server Message) (type raw : Bytes) : Server Message :=
  if s.subscribers = [] then s
  else
    match (Base64.decode raw).bind fun message => decode message type with
    | some message => { s with sent := s.sent ++ s.subscribers.map (·, message) }
    | none => { s with phase := .stopped }

/-- `handle_port_data`. -/
def handlePortData (s : Server Message) (data : Bytes) : Server Message :=
  if data = utf8 "started" then { s with started := true }
  else if utf8 "message:" <+: data then
    match (data.drop 8).splitOn space with
    | [type, raw] => s.deliver decode type raw
    | _ => s
  else s

/-- One round of `Enum.reduce`, unless an earlier one has raised. -/
def handleLine (s : Server Message) (data : Bytes) : Server Message :=
  if s.phase = .stopped then s else s.handlePortData decode data

/-- `handle_info`, with all that `keep_receiving` has got. -/
def handleInfo (s : Server Message) (message : Bytes) : Server Message :=
  let message := trim whitespace message
  if newline ∈ message then (message.splitOn newline).foldl (handleLine decode) s
  else s.handleLine decode message

/-- `keep_receiving`, up to a wait. -/
def keepReceiving (s : Server Message) (message part : Bytes) : Server Message :=
  if full part then { s with phase := .receiving (message ++ part) }
  else handleInfo decode { s with phase := .loop } (message ++ part)

/-- A message from the port. -/
def receive (s : Server Message) (data : Bytes) : Server Message :=
  match s.phase with
  | .loop => s.keepReceiving decode [] data
  | .receiving message => s.keepReceiving decode message data
  | .stopped => s

def run (s : Server Message) (pieces : List Bytes) : Server Message :=
  pieces.foldl (receive decode) s

end Server

/-! ## What one call gets -/

/-- What `keep_receiving` puts together for each call of `handle_info`, and what
it waits with at the end. -/
def batches : Bytes → List Bytes → List Bytes × Bytes
  | message, [] => ([], message)
  | message, part :: rest =>
      if full part then batches (message ++ part) rest
      else ((message ++ part) :: (batches [] rest).1, (batches [] rest).2)

theorem flatten_batches (message : Bytes) (pieces : List Bytes) :
    (batches message pieces).1.flatten ++ (batches message pieces).2 =
      message ++ pieces.flatten := by
  induction pieces generalizing message with
  | nil => simp [batches]
  | cons part rest ih =>
      rw [batches]
      split
      · rw [ih, List.flatten_cons, List.append_assoc]
      · have hrest := ih []
        rw [List.nil_append] at hrest
        rw [List.flatten_cons, List.append_assoc, hrest, List.flatten_cons, List.append_assoc]

namespace Server

variable {decode}

/-- The server in `keep_receiving` with what it has got, or in its loop. -/
def waiting (s : Server Message) (message : Bytes) : Server Message :=
  if s.phase = .stopped ∨ message = [] then s else { s with phase := .receiving message }

/-- The server is in its loop, or it has stopped. -/
def AtRest (s : Server Message) : Prop := s.phase = .loop ∨ s.phase = .stopped

theorem AtRest.handleLine {s : Server Message} (h : s.AtRest) (data : Bytes) :
    (s.handleLine decode data).AtRest := by
  unfold Server.handleLine handlePortData deliver
  split
  · exact h
  · split
    · exact h
    · split
      · split
        · split
          · exact h
          · split
            · exact h
            · exact .inr rfl
        · exact h
      · exact h

theorem AtRest.foldl {s : Server Message} (h : s.AtRest) (texts : List Bytes) :
    (texts.foldl (Server.handleLine decode) s).AtRest := by
  induction texts generalizing s with
  | nil => exact h
  | cons text texts ih => exact ih (h.handleLine text)

/-- An empty text is printed. -/
theorem handleLine_nil (s : Server Message) : s.handleLine decode [] = s := by
  unfold handleLine handlePortData
  split
  · rfl
  · rw [if_neg (by decide), if_neg (by decide)]

theorem foldl_handleLine_filter (s : Server Message) (texts : List Bytes) :
    (texts.filter (· ≠ [])).foldl (handleLine decode) s =
      texts.foldl (handleLine decode) s := by
  induction texts generalizing s with
  | nil => rfl
  | cons text texts ih =>
      by_cases htext : text = []
      · rw [htext, List.filter_cons_of_neg (by simp), ih, List.foldl_cons, handleLine_nil]
      · rw [List.filter_cons_of_pos (by simp [htext]), List.foldl_cons, List.foldl_cons, ih]

/-- One call handles the parts of what it gets. -/
theorem handleInfo_eq (s : Server Message) (message : Bytes) :
    s.handleInfo decode message =
      (parts newline whitespace message).foldl (handleLine decode) s := by
  unfold handleInfo parts
  dsimp only
  split
  · rfl
  · rename_i hnewline
    rw [List.splitOn_eq_singleton hnewline]
    rfl

theorem foldl_handleInfo (s : Server Message) (messages : List Bytes) :
    messages.foldl (handleInfo decode) s =
      (texts newline whitespace messages).foldl (handleLine decode) s := by
  rw [texts, foldl_handleLine_filter, List.flatMap, List.foldl_flatten, List.foldl_map]
  congr 1
  funext s message
  exact handleInfo_eq s message

theorem AtRest.handleInfo {s : Server Message} (h : s.AtRest) (message : Bytes) :
    (s.handleInfo decode message).AtRest := by
  rw [handleInfo_eq]
  exact h.foldl _

theorem full_ne_nil {part : Bytes} (h : full part = true) : part ≠ [] := by
  rintro rfl
  simp [full, listToString] at h

/-- A server that has stopped stays as it is. -/
theorem foldl_stopped {s : Server Message} (h : s.phase = .stopped) (messages : List Bytes) :
    messages.foldl (handleInfo decode) s = s := by
  rw [foldl_handleInfo]
  induction texts newline whitespace messages with
  | nil => rfl
  | cons text texts ih =>
      rw [List.foldl_cons, handleLine, if_pos h]
      exact ih

theorem run_stopped {s : Server Message} (h : s.phase = .stopped) (pieces : List Bytes) :
    s.run decode pieces = s := by
  induction pieces with
  | nil => rfl
  | cons piece pieces ih =>
      have hreceive : s.receive decode piece = s := by simp only [receive, h]
      rw [run, List.foldl_cons, hreceive]
      exact ih

theorem waiting_stopped {s : Server Message} (h : s.phase = .stopped) (message : Bytes) :
    s.waiting message = s := if_pos (.inl h)

theorem waiting_nil (s : Server Message) : s.waiting [] = s := if_pos (.inr rfl)

/-- A piece that comes while the server waits, or in its loop. -/
theorem receive_waiting {s : Server Message} (h : s.phase = .loop) (message part : Bytes) :
    (s.waiting message).receive decode part =
      if full part then s.waiting (message ++ part)
      else s.handleInfo decode (message ++ part) := by
  have hself : { s with phase := .loop } = s := by rw [← h]
  have hreceive : (s.waiting message).receive decode part =
      s.keepReceiving decode message part := by
    unfold waiting
    split
    · rename_i hcases
      rw [h] at hcases
      obtain rfl := hcases.resolve_left nofun
      simp only [receive, h]
    · rfl
  rw [hreceive, keepReceiving, hself]
  split
  · rename_i hfull
    rw [waiting, if_neg]
    rw [h]
    simp [full_ne_nil hfull]
  · rfl

/-- A run from any wait. -/
theorem run_waiting {s : Server Message} (hs : s.AtRest) (message : Bytes)
    (pieces : List Bytes) :
    (s.waiting message).run decode pieces =
      ((batches message pieces).1.foldl (Server.handleInfo decode) s).waiting
        (batches message pieces).2 := by
  induction pieces generalizing s message with
  | nil => rfl
  | cons part rest ih =>
      rcases hs with hloop | hstopped
      · rw [run, List.foldl_cons, receive_waiting hloop, batches]
        split
        · exact ih (.inl hloop) _
        · have hat : (s.handleInfo decode (message ++ part)).AtRest :=
            AtRest.handleInfo (.inl hloop) _
          have hrest := ih hat []
          rwa [waiting_nil] at hrest
      · rw [waiting_stopped hstopped, run_stopped hstopped, foldl_stopped hstopped,
          waiting_stopped hstopped]

/-- **A run that comes back to the loop is that of `handle_port_data` over the
texts.** -/
theorem run_eq {s : Server Message} (hs : s.phase = .loop) {pieces : List Bytes}
    (hloop : (batches [] pieces).2 = []) :
    s.run decode pieces =
      (texts newline whitespace (batches [] pieces).1).foldl (handleLine decode) s := by
  have hrun : (s.waiting []).run decode pieces = _ := run_waiting (.inl hs) [] pieces
  rwa [waiting_nil, hloop, waiting_nil, foldl_handleInfo] at hrun

end Server

end Server

/-! ## When the texts are the lines -/

/-- Every call of `handle_info` gets whole lines, with or without the newline at
either end. -/
def WholeLines (pieces : List Bytes) : Prop :=
  ∀ before after, (batches [] pieces).1 = before ++ after →
    EndsLine newline before.flatten after.flatten

theorem flatten_of_loop {lines pieces : List Bytes}
    (hpieces : pieces.flatten = stream newline lines)
    (hloop : (batches [] pieces).2 = []) :
    (batches [] pieces).1.flatten = stream newline lines := by
  have hflatten := flatten_batches [] pieces
  rwa [hloop, List.append_nil, List.nil_append, hpieces] at hflatten

section Lines

variable {lines pieces : List Bytes} (htidy : ∀ line ∈ lines, Tidy newline whitespace line)
  (hpieces : pieces.flatten = stream newline lines) (hloop : (batches [] pieces).2 = [])
include htidy hpieces hloop

theorem texts_of_wholeLines (h : WholeLines pieces) :
    texts newline whitespace (batches [] pieces).1 = lines :=
  (texts_eq_iff (by decide) htidy (flatten_of_loop hpieces hloop)).mpr h

theorem wholeLines_of_texts (h : texts newline whitespace (batches [] pieces).1 = lines) :
    WholeLines pieces :=
  (texts_eq_iff (by decide) htidy (flatten_of_loop hpieces hloop)).mp h

/-- **The texts that are handled are the lines that were printed if, and only if,
no call gets a part of a line.** -/
theorem texts_eq_lines_iff :
    texts newline whitespace (batches [] pieces).1 = lines ↔ WholeLines pieces :=
  ⟨wholeLines_of_texts htidy hpieces hloop, texts_of_wholeLines htidy hpieces hloop⟩

/-- **Then every line is handled, once and in order.** -/
theorem run_lines {Message : Type} {decode : Bytes → Bytes → Option Message}
    {s : Server Message} (hs : s.phase = .loop) (hwhole : WholeLines pieces) :
    s.run decode pieces = lines.foldl (Server.handleLine decode) s := by
  rw [Server.run_eq hs hloop, texts_of_wholeLines htidy hpieces hloop hwhole]

end Lines

/-- The second piece ends in the middle of a line. -/
def cutLine : List Bytes := [utf8 "started\n", utf8 "log:ti", utf8 "meout\n"]

theorem texts_eq_lines_iff_at_cut_line : ¬ WholeLines cutLine := by
  have htidy : ∀ line ∈ [utf8 "started", utf8 "log:timeout"],
      Tidy newline whitespace line := by
    intro line hline
    simp only [List.mem_cons, List.not_mem_nil, or_false] at hline
    rcases hline with rfl | rfl
    · exact ⟨by decide, ⟨115, utf8 "tarted", rfl, rfl⟩, ⟨utf8 "starte", 100, rfl, rfl⟩⟩
    · exact ⟨by decide, ⟨108, utf8 "og:timeout", rfl, rfl⟩, ⟨utf8 "log:timeou", 116, rfl, rfl⟩⟩
  have hpieces : cutLine.flatten =
      stream newline [utf8 "started", utf8 "log:timeout"] := by decide +kernel
  exact mt (texts_eq_lines_iff htidy hpieces (by decide +kernel)).mpr (by decide +kernel)

end Ellipticoind.Ports.Noise
