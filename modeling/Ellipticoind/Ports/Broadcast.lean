import Ellipticoind.Ports.Libp2p
import Ellipticoind.Verified.Runs

/-!
# Messages to the Go process

The other direction of the port: `handle_cast({:broadcast, struct})` of
`libp2p.ex` writes a struct behind its length in four bytes, and `readMessage`
of `libp2p.go` reads it through a `bufio.Reader`.

The body is read with `io.ReadFull`, which goes on until it has what it was
asked for.  The header is read with a single `Read`, whose result is at most
what is in the buffer, or what one read of the pipe brings; what is missing of
the four bytes stays zero.

The node keeps its end of the pipe open: a read for which nothing has come yet
waits, which is `none` here.

## Main results

* `readFull_spec` — the body is read whole, however the pipe delivers it.
* `readMessage_iff` — when one call returns the next message.
* `reads_messages_iff` — when successive calls return the messages in order.
-/

namespace Ellipticoind.Ports.Broadcast

open Ellipticoind.Verified
open Ellipticoind.Verified.Frames
open Ellipticoind.Ports.Libp2p

/-! ## The sender -/

section Sender

/- The name of a struct's module, what the `as_binary` of that module makes of
it, and the encoding of the message `P2P.Messages.<type>` with given `bytes`. -/
variable {Struct : Type} (moduleName : Struct → Bytes) (asBinary : Struct → Bytes)
  (protobuf : Bytes → Bytes → Bytes)

/-- `Messages.type`: what follows the last `.` of the module's name. -/
def type (struct : Struct) : Bytes := ((moduleName struct).splitOn 46).getLastD []

/-- `Messages.encode`. -/
def encode (struct : Struct) : Bytes := protobuf (type moduleName struct) (asBinary struct)

/-- `Messages.type(struct) <> " " <> Messages.encode(struct)`. -/
def message (struct : Struct) : Bytes :=
  type moduleName struct ++ 32 :: encode moduleName asBinary protobuf struct

/-- `handle_cast({:broadcast, struct})`: what goes to the port. -/
def broadcast (struct : Struct) : Bytes :=
  putUint32 (message moduleName asBinary protobuf struct).length ++
    message moduleName asBinary protobuf struct

end Sender

/-! ## The reader -/

/-- `defaultBufSize` of `bufio`. -/
def bufferSize : Nat := 4096

/-- A read of at most `n` bytes from the pipe: what is left of the next piece
that brings any. -/
def readPipe (n : Nat) : List Bytes → Option (Bytes × List Bytes)
  | [] => none
  | [] :: rest => readPipe n rest
  | (b :: piece) :: rest => some ((b :: piece).take n, (b :: piece).drop n :: rest)

/-- `bufio.Reader`: what it has read and not yet handed out, and the pieces the
pipe has not yet delivered. -/
structure Reader where
  buffer : Bytes
  pipe : List Bytes

namespace Reader

/-- `bufio.NewReader`. -/
def new (pipe : List Bytes) : Reader where
  buffer := []
  pipe := pipe

/-- `Read`, for `n` bytes: from the buffer, if there are any; else by one read
of the pipe, past the buffer if as much is asked for as it holds. -/
def read (r : Reader) (n : Nat) : Option (Bytes × Reader) :=
  if n = 0 then some ([], r)
  else if r.buffer ≠ [] then some (r.buffer.take n, { r with buffer := r.buffer.drop n })
  else if bufferSize ≤ n then
    (readPipe n r.pipe).map fun got => (got.1, { buffer := [], pipe := got.2 })
  else
    (readPipe bufferSize r.pipe).map fun got =>
      (got.1.take n, { buffer := got.1.drop n, pipe := got.2 })

/-- The loop of `io.ReadFull`, with `n` bytes to go. -/
def readAtLeast : Nat → Reader → Nat → Option (Bytes × Reader)
  | 0, r, _ => some ([], r)
  | fuel + 1, r, n =>
      if n = 0 then some ([], r)
      else (r.read n).bind fun first =>
        (readAtLeast fuel first.2 (n - first.1.length)).map fun tail =>
          (first.1 ++ tail.1, tail.2)

/-- `io.ReadFull`: every read brings at least one byte. -/
def readFull (r : Reader) (n : Nat) : Option (Bytes × Reader) := readAtLeast n r n

/-- `readMessage`: the header goes into four bytes that are zero before. -/
def readMessage (r : Reader) : Option (Bytes × Reader) :=
  (r.read 4).bind fun header =>
    header.2.readFull (unsigned32 (header.1 ++ List.replicate (4 - header.1.length) 0))

/-- Successive calls of `readMessage`, as in the loop of `sendMessages`. -/
def readMessages : Nat → Reader → Option (List Bytes × Reader)
  | 0, r => some ([], r)
  | calls + 1, r =>
      r.readMessage.bind fun first =>
        (readMessages calls first.2).map fun tail => (first.1 :: tail.1, tail.2)

/-- All that the reader has not handed out. -/
def contents (r : Reader) : Bytes := r.buffer ++ r.pipe.flatten

/-- What a short read can find: the buffer, or what one read of the pipe brings
into it. -/
def ahead (r : Reader) : Bytes :=
  if r.buffer ≠ [] then r.buffer
  else ((readPipe bufferSize r.pipe).map Prod.fst).getD []

end Reader

/-! ## One read -/

/-- What one read of the pipe brings is not empty, and comes next. -/
theorem readPipe_some {n : Nat} (hn : 0 < n) {pipe pipe' : List Bytes} {got : Bytes}
    (h : readPipe n pipe = some (got, pipe')) :
    got ≠ [] ∧ got.length ≤ n ∧ pipe.flatten = got ++ pipe'.flatten := by
  induction pipe with
  | nil => exact nomatch h
  | cons piece rest ih =>
      cases piece with
      | nil => exact ih h
      | cons b piece =>
          cases h
          refine ⟨?_, List.length_take_le n _, ?_⟩
          · obtain ⟨k, rfl⟩ := Nat.exists_eq_succ_of_ne_zero (Nat.ne_of_gt hn)
            exact List.cons_ne_nil _ _
          · rw [List.flatten_cons, List.flatten_cons, ← List.append_assoc,
              List.take_append_drop]

/-- It does not wait while anything is to come. -/
theorem readPipe_isSome (n : Nat) {pipe : List Bytes} (h : pipe.flatten ≠ []) :
    ∃ got pipe', readPipe n pipe = some (got, pipe') := by
  induction pipe with
  | nil => exact absurd rfl h
  | cons piece rest ih =>
      cases piece with
      | nil => exact ih h
      | cons b piece => exact ⟨_, _, rfl⟩

namespace Reader

@[simp] theorem contents_new (pipe : List Bytes) : (new pipe).contents = pipe.flatten := rfl

/-- What a read hands out is not empty, and comes next. -/
theorem read_some {r r' : Reader} {n : Nat} (hn : 0 < n) {got : Bytes}
    (h : r.read n = some (got, r')) :
    got ≠ [] ∧ got.length ≤ n ∧ r.contents = got ++ r'.contents := by
  rw [read, if_neg (Nat.ne_of_gt hn)] at h
  by_cases hbuffer : r.buffer = []
  · rw [if_neg (not_not.mpr hbuffer)] at h
    rw [contents, hbuffer, List.nil_append]
    by_cases hlarge : bufferSize ≤ n
    · rw [if_pos hlarge] at h
      obtain ⟨⟨bytes, pipe'⟩, hread, heq⟩ := Option.map_eq_some_iff.mp h
      cases heq
      exact readPipe_some hn hread
    · rw [if_neg hlarge] at h
      obtain ⟨⟨bytes, pipe'⟩, hread, heq⟩ := Option.map_eq_some_iff.mp h
      cases heq
      obtain ⟨hne, _, hflatten⟩ := readPipe_some (by decide) hread
      refine ⟨fun hnil => ?_, List.length_take_le n _, ?_⟩
      · obtain hzero | hempty := List.take_eq_nil_iff.mp hnil
        · omega
        · exact hne hempty
      · rw [contents, ← List.append_assoc, List.take_append_drop, hflatten]
  · rw [if_pos hbuffer] at h
    cases h
    refine ⟨fun hnil => ?_, List.length_take_le n _, ?_⟩
    · obtain hzero | hempty := List.take_eq_nil_iff.mp hnil
      · omega
      · exact hbuffer hempty
    · rw [contents, contents, ← List.append_assoc, List.take_append_drop]

/-- It does not wait while anything is to come. -/
theorem read_isSome {r : Reader} (n : Nat) (h : r.contents ≠ []) :
    ∃ got r', r.read n = some (got, r') := by
  rw [read]
  by_cases hn : n = 0
  · exact ⟨[], r, if_pos hn⟩
  · rw [if_neg hn]
    by_cases hbuffer : r.buffer = []
    · rw [if_neg (not_not.mpr hbuffer)]
      have hpipe : r.pipe.flatten ≠ [] := by
        rw [contents, hbuffer] at h
        exact h
      by_cases hlarge : bufferSize ≤ n
      · obtain ⟨got, pipe', hread⟩ := readPipe_isSome n hpipe
        exact ⟨got, _, by rw [if_pos hlarge, hread]; rfl⟩
      · obtain ⟨got, pipe', hread⟩ := readPipe_isSome bufferSize hpipe
        exact ⟨got.take n, _, by rw [if_neg hlarge, hread]; rfl⟩
    · exact ⟨_, _, if_pos hbuffer⟩

/-- A short read hands out what is ahead, as far as it was asked for. -/
theorem read_eq_take_ahead {r r' : Reader} {n : Nat} (hn : 0 < n) (hsmall : n < bufferSize)
    {got : Bytes} (h : r.read n = some (got, r')) : got = r.ahead.take n := by
  rw [read, if_neg (Nat.ne_of_gt hn)] at h
  rw [ahead]
  by_cases hbuffer : r.buffer = []
  · rw [if_neg (not_not.mpr hbuffer), if_neg (Nat.not_le.mpr hsmall)] at h
    obtain ⟨⟨bytes, pipe'⟩, hread, heq⟩ := Option.map_eq_some_iff.mp h
    cases heq
    rw [if_neg (not_not.mpr hbuffer), hread]
    rfl
  · rw [if_pos hbuffer] at h
    cases h
    rw [if_pos hbuffer]

/-! ## Reading a number of bytes -/

/-- What `ReadFull` hands out is as long as asked for, and comes next. -/
theorem readAtLeast_some {fuel n : Nat} (hfuel : n ≤ fuel) {r r' : Reader} {got : Bytes}
    (h : readAtLeast fuel r n = some (got, r')) :
    got.length = n ∧ r.contents = got ++ r'.contents := by
  induction fuel generalizing r r' n got with
  | zero =>
      cases h
      exact ⟨(Nat.le_zero.mp hfuel).symm, rfl⟩
  | succ fuel ih =>
      rw [readAtLeast] at h
      by_cases hn : n = 0
      · rw [if_pos hn] at h
        cases h
        exact ⟨hn.symm, rfl⟩
      · rw [if_neg hn] at h
        obtain ⟨⟨first, r₁⟩, hfirst, hmap⟩ := Option.bind_eq_some_iff.mp h
        obtain ⟨⟨tail, r₂⟩, htail, heq⟩ := Option.map_eq_some_iff.mp hmap
        cases heq
        obtain ⟨hne, hle, hcontents⟩ := read_some (Nat.pos_of_ne_zero hn) hfirst
        have hpos := List.length_pos_iff.mpr hne
        obtain ⟨hlength, hrest⟩ := ih (n := n - first.length) (by omega) htail
        refine ⟨?_, ?_⟩
        · rw [List.length_append, hlength]
          exact Nat.add_sub_of_le hle
        · rw [hcontents, hrest, List.append_assoc]

/-- It does not wait if that many bytes are to come. -/
theorem readAtLeast_isSome (fuel : Nat) {n : Nat} {r : Reader} (h : n ≤ r.contents.length) :
    ∃ got r', readAtLeast fuel r n = some (got, r') := by
  induction fuel generalizing r n with
  | zero => exact ⟨[], r, rfl⟩
  | succ fuel ih =>
      rw [readAtLeast]
      by_cases hn : n = 0
      · exact ⟨[], r, if_pos hn⟩
      · rw [if_neg hn]
        obtain ⟨first, r₁, hfirst⟩ := read_isSome n (r := r) fun hnil => by
          rw [hnil] at h
          exact hn (Nat.le_zero.mp h)
        obtain ⟨_, hle, hcontents⟩ := read_some (Nat.pos_of_ne_zero hn) hfirst
        have hlength := congrArg List.length hcontents
        rw [List.length_append] at hlength
        obtain ⟨tail, r₂, htail⟩ := ih (n := n - first.length) (r := r₁) (by omega)
        refine ⟨first ++ tail, r₂, ?_⟩
        rw [hfirst, Option.bind_some, htail]
        rfl

/-- `ReadFull` reads the next `n` bytes, however the pipe delivers them. -/
theorem readFull_spec {r : Reader} {bytes rest : Bytes} (h : r.contents = bytes ++ rest) :
    ∃ r', r.readFull bytes.length = some (bytes, r') ∧ r'.contents = rest := by
  have hle : bytes.length ≤ r.contents.length := by
    rw [h, List.length_append]
    exact Nat.le_add_right _ _
  obtain ⟨got, r', hread⟩ := readAtLeast_isSome bytes.length hle
  obtain ⟨hlength, hcontents⟩ := readAtLeast_some (Nat.le_refl _) hread
  obtain ⟨rfl, hrest⟩ := List.append_inj (hcontents.symm.trans h) hlength
  exact ⟨r', hread, hrest⟩

/-! ## One message -/

/-- What the next call can rely on: the header is there for one short read, and
it holds the length. -/
structure Suits (r : Reader) (m : Bytes) : Prop where
  short : m.length < 2 ^ 32
  headed : 4 ≤ r.ahead.length

/-- A call takes the next frame off the stream. -/
theorem readMessage_of_suits {r : Reader} {m rest : Bytes}
    (h : r.contents = frame header m ++ rest) (hsuits : r.Suits m) :
    ∃ r', r.readMessage = some (m, r') ∧ r'.contents = rest := by
  have hwidth : (putUint32 m.length).length = 4 := header.length_encode _
  have hframe : r.contents = putUint32 m.length ++ (m ++ rest) := by
    rw [h]
    exact List.append_assoc _ _ _
  obtain ⟨got, r₁, hread⟩ := read_isSome 4 (r := r) fun hnil => by
    have hlength := congrArg List.length (hframe.symm.trans hnil)
    rw [List.length_append, hwidth] at hlength
    exact absurd hlength (by simp)
  obtain ⟨_, _, hcontents⟩ := read_some (by decide) hread
  have hfour : got.length = 4 := by
    rw [read_eq_take_ahead (by decide) (by decide) hread, List.length_take]
    exact Nat.min_eq_left hsuits.headed
  obtain ⟨rfl, hbody⟩ := List.append_inj (hcontents.symm.trans hframe) (hfour.trans hwidth.symm)
  obtain ⟨r', hfull, hrest⟩ := readFull_spec hbody
  refine ⟨r', ?_, hrest⟩
  have hsize : unsigned32 (putUint32 m.length) = m.length := header.decode_encode _ hsuits.short
  rw [readMessage, hread, Option.bind_some, hwidth, Nat.sub_self, List.replicate_zero,
    List.append_nil, hsize]
  exact hfull

/-- A list that begins like itself behind some zeros is zero. -/
theorem eq_zero_of_shifted {k : Nat} {m x y : Bytes}
    (h : List.replicate (k + 1) 0 ++ (m ++ x) = m ++ y) : ∀ b ∈ m, b = 0 := by
  induction m generalizing x y with
  | nil => exact fun _ hb => nomatch hb
  | cons b m ih =>
      rw [List.replicate_succ] at h
      obtain ⟨hb, htail⟩ := List.cons.inj h
      subst hb
      have hshift : List.replicate (k + 1) (0 : UInt8) ++ (m ++ x) = m ++ y := by
        rw [List.replicate_succ', List.append_assoc]
        exact htail
      exact List.forall_mem_cons.mpr ⟨rfl, ih hshift⟩

theorem putUint32_unsigned32 {bytes : Bytes} (h : bytes.length = 4) :
    putUint32 (unsigned32 bytes) = bytes := by
  have hwidth : bytes.reverse.length = 4 := List.length_reverse.trans h
  have hread := LittleEndian.leBytes_leNat bytes.reverse
  rw [hwidth] at hread
  rw [putUint32, unsigned32, hread, List.reverse_reverse]

/-- A call that returns the next message found its header there: of a header cut
short, the bytes that are missing would be zero, and so would all of the
message. -/
theorem suits_of_readMessage {r r' : Reader} {m rest : Bytes}
    (h : r.contents = frame header m ++ rest) (hm : ∃ b ∈ m, b ≠ 0)
    (hread : r.readMessage = some (m, r')) : r.Suits m := by
  obtain ⟨⟨got, r₁⟩, hfirst, hfull⟩ := Option.bind_eq_some_iff.mp hread
  obtain ⟨_, hle, hcontents⟩ := read_some (by decide) hfirst
  obtain ⟨hlength, hbody⟩ := readAtLeast_some (Nat.le_refl _) hfull
  have hpadded : (got ++ List.replicate (4 - got.length) 0).length = 4 := by
    rw [List.length_append, List.length_replicate]
    exact Nat.add_sub_of_le hle
  have hshort : m.length < 2 ^ 32 := by
    have hlt := LittleEndian.leNat_lt (got ++ List.replicate (4 - got.length) 0).reverse
    rw [List.length_reverse, hpadded] at hlt
    rw [hlength]
    exact hlt
  have hheader : putUint32 m.length = got ++ List.replicate (4 - got.length) 0 := by
    rw [hlength]
    exact putUint32_unsigned32 hpadded
  refine ⟨hshort, Nat.le_of_not_lt fun hlt => ?_⟩
  have hgot : got.length < 4 := by
    rw [read_eq_take_ahead (by decide) (by decide) hfirst]
    exact Nat.lt_of_le_of_lt (List.length_take_le' _ _) hlt
  obtain ⟨k, hk⟩ := Nat.exists_eq_add_of_lt hgot
  have hzeros : 4 - got.length = k + 1 := by omega
  have hstream : got ++ (List.replicate (k + 1) 0 ++ (m ++ rest)) =
      got ++ (m ++ r'.contents) := by
    calc got ++ (List.replicate (k + 1) 0 ++ (m ++ rest))
        = (got ++ List.replicate (4 - got.length) 0) ++ (m ++ rest) := by
          rw [hzeros, List.append_assoc]
      _ = frame header m ++ rest := by
          rw [← hheader]
          exact (List.append_assoc _ _ _).symm
      _ = r.contents := h.symm
      _ = got ++ (m ++ r'.contents) := by rw [hcontents, hbody]
  obtain ⟨b, hb, hne⟩ := hm
  exact hne (eq_zero_of_shifted (List.append_cancel_left hstream) b hb)

/-- When one call returns the next message. -/
theorem readMessage_iff {r : Reader} {m rest : Bytes}
    (h : r.contents = frame header m ++ rest) (hm : ∃ b ∈ m, b ≠ 0) :
    (∃ r', r.readMessage = some (m, r') ∧ r'.contents = rest) ↔ r.Suits m :=
  ⟨fun ⟨_, hread, _⟩ => suits_of_readMessage h hm hread, readMessage_of_suits h⟩

/-! ## Successive calls -/

/-- The reader after a call. -/
def next (r : Reader) (_ : Bytes) : Option Reader := r.readMessage.map Prod.snd

theorem readMessages_iff {ms : List Bytes} (hms : ∀ m ∈ ms, ∃ b ∈ m, b ≠ 0) {r : Reader}
    (h : r.contents = stream header ms) :
    (r.readMessages ms.length).map Prod.fst = some ms ↔ Runs.Meets next Suits r ms := by
  induction ms generalizing r with
  | nil => exact ⟨fun _ => trivial, fun _ => rfl⟩
  | cons m rest ih =>
      obtain ⟨hm, hrest⟩ := List.forall_mem_cons.mp hms
      constructor
      · intro hreads
        obtain ⟨⟨_, r₂⟩, hcalls, heq⟩ := Option.map_eq_some_iff.mp hreads
        obtain ⟨⟨first, r₁⟩, hfirst, hmap⟩ := Option.bind_eq_some_iff.mp hcalls
        obtain ⟨⟨tail, r₃⟩, htail, hpair⟩ := Option.map_eq_some_iff.mp hmap
        cases hpair
        obtain ⟨rfl, rfl⟩ := List.cons.inj heq
        have hsuits := suits_of_readMessage h hm hfirst
        obtain ⟨r', hread, hcontents⟩ := readMessage_of_suits h hsuits
        have hnext : next r first = some r' := by
          rw [next, hread]
          rfl
        cases hread.symm.trans hfirst
        refine Runs.meets_cons hsuits hnext ((ih hrest hcontents).mp ?_)
        rw [htail]
        rfl
      · rintro ⟨hsuits, hmeets⟩
        obtain ⟨r', hread, hcontents⟩ := readMessage_of_suits h hsuits
        have hnext : next r m = some r' := by
          rw [next, hread]
          rfl
        have htail := (ih hrest hcontents).mpr (hmeets r' hnext)
        obtain ⟨⟨_, r₂⟩, hcalls, rfl⟩ := Option.map_eq_some_iff.mp htail
        rw [List.length_cons, readMessages, hread, Option.bind_some, hcalls]
        rfl

end Reader

section Structs

variable {Struct : Type} (moduleName : Struct → Bytes) (asBinary : Struct → Bytes)
  (protobuf : Bytes → Bytes → Bytes)

theorem flatMap_broadcast (structs : List Struct) :
    structs.flatMap (broadcast moduleName asBinary protobuf) =
      stream header (structs.map (message moduleName asBinary protobuf)) := by
  rw [stream, List.flatMap_map]
  rfl

/-- A message is not zero: there is a space in it. -/
theorem message_ne_zero (struct : Struct) :
    ∃ b ∈ message moduleName asBinary protobuf struct, b ≠ 0 :=
  ⟨32, List.mem_append_right _ List.mem_cons_self, by decide⟩

/--
**The messages are read in order exactly where no header is cut**: each is
shorter than `2 ^ 32` bytes, and whenever `readMessage` is called, the buffer,
or else the next piece from the pipe, holds the four bytes of its header.
-/
theorem reads_messages_iff (structs : List Struct) (pieces : List Bytes)
    (hpieces : pieces.flatten = structs.flatMap (broadcast moduleName asBinary protobuf)) :
    ((Reader.new pieces).readMessages structs.length).map Prod.fst =
        some (structs.map (message moduleName asBinary protobuf)) ↔
      Runs.Meets Reader.next Reader.Suits (Reader.new pieces)
        (structs.map (message moduleName asBinary protobuf)) := by
  rw [flatMap_broadcast] at hpieces
  have hiff := Reader.readMessages_iff (r := .new pieces)
    (List.forall_mem_map.mpr fun struct _ =>
      message_ne_zero moduleName asBinary protobuf struct) hpieces
  rwa [List.length_map] at hiff

end Structs

/-- A block, whose header comes in two pieces. -/
theorem header_in_two_pieces :
    ¬ ∀ (Struct : Type) (moduleName asBinary : Struct → Bytes)
        (protobuf : Bytes → Bytes → Bytes) (structs : List Struct) (pieces : List Bytes),
      pieces.flatten = structs.flatMap (broadcast moduleName asBinary protobuf) →
        ((Reader.new pieces).readMessages structs.length).map Prod.fst =
          some (structs.map (message moduleName asBinary protobuf)) := by
  intro hclaim
  have hreads := hclaim Unit (fun _ => utf8 "Elixir.Ellipticoind.Models.Block") (fun _ => [160])
    (fun _ bytes => 10 :: UInt8.ofNat bytes.length :: bytes) [()]
    [[0, 0], [0, 9, 66, 108, 111, 99, 107, 32, 10, 1, 160]] (by decide)
  exact absurd hreads (by decide)

/-- Two blocks, the first of which is cut after its header, and comes with the
second. -/
theorem reads_messages_at_two_blocks :
    ((Reader.new [[0, 0, 0, 9], [66, 108, 111, 99, 107, 32, 10, 1, 160, 0, 0, 0, 9, 66, 108, 111,
        99, 107, 32, 10, 1, 160]]).readMessages 2).map Prod.fst =
      some [utf8 "Block" ++ [32, 10, 1, 160], utf8 "Block" ++ [32, 10, 1, 160]] := by
  refine (reads_messages_iff (fun _ : Unit => utf8 "Elixir.Ellipticoind.Models.Block")
    (fun _ => [160]) (fun _ bytes => 10 :: UInt8.ofNat bytes.length :: bytes) [(), ()] _
    (by decide)).mpr ?_
  refine ⟨⟨by decide, by decide⟩, fun r₁ hr₁ => ⟨⟨by decide, ?_⟩, fun _ _ => trivial⟩⟩
  cases hr₁
  decide

end Ellipticoind.Ports.Broadcast
