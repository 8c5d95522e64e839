import Ellipticoind.Ports.PortData

/-!
# The result line of the transaction processor

`return_completed_transactions` prints the result of a run as one line of three
items in base 64; before it come the lines that contracts have logged, each with
`debug: ` in front.  `receive_native` of `transaction_processor.ex` puts data
messages together until one ends in a newline, drops what begins with `debug: `
and takes the first thing that does not for the result.

What it puts together may be several lines.  They are dropped together.

## Main results

* `receiveFrom_spec` — what `receive_native` makes of some lines, from the
  middle of a message on.
* `receives_result_iff` — when it returns the three items.
-/

namespace Ellipticoind.Ports.NativeOutput

open Ellipticoind.Verified

/-! ## The native program -/

/-- A line printed by `VM::log`; its text is escaped, so that no newline is in
it. -/
structure DebugLine where
  text : Bytes
  escaped : newline ∉ text

/-- The word in front of a logged text. -/
def debug : Bytes := utf8 "debug: "

def DebugLine.bytes (line : DebugLine) : Bytes := debug ++ line.text ++ [newline]

/-- The three items of the result. -/
structure Items where
  transactions : Bytes
  memoryChangeset : Bytes
  storageChangeset : Bytes

/-- What `return_completed_transactions` prints. -/
def Items.line (items : Items) : Bytes :=
  Base64.encode items.transactions ++ space :: (Base64.encode items.memoryChangeset ++
    space :: Base64.encode items.storageChangeset) ++ [newline]

/-! ## The receiver -/

/-- What is in the mailbox for `receive_stop_or_message`. -/
inductive Message where
  | stop
  /-- `{port, {:data, part}}`. -/
  | data (part : Bytes)

inductive Received where
  | stop
  | message (message : Bytes)

/-- `receive_stop_or_message`, and the mailbox it leaves; with no result it waits. -/
def receiveStopOrMessage (message : Bytes) : List Message → Option (Received × List Message)
  | [] => none
  | .stop :: rest => some (.stop, rest)
  | .data part :: rest =>
      if part.getLast? = some newline then some (.message (message ++ part), rest)
      else receiveStopOrMessage (message ++ part) rest

theorem length_of_receive {message : Bytes} {mailbox rest : List Message} {got : Received}
    (h : receiveStopOrMessage message mailbox = some (got, rest)) :
    rest.length < mailbox.length := by
  induction mailbox generalizing message with
  | nil => exact nomatch h
  | cons first tail ih =>
      cases first with
      | stop =>
          cases h
          exact Nat.lt_succ_self _
      | data part =>
          rw [receiveStopOrMessage] at h
          by_cases hlast : part.getLast? = some newline
          · rw [if_pos hlast] at h
            cases h
            exact Nat.lt_succ_self _
          · rw [if_neg hlast] at h
            exact Nat.lt_succ_of_lt (ih h)

/-- What `receive_native` comes to. -/
inductive Outcome (Term : Type) where
  | stopped
  | returned (items : List Term)
  | raised
  /-- Nothing is left to receive. -/
  | waits
  deriving DecidableEq

section Receiver

/- `Cbor.decode!`, which raises where it has no result. -/
variable {Term : Type} (decodeCbor : Bytes → Option Term)

/-- The result, or what `Base.decode64!` or `Cbor.decode!` raises. -/
def Outcome.ofItems (items : Option (List Term)) : Outcome Term :=
  items.elim .raised .returned

/-- The last clause of `receive_native`. -/
def decodeLine (text : Bytes) : Outcome Term :=
  .ofItems (((trimNewlines text).splitOn space).mapM fun item =>
    (Base64.decode item).bind decodeCbor)

/-- `receive_native`. -/
def receiveNative (mailbox : List Message) : Outcome Term :=
  match _h : receiveStopOrMessage [] mailbox with
  | none => .waits
  | some (.stop, _) => .stopped
  | some (.message message, rest) =>
      if debug.isPrefixOf (listToString message) then receiveNative rest
      else decodeLine decodeCbor (listToString message)
termination_by mailbox.length
decreasing_by exact length_of_receive ‹_›

/-- The same, with part of a message already there. -/
def receiveFrom (message : Bytes) (mailbox : List Message) : Outcome Term :=
  match receiveStopOrMessage message mailbox with
  | none => .waits
  | some (.stop, _) => .stopped
  | some (.message message, rest) =>
      if debug.isPrefixOf (listToString message) then receiveNative decodeCbor rest
      else decodeLine decodeCbor (listToString message)

/-- The three decoded items. -/
def Items.decoded (items : Items) : Outcome Term :=
  .ofItems ([items.transactions, items.memoryChangeset, items.storageChangeset].mapM decodeCbor)

theorem receiveNative_eq (mailbox : List Message) :
    receiveNative decodeCbor mailbox = receiveFrom decodeCbor [] mailbox := by
  rw [receiveNative, receiveFrom]
  split <;> rename_i h <;> rw [h]

/-- A data message that does not end in a newline is kept. -/
theorem receiveFrom_part {part : Bytes} (h : part.getLast? ≠ some newline) (message : Bytes)
    (rest : List Message) :
    receiveFrom decodeCbor message (.data part :: rest) =
      receiveFrom decodeCbor (message ++ part) rest := by
  rw [receiveFrom, receiveStopOrMessage, if_neg h]
  rfl

/-- With one that does, what is there begins with `debug: ` or is decoded. -/
theorem receiveFrom_last {part : Bytes} (h : part.getLast? = some newline) (message : Bytes)
    (rest : List Message) :
    receiveFrom decodeCbor message (.data part :: rest) =
      if debug.isPrefixOf (listToString (message ++ part)) then receiveFrom decodeCbor [] rest
      else decodeLine decodeCbor (listToString (message ++ part)) := by
  rw [receiveFrom, receiveStopOrMessage, if_pos h]
  dsimp only
  rw [receiveNative_eq]

/-! ## Lines -/

/-- Some bytes, and the only newline at the end. -/
def IsLine (line : Bytes) : Prop := ∃ text, newline ∉ text ∧ line = text ++ [newline]

theorem DebugLine.isLine (line : DebugLine) : IsLine line.bytes := by
  refine ⟨debug ++ line.text, fun h => ?_, rfl⟩
  obtain hdebug | htext := List.mem_append.mp h
  · exact absurd hdebug (by decide)
  · exact line.escaped htext

theorem Items.isLine (items : Items) : IsLine items.line := by
  refine ⟨_, ?_, rfl⟩
  simp only [List.mem_append, List.mem_cons, not_or]
  exact ⟨newline_notMem_encode _, by decide, newline_notMem_encode _, by decide,
    newline_notMem_encode _⟩

/-- What ends in a newline has whole lines in it. -/
theorem lines_of_newline {lines : List Bytes} (hlines : ∀ line ∈ lines, IsLine line)
    {x y : Bytes} (h : lines.flatten = x ++ y) (hlast : x.getLast? = some newline) :
    ∃ first rest, lines = first ++ rest ∧ x = first.flatten ∧ y = rest.flatten := by
  induction lines generalizing x with
  | nil =>
      obtain ⟨rfl, rfl⟩ := List.append_eq_nil_iff.mp h.symm
      exact nomatch hlast
  | cons line lines ih =>
      obtain ⟨⟨text, htext, rfl⟩, hrest⟩ := List.forall_mem_cons.mp hlines
      rw [List.flatten_cons] at h
      obtain ⟨z, hx, hflatten⟩ | ⟨z, hline, hy⟩ := List.append_eq_append_iff.mp h
      · -- the line ends before `x`, or with it
        by_cases hz : z = []
        · subst hz
          refine ⟨[text ++ [newline]], lines, rfl, ?_, hflatten.symm⟩
          rw [hx, List.flatten_singleton, List.append_nil]
        · have hlast' : z.getLast? = some newline := by
            rw [hx, List.getLast?_append_of_ne_nil _ hz] at hlast
            exact hlast
          obtain ⟨first, rest, rfl, rfl, rfl⟩ := ih hrest hflatten hlast'
          exact ⟨(text ++ [newline]) :: first, rest, rfl, hx, rfl⟩
      · -- `x` ends in the line; its last letter is the newline
        obtain rfl | ⟨z, b, rfl⟩ := List.eq_nil_or_concat' z
        · refine ⟨[text ++ [newline]], lines, rfl, ?_, hy⟩
          rw [hline, List.flatten_singleton, List.append_nil]
        · rw [← List.append_assoc] at hline
          obtain ⟨rfl, _⟩ := List.append_inj' hline rfl
          exact absurd (List.mem_append_left _ (List.mem_of_getLast? hlast)) htext

/-- What the program prints. -/
def output (lines : List DebugLine) (items : Items) : Bytes :=
  lines.flatMap DebugLine.bytes ++ items.line

/-- A beginning of the output that ends in a newline has some of the debug lines
in it, or all and the result. -/
theorem output_of_newline {lines : List DebugLine} {items : Items} {x y : Bytes}
    (h : x ++ y = output lines items) (hlast : x.getLast? = some newline) :
    (∃ first rest, lines = first ++ rest ∧ x = first.flatMap DebugLine.bytes ∧
      y = output rest items) ∨ x = output lines items ∧ y = [] := by
  have hlines : ∀ line ∈ lines.map DebugLine.bytes ++ [items.line], IsLine line := by
    intro line hline
    obtain hmap | hitems := List.mem_append.mp hline
    · obtain ⟨debugLine, _, rfl⟩ := List.mem_map.mp hmap
      exact debugLine.isLine
    · rw [List.mem_singleton.mp hitems]
      exact items.isLine
  have hflatten : (lines.map DebugLine.bytes ++ [items.line]).flatten = x ++ y := by
    rw [h, List.flatten_append, List.flatten_singleton]
    rfl
  obtain ⟨first, rest, hsplit, rfl, rfl⟩ := lines_of_newline hlines hflatten hlast
  obtain rfl | ⟨init, last, rfl⟩ := List.eq_nil_or_concat' rest
  · refine .inr ⟨?_, rfl⟩
    rw [← h, List.flatten_nil, List.append_nil]
  · rw [← List.append_assoc] at hsplit
    obtain ⟨hmap, hitems⟩ := List.append_inj' hsplit rfl
    cases hitems
    obtain ⟨first', init', rfl, rfl, rfl⟩ := List.map_eq_append_iff.mp hmap
    refine .inl ⟨first', init', rfl, rfl, ?_⟩
    rw [List.flatten_append, List.flatten_singleton]
    rfl

theorem getLast?_line {line : Bytes} (h : IsLine line) (before : Bytes) :
    (before ++ line).getLast? = some newline := by
  obtain ⟨text, _, rfl⟩ := h
  rw [← List.append_assoc, List.getLast?_concat]

theorem getLast?_output (lines : List DebugLine) (items : Items) :
    (output lines items).getLast? = some newline := getLast?_line items.isLine _

theorem getLast?_lines {lines : List DebugLine} (h : lines ≠ []) :
    (lines.flatMap DebugLine.bytes).getLast? = some newline := by
  obtain rfl | ⟨init, last, rfl⟩ := List.eq_nil_or_concat' lines
  · exact absurd rfl h
  · rw [List.flatMap_append, List.flatMap_singleton]
    exact getLast?_line last.isLine _

/-! ## What becomes of a message -/

theorem isPrefixOf_lines {lines : List DebugLine} (h : lines ≠ []) (rest : Bytes) :
    debug.isPrefixOf (listToString (lines.flatMap DebugLine.bytes ++ rest)) = true := by
  obtain ⟨line, tail, rfl⟩ := List.exists_cons_of_ne_nil h
  have hdebug : listToString debug = debug := by decide
  rw [List.isPrefixOf_iff_prefix, List.flatMap_cons, DebugLine.bytes]
  simp only [listToString_append, List.append_assoc, hdebug]
  exact List.prefix_append _ _

theorem listToString_line (items : Items) : listToString items.line = items.line := by
  refine listToString_ascii fun b hb => ?_
  simp only [Items.line, List.mem_append, List.mem_cons, List.not_mem_nil, or_false] at hb
  obtain (h | rfl | h | rfl | h) | rfl := hb
  · exact encode_ascii h
  · decide
  · exact encode_ascii h
  · decide
  · exact encode_ascii h
  · decide

theorem isPrefixOf_line (items : Items) :
    debug.isPrefixOf (listToString items.line) = false := by
  rw [listToString_line, ← Bool.not_eq_true, List.isPrefixOf_iff_prefix]
  intro hprefix
  -- there is a colon in the one and none in the other
  have hcolon : 58 ∈ items.line := hprefix.subset (by decide)
  have hencode := Base64.notMem_encode (c := 58) (by decide +kernel) (by decide)
  simp only [Items.line, List.mem_append, List.mem_cons, List.not_mem_nil, or_false] at hcolon
  obtain (h | h | h | h | h) | h := hcolon
  · exact hencode _ h
  · exact absurd h (by decide)
  · exact hencode _ h
  · exact absurd h (by decide)
  · exact hencode _ h
  · exact absurd h (by decide)

/-- The result line is decoded. -/
theorem decodeLine_line (items : Items) :
    decodeLine decodeCbor (listToString items.line) = items.decoded decodeCbor := by
  obtain ⟨text, htext, hline⟩ := items.isLine
  obtain ⟨rfl, _⟩ := List.append_inj' hline rfl
  rw [listToString_line, decodeLine, hline, trimNewlines_line htext,
    List.splitOn_append_cons_self_of_not_mem (space_notMem_encode _),
    List.splitOn_append_cons_self_of_not_mem (space_notMem_encode _),
    List.splitOn_eq_singleton (space_notMem_encode _), Items.decoded]
  simp only [List.mapM_cons, Base64.decode_encode, Option.bind_some, List.mapM_nil]

/-! ## The receiver on the output -/

/-- A message ends where the debug lines end. -/
def CutBefore (lines : List DebugLine) (message : Bytes) (chunks : List Bytes) : Prop :=
  ∃ before after, chunks = before ++ after ∧
    message ++ before.flatten = lines.flatMap DebugLine.bytes

/-- With one message more. -/
theorem cutBefore_cons {lines : List DebugLine} {message : Bytes} (chunk : Bytes)
    (chunks : List Bytes) (hne : message ≠ lines.flatMap DebugLine.bytes) :
    CutBefore lines message (chunk :: chunks) ↔ CutBefore lines (message ++ chunk) chunks := by
  constructor
  · rintro ⟨before, after, hsplit, hflatten⟩
    cases before with
    | nil => exact absurd (by rwa [List.flatten_nil, List.append_nil] at hflatten) hne
    | cons first before =>
        obtain ⟨rfl, rfl⟩ := List.cons.inj hsplit
        exact ⟨before, after, rfl, by rw [List.append_assoc]; exact hflatten⟩
  · rintro ⟨before, after, rfl, hflatten⟩
    exact ⟨chunk :: before, after, rfl, by rw [← hflatten, List.append_assoc]; rfl⟩

/-- Behind some of the lines. -/
theorem cutBefore_append (first rest : List DebugLine) (chunks : List Bytes) :
    CutBefore (first ++ rest) (first.flatMap DebugLine.bytes) chunks ↔
      CutBefore rest [] chunks := by
  simp only [CutBefore, List.flatMap_append, List.append_cancel_left_eq, List.nil_append]

theorem eq_nil_of_flatten {chunks : List Bytes} (hchunks : ∀ chunk ∈ chunks, chunk ≠ [])
    (h : chunks.flatten = []) : chunks = [] :=
  List.eq_nil_iff_forall_not_mem.mpr fun chunk hchunk =>
    hchunks chunk hchunk (List.flatten_eq_nil_iff.mp h chunk hchunk)

/-- What `receive_native` makes of the output, when it has a part of a message
already: it returns the result if some message ends where the debug lines end,
and waits forever if not. -/
theorem receiveFrom_spec (items : Items) {chunks : List Bytes}
    (hchunks : ∀ chunk ∈ chunks, chunk ≠ []) {lines : List DebugLine} {message : Bytes}
    (hmessage : message.getLast? ≠ some newline)
    (h : message ++ chunks.flatten = output lines items) :
    (lines = [] ∨ CutBefore lines message chunks →
      receiveFrom decodeCbor message (chunks.map .data) = items.decoded decodeCbor) ∧
    (¬ (lines = [] ∨ CutBefore lines message chunks) →
      receiveFrom decodeCbor message (chunks.map .data) = .waits) := by
  induction chunks generalizing lines message with
  | nil =>
      rw [List.flatten_nil, List.append_nil] at h
      exact absurd (h ▸ getLast?_output lines items) hmessage
  | cons chunk chunks ih =>
      obtain ⟨hchunk, hrest⟩ := List.forall_mem_cons.mp hchunks
      have hne : lines ≠ [] → message ≠ lines.flatMap DebugLine.bytes := fun hlines heq =>
        hmessage (heq ▸ getLast?_lines hlines)
      have hlast : (message ++ chunk).getLast? = chunk.getLast? :=
        List.getLast?_append_of_ne_nil _ hchunk
      rw [List.flatten_cons, ← List.append_assoc] at h
      by_cases hend : chunk.getLast? = some newline
      · rw [List.map_cons, receiveFrom_last decodeCbor hend]
        obtain ⟨first, rest, rfl, hfirst, htail⟩ | ⟨hall, htail⟩ :=
          output_of_newline h (hlast.trans hend)
        · -- some debug lines, which are dropped
          have hfirst_ne : first ≠ [] := by
            rintro rfl
            exact hchunk (List.append_eq_nil_iff.mp hfirst).2
          have hcut := cutBefore_cons chunk chunks
            (hne (List.append_ne_nil_of_left_ne_nil hfirst_ne rest))
          rw [hfirst, cutBefore_append] at hcut
          have hprefix := isPrefixOf_lines hfirst_ne []
          rw [List.append_nil] at hprefix
          have hiff : first ++ rest = [] ∨ CutBefore (first ++ rest) message (chunk :: chunks) ↔
              rest = [] ∨ CutBefore rest [] chunks := by
            rw [hcut]
            constructor
            · rintro (hnil | hcut)
              · exact .inl (List.append_eq_nil_iff.mp hnil).2
              · exact .inr hcut
            · rintro (rfl | hcut)
              · exact .inr ⟨[], chunks, rfl, rfl⟩
              · exact .inr hcut
          rw [hiff, hfirst, if_pos hprefix]
          exact ih hrest nofun htail
        · -- all of the output
          obtain rfl := eq_nil_of_flatten hrest htail
          rw [hall]
          by_cases hlines : lines = []
          · subst hlines
            refine ⟨fun _ => ?_, fun hcut => absurd (.inl rfl) hcut⟩
            rw [output, List.flatMap_nil, List.nil_append, isPrefixOf_line, if_neg nofun]
            exact decodeLine_line decodeCbor items
          · rw [output, if_pos (isPrefixOf_lines hlines _)]
            refine ⟨?_, fun _ => rfl⟩
            rintro (hnil | hcut)
            · exact absurd hnil hlines
            · obtain ⟨before, after, hsplit, hflatten⟩ := (cutBefore_cons _ _ (hne hlines)).mp hcut
              obtain ⟨rfl, _⟩ := List.append_eq_nil_iff.mp hsplit.symm
              rw [List.flatten_nil, List.append_nil, hall, output] at hflatten
              have hnil := List.append_right_eq_self.mp hflatten
              exact absurd (hnil ▸ getLast?_line items.isLine []) nofun
      · rw [List.map_cons, receiveFrom_part decodeCbor hend]
        have hiff : lines = [] ∨ CutBefore lines message (chunk :: chunks) ↔
            lines = [] ∨ CutBefore lines (message ++ chunk) chunks := by
          by_cases hlines : lines = []
          · simp only [hlines, true_or]
          · rw [cutBefore_cons _ _ (hne hlines)]
        rw [hiff]
        exact ih hrest (hlast ▸ hend) h

/--
**The result is returned exactly where the debug lines end with a message**:
where one of the ends of the messages is the end of the last debug line, or
there is none.
-/
theorem receives_result_iff (lines : List DebugLine) (items : Items) (chunks : List Bytes)
    (hchunks : ∀ chunk ∈ chunks, chunk ≠ [])
    (h : chunks.flatten = output lines items) :
    receiveNative decodeCbor (chunks.map .data) = items.decoded decodeCbor ↔
      ∃ before after, chunks = before ++ after ∧
        before.flatten = lines.flatMap DebugLine.bytes := by
  have hempty : ([] : Bytes).getLast? ≠ some newline := nofun
  have hspec := receiveFrom_spec decodeCbor items hchunks hempty h
  rw [receiveNative_eq]
  constructor
  · intro hdecoded
    by_contra hcut
    have hwaits := hspec.2 (not_or.mpr ⟨fun hlines => hcut ⟨[], chunks, rfl, hlines ▸ rfl⟩, hcut⟩)
    rw [hwaits, Items.decoded, Outcome.ofItems] at hdecoded
    cases hitems : [items.transactions, items.memoryChangeset,
        items.storageChangeset].mapM decodeCbor with
    | none => exact nomatch (hitems ▸ hdecoded)
    | some terms => exact nomatch (hitems ▸ hdecoded)
  · exact fun hcut => hspec.1 (.inr hcut)

end Receiver

def helloLine : DebugLine where
  text := utf8 "WebAssembly log: \"hello\""
  escaped := by decide

/-- A debug line and the result, in one message. -/
theorem result_with_debug_line :
    ¬ ∀ (Term : Type) (decodeCbor : Bytes → Option Term) (lines : List DebugLine)
        (items : Items) (chunks : List Bytes), (∀ chunk ∈ chunks, chunk ≠ []) →
      chunks.flatten = output lines items →
        receiveNative decodeCbor (chunks.map .data) = items.decoded decodeCbor := by
  intro hclaim
  have hdecoded := hclaim Bytes some [helloLine] ⟨[128], [160], [160]⟩
    [output [helloLine] ⟨[128], [160], [160]⟩] (by decide) (by decide)
  rw [receiveNative_eq, List.map_singleton, receiveFrom_last _ (by decide), if_pos (by decide)]
    at hdecoded
  exact absurd hdecoded (by decide)

/-- The same, in three messages. -/
theorem result_after_debug_line :
    receiveNative some [.data (utf8 "debug: WebAsse"), .data (utf8 "mbly log: \"hello\"\n"),
      .data (utf8 "gA== oA== oA==\n")] = .returned [[128], [160], [160]] := by
  exact (receives_result_iff some [helloLine] ⟨[128], [160], [160]⟩
    [utf8 "debug: WebAsse", utf8 "mbly log: \"hello\"\n", utf8 "gA== oA== oA==\n"]
    (by decide) (by decide)).mpr
      ⟨[utf8 "debug: WebAsse", utf8 "mbly log: \"hello\"\n"], _, rfl, by decide⟩

end Ellipticoind.Ports.NativeOutput
