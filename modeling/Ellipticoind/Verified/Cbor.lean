import Ellipticoind.Verified.LittleEndian

/-!
# CBOR

Data items in the binary form of CBOR: written with the shortest heads and
definite lengths, and read with a bound on how deep arrays and maps are nested.
A reader answers the item at the front of the bytes and what follows it.  It
passes over tags, takes indefinite lengths, and widens floats to 64 bits.

## Main results

* `read_write` — a reader that goes deep enough reads what was written, and
  leaves what follows.
-/

namespace Ellipticoind.Verified.Cbor

open LittleEndian

/-- A data item.  A text is its UTF-8 bytes. -/
inductive Item where
  | unsigned (value : Nat)
  /-- The integer `-1 - value`. -/
  | negative (value : Nat)
  | bytes (value : List UInt8)
  | text (value : List UInt8)
  | array (items : List Item)
  | map (entries : List (Item × Item))
  /-- `false`, `true` and `null` are 20, 21 and 22. -/
  | simple (value : Nat)
  | float (bits : Nat)

@[match_pattern] def Item.null : Item := .simple 22

/-! ## Heads -/

/-- The bytes of a number, the most significant one first. -/
def beBytes (width value : Nat) : List UInt8 := (leBytes width value).reverse

def beNat (bytes : List UInt8) : Nat := leNat bytes.reverse

@[simp] theorem length_beBytes (width value : Nat) :
    (beBytes width value).length = width := by
  simp [beBytes]

theorem beNat_beBytes {width value : Nat} (h : value < 256 ^ width) :
    beNat (beBytes width value) = value := by
  rw [beNat, beBytes, List.reverse_reverse, leNat_leBytes, Nat.mod_eq_of_lt h]

/-- The first byte of a head: the major type and what follows. -/
def initialByte (major info : Nat) : UInt8 := UInt8.ofNat (32 * major + info)

/-- How a number of a head is given: itself, or in as many bytes. -/
def info (value : Nat) : Nat :=
  if value < 24 then value
  else if value < 2 ^ 8 then 24
  else if value < 2 ^ 16 then 25
  else if value < 2 ^ 32 then 26
  else 27

/-- The bytes that follow the first one of a head. -/
def width (info : Nat) : Nat := if info < 24 then 0 else 2 ^ (info - 24)

def writeHead (major value : Nat) : List UInt8 :=
  initialByte major (info value) :: beBytes (width (info value)) value

/-- What a head says. -/
structure Head where
  major : Nat
  info : Nat
  value : Nat

/-- The head at the front.  An `info` of 31 says that the length is not given, or breaks
off what has such a length; 28, 29 and 30 are unassigned. -/
def readHead : List UInt8 → Option (Head × List UInt8)
  | [] => none
  | byte :: rest =>
      let info := byte.toNat % 32
      if info < 24 then some (⟨byte.toNat / 32, info, info⟩, rest)
      else if info < 28 ∧ width info ≤ rest.length then
        some (⟨byte.toNat / 32, info, beNat (rest.take (width info))⟩, rest.drop (width info))
      else if info = 31 then some (⟨byte.toNat / 32, info, 0⟩, rest)
      else none

/-- The first head that is of no tag.  There are no more heads than bytes. -/
def readUntagged : Nat → List UInt8 → Option (Head × List UInt8)
  | 0, _ => none
  | fuel + 1, bytes =>
      match readHead bytes with
      | none => none
      | some (head, rest) =>
          if head.major = 6 then
            if head.info = 31 then none else readUntagged fuel rest
          else some (head, rest)

theorem info_lt (value : Nat) : info value < 28 := by
  unfold info
  split_ifs <;> omega

theorem info_eq_of_lt {value : Nat} (h : info value < 24) : info value = value := by
  unfold info at h ⊢
  split_ifs at h ⊢ <;> omega

/-- A number fits into the bytes of its head. -/
theorem lt_width {value : Nat} (hvalue : value < 2 ^ 64) (h : 24 ≤ info value) :
    value < 256 ^ width (info value) := by
  unfold info at h ⊢
  split_ifs at h ⊢ <;> simp [width] <;> omega

theorem toNat_initialByte {major info : Nat} (hmajor : major < 8) (hinfo : info < 32) :
    (initialByte major info).toNat = 32 * major + info := by
  rw [initialByte, UInt8.toNat_ofNat', Nat.mod_eq_of_lt (by omega)]

/-- A head whose number is in the bytes after the first. -/
theorem readHead_long {major info value : Nat} (hmajor : major < 8) (hlong : 24 ≤ info)
    (hinfo : info < 28) (hvalue : value < 256 ^ width info) (rest : List UInt8) :
    readHead (initialByte major info :: (beBytes (width info) value ++ rest)) =
      some (⟨major, info, value⟩, rest) := by
  have hbyte := toNat_initialByte hmajor (hinfo.trans (by decide))
  have hmod : (initialByte major info).toNat % 32 = info := by omega
  have hdiv : (initialByte major info).toNat / 32 = major := by omega
  have hlength := length_beBytes (width info) value
  simp only [readHead, hmod, hdiv]
  rw [if_neg (by omega), if_pos ⟨hinfo, by simp⟩, List.take_left' hlength,
    List.drop_left' hlength, beNat_beBytes hvalue]

/-- A head is read as it was written. -/
theorem readHead_writeHead {major value : Nat} (hmajor : major < 8) (hvalue : value < 2 ^ 64)
    (rest : List UInt8) :
    readHead (writeHead major value ++ rest) = some (⟨major, info value, value⟩, rest) := by
  rw [writeHead, List.cons_append]
  by_cases hsmall : info value < 24
  · have hbyte := toNat_initialByte hmajor (hsmall.trans (by decide))
    have hmod : (initialByte major (info value)).toNat % 32 = info value := by omega
    have hdiv : (initialByte major (info value)).toNat / 32 = major := by omega
    simp only [readHead, hmod, hdiv]
    rw [if_pos hsmall, width, if_pos hsmall, info_eq_of_lt hsmall]
    rfl
  · exact readHead_long hmajor (by omega) (info_lt value) (lt_width hvalue (by omega)) rest

/-- A head that is of no tag is the first such. -/
theorem readUntagged_eq {bytes rest : List UInt8} {head : Head}
    (h : readHead bytes = some (head, rest)) (hmajor : head.major ≠ 6) :
    readUntagged bytes.length bytes = some (head, rest) := by
  cases bytes with
  | nil => cases h
  | cons byte bytes => simp only [List.length_cons, readUntagged, h, if_neg hmajor]

/-! ## Items -/

mutual

def Item.write : Item → List UInt8
  | .unsigned value => writeHead 0 value
  | .negative value => writeHead 1 value
  | .bytes value => writeHead 2 value.length ++ value
  | .text value => writeHead 3 value.length ++ value
  | .array items => writeHead 4 items.length ++ writeItems items
  | .map entries => writeHead 5 entries.length ++ writeEntries entries
  | .simple value => writeHead 7 value
  | .float bits => initialByte 7 27 :: beBytes 8 bits

def writeItems : List Item → List UInt8
  | [] => []
  | item :: items => item.write ++ writeItems items

def writeEntries : List (Item × Item) → List UInt8
  | [] => []
  | (key, item) :: entries => key.write ++ (item.write ++ writeEntries entries)

end

/-- `count` items, one after the other. -/
def readMany {α : Type} (read : List UInt8 → Option (α × List UInt8)) :
    Nat → List UInt8 → Option (List α × List UInt8)
  | 0, bytes => some ([], bytes)
  | count + 1, bytes =>
      match read bytes with
      | none => none
      | some (item, rest) =>
          (readMany read count rest).map fun items => (item :: items.1, items.2)

/-- Items up to a break, of which there are no more than bytes. -/
def readUntilBreak {α : Type} (read : List UInt8 → Option (α × List UInt8)) :
    Nat → List UInt8 → Option (List α × List UInt8)
  | 0, _ => none
  | fuel + 1, bytes =>
      if bytes.head? = some 0xff then some ([], bytes.tail)
      else
        match read bytes with
        | none => none
        | some (item, rest) =>
            (readUntilBreak read fuel rest).map fun items => (item :: items.1, items.2)

/-- As many items as a head says. -/
def readItems {α : Type} (read : List UInt8 → Option (α × List UInt8)) (head : Head)
    (bytes : List UInt8) : Option (List α × List UInt8) :=
  if head.info = 31 then readUntilBreak read bytes.length bytes
  else readMany read head.value bytes

/-- A key and what it stands for. -/
def readEntry {α : Type} (read : List UInt8 → Option (α × List UInt8)) (bytes : List UInt8) :
    Option ((α × α) × List UInt8) :=
  match read bytes with
  | none => none
  | some (key, rest) => (read rest).map fun entry => ((key, entry.1), entry.2)

def readBytes (count : Nat) (bytes : List UInt8) : Option (List UInt8 × List UInt8) :=
  if count ≤ bytes.length then some (bytes.take count, bytes.drop count) else none

/-- The chunk at the front, of a string of that major type. -/
def readChunk (major : Nat) (bytes : List UInt8) : Option (List UInt8 × List UInt8) :=
  match readHead bytes with
  | none => none
  | some (head, rest) =>
      if head.major = major ∧ head.info < 28 then readBytes head.value rest else none

/-- The bytes of a string, which are given in chunks if their length is not. -/
def readString (head : Head) (bytes : List UInt8) : Option (List UInt8 × List UInt8) :=
  if head.info = 31 then
    (readUntilBreak (readChunk head.major) bytes.length bytes).map fun chunks =>
      (chunks.1.flatten, chunks.2)
  else readBytes head.value bytes

/-- The 64 bits of a float that has so many bits for its exponent and its mantissa. -/
def widen (exponentBits mantissaBits bits : Nat) : Nat :=
  let sign := bits / 2 ^ (exponentBits + mantissaBits)
  let exponent := bits / 2 ^ mantissaBits % 2 ^ exponentBits
  let mantissa := bits % 2 ^ mantissaBits
  let bias := 2 ^ (exponentBits - 1) - 1
  let magnitude :=
    if exponent = 2 ^ exponentBits - 1 then
      -- an infinity, or a number that is none, which is made a quiet one
      2047 * 2 ^ 52 +
        if mantissa = 0 then 0 else mantissa * 2 ^ (52 - mantissaBits) ||| 2 ^ 51
    else if exponent = 0 then
      -- a number below the normal ones is normal in 64 bits
      if mantissa = 0 then 0
      else
        (1024 + mantissa.log2 - bias - mantissaBits) * 2 ^ 52 +
          (mantissa - 2 ^ mantissa.log2) * 2 ^ (52 - mantissa.log2)
    else (1023 + exponent - bias) * 2 ^ 52 + mantissa * 2 ^ (52 - mantissaBits)
  sign * 2 ^ 63 + magnitude

/-- The simple value or the float of a head. -/
def readSimple (head : Head) : Option Item :=
  if head.info < 24 then some (.simple head.value)
  else
    match head.info with
    | 25 => some (.float (widen 5 10 head.value))
    | 26 => some (.float (widen 8 23 head.value))
    | 27 => some (.float head.value)
    | _ => none

/-- The item that follows a head, given how the items in it are read. -/
def readBody (read : List UInt8 → Option (Item × List UInt8)) (head : Head)
    (rest : List UInt8) : Option (Item × List UInt8) :=
  match head.major with
  | 0 => if head.info = 31 then none else some (.unsigned head.value, rest)
  | 1 => if head.info = 31 then none else some (.negative head.value, rest)
  | 2 => (readString head rest).map fun value => (.bytes value.1, value.2)
  | 3 => (readString head rest).map fun value => (.text value.1, value.2)
  | 4 => (readItems read head rest).map fun items => (.array items.1, items.2)
  | 5 => (readItems (readEntry read) head rest).map fun entries => (.map entries.1, entries.2)
  | 7 => (readSimple head).map fun item => (item, rest)
  | _ => none

/-- The head is an array's or a map's. -/
def Head.nests (head : Head) : Prop := head.major = 4 ∨ head.major = 5

instance (head : Head) : Decidable head.nests := inferInstanceAs (Decidable (_ ∨ _))

/-- The item at the front, if fewer than `depth` arrays and maps are nested in it. -/
def read : Nat → List UInt8 → Option (Item × List UInt8)
  | 0, _ => none
  | depth + 1, bytes =>
      match readUntagged bytes.length bytes with
      | none => none
      | some (head, rest) =>
          if depth = 0 ∧ head.nests then none else readBody (read depth) head rest

/-- Fewer than so many arrays and maps are nested in the item, and its numbers and
lengths fit into heads. -/
def Item.fits : Nat → Item → Bool
  | 0, _ => false
  | _ + 1, .unsigned value => value < 2 ^ 64
  | _ + 1, .negative value => value < 2 ^ 64
  | _ + 1, .bytes value => value.length < 2 ^ 64
  | _ + 1, .text value => value.length < 2 ^ 64
  | depth + 1, .array items =>
      depth ≠ 0 && (items.length < 2 ^ 64 && items.all (fits depth))
  | depth + 1, .map entries =>
      depth ≠ 0 && (entries.length < 2 ^ 64 &&
        entries.all fun entry => fits depth entry.1 && fits depth entry.2)
  | _ + 1, .simple value => value < 24
  | _ + 1, .float bits => bits < 2 ^ 64

/-! ## Round trip -/

/-- The reader reads what is written of the item. -/
def Reads (read : List UInt8 → Option (Item × List UInt8)) (item : Item) : Prop :=
  ∀ rest, read (item.write ++ rest) = some (item, rest)

theorem readBytes_append (value rest : List UInt8) :
    readBytes value.length (value ++ rest) = some (value, rest) := by
  simp [readBytes]

theorem readMany_writeItems {read : List UInt8 → Option (Item × List UInt8)}
    {items : List Item} (h : ∀ item ∈ items, Reads read item) (rest : List UInt8) :
    readMany read items.length (writeItems items ++ rest) = some (items, rest) := by
  induction items with
  | nil => rfl
  | cons item items ih =>
      have hfirst := h item List.mem_cons_self (writeItems items ++ rest)
      have hrest := ih fun item hitem => h item (List.mem_cons_of_mem _ hitem)
      rw [List.length_cons, writeItems, List.append_assoc, readMany, hfirst]
      simp only [hrest, Option.map_some]

theorem readEntry_write {read : List UInt8 → Option (Item × List UInt8)} {key item : Item}
    (hkey : Reads read key) (hitem : Reads read item) (rest : List UInt8) :
    readEntry read (key.write ++ (item.write ++ rest)) = some ((key, item), rest) := by
  rw [readEntry, hkey]
  simp only [hitem rest, Option.map_some]

theorem readMany_writeEntries {read : List UInt8 → Option (Item × List UInt8)}
    {entries : List (Item × Item)}
    (h : ∀ entry ∈ entries, Reads read entry.1 ∧ Reads read entry.2) (rest : List UInt8) :
    readMany (readEntry read) entries.length (writeEntries entries ++ rest) =
      some (entries, rest) := by
  induction entries with
  | nil => rfl
  | cons entry entries ih =>
      obtain ⟨hkey, hitem⟩ := h entry List.mem_cons_self
      have hfirst := readEntry_write hkey hitem (writeEntries entries ++ rest)
      have hrest := ih fun entry hentry => h entry (List.mem_cons_of_mem _ hentry)
      rw [List.length_cons, writeEntries, List.append_assoc, List.append_assoc, readMany, hfirst]
      simp only [hrest, Option.map_some]

/-- A reader takes the head of an item and goes on with its body. -/
theorem read_head {depth : Nat} {head : Head} {bytes rest : List UInt8}
    (h : readHead bytes = some (head, rest)) (hmajor : head.major ≠ 6)
    (hdepth : depth ≠ 0 ∨ ¬ head.nests) :
    read (depth + 1) bytes = readBody (read depth) head rest := by
  rw [read, readUntagged_eq h hmajor]
  exact if_neg fun hnests => hdepth.elim (· hnests.1) (· hnests.2)

theorem read_writeHead {depth major value : Nat} (hmajor : major < 8) (htag : major ≠ 6)
    (hdepth : depth ≠ 0 ∨ ¬ (major = 4 ∨ major = 5)) (hvalue : value < 2 ^ 64)
    (rest : List UInt8) :
    read (depth + 1) (writeHead major value ++ rest) =
      readBody (read depth) ⟨major, info value, value⟩ rest :=
  read_head (readHead_writeHead hmajor hvalue rest) htag hdepth

/-- The length of what was written is given. -/
theorem info_ne (value : Nat) : info value ≠ 31 :=
  fun h => absurd (info_lt value) (by omega)

/-- **What was written is read**, by every reader that goes as deep as the item
is nested; what follows is left. -/
theorem read_write {depth : Nat} {item : Item} (h : item.fits depth = true) :
    Reads (read depth) item := by
  induction depth generalizing item with
  | zero => cases h
  | succ depth ih =>
      intro rest
      cases item with
      | unsigned value =>
          rw [Item.write,
            read_writeHead (by decide) (by decide) (.inr (by decide)) (of_decide_eq_true h)]
          exact if_neg (info_ne value)
      | negative value =>
          rw [Item.write,
            read_writeHead (by decide) (by decide) (.inr (by decide)) (of_decide_eq_true h)]
          exact if_neg (info_ne value)
      | bytes value =>
          rw [Item.write, List.append_assoc,
            read_writeHead (by decide) (by decide) (.inr (by decide)) (of_decide_eq_true h)]
          simp only [readBody, readString, if_neg (info_ne _), readBytes_append, Option.map_some]
      | text value =>
          rw [Item.write, List.append_assoc,
            read_writeHead (by decide) (by decide) (.inr (by decide)) (of_decide_eq_true h)]
          simp only [readBody, readString, if_neg (info_ne _), readBytes_append, Option.map_some]
      | array items =>
          simp only [Item.fits, Bool.and_eq_true, decide_eq_true_eq, List.all_eq_true] at h
          obtain ⟨hdepth, hlength, hfits⟩ := h
          have hitems := readMany_writeItems (fun item hitem => ih (hfits item hitem)) rest
          rw [Item.write, List.append_assoc,
            read_writeHead (by decide) (by decide) (.inl hdepth) hlength]
          simp only [readBody, readItems, if_neg (info_ne _), hitems, Option.map_some]
      | map entries =>
          simp only [Item.fits, Bool.and_eq_true, decide_eq_true_eq, List.all_eq_true] at h
          obtain ⟨hdepth, hlength, hfits⟩ := h
          have hentries := readMany_writeEntries
            (fun entry hentry => (hfits entry hentry).imp ih ih) rest
          rw [Item.write, List.append_assoc,
            read_writeHead (by decide) (by decide) (.inl hdepth) hlength]
          simp only [readBody, readItems, if_neg (info_ne _), hentries, Option.map_some]
      | simple value =>
          have hvalue : value < 24 := of_decide_eq_true h
          have hinfo : info value < 24 := by rwa [info, if_pos hvalue]
          rw [Item.write, read_writeHead (by decide) (by decide) (.inr (by decide)) (by omega)]
          simp only [readBody, readSimple, if_pos hinfo, Option.map_some]
      | float bits =>
          have hbits : bits < 256 ^ width 27 := of_decide_eq_true h
          have hhead : readHead (initialByte 7 27 :: (beBytes 8 bits ++ rest)) =
              some (⟨7, 27, bits⟩, rest) :=
            readHead_long (by decide) (by decide) (by decide) hbits rest
          have hnests : ¬ (⟨7, 27, bits⟩ : Head).nests := show ¬ (7 = 4 ∨ 7 = 5) by decide
          rw [Item.write, List.cons_append,
            read_head hhead (show 7 ≠ 6 by decide) (.inr hnests)]
          rfl

/-- A tag, an array of no given length, a string in two chunks and a float of 16 bits. -/
example : read 2 [0xc1, 0x9f, 0x5f, 0x41, 1, 0x41, 2, 0xff, 0xf9, 0x3e, 0, 0xff] =
    some (.array [.bytes [1, 2], .float 0x3ff8000000000000], []) := by rfl

end Ellipticoind.Verified.Cbor
