import Ellipticoind.Ports.Script
import Ellipticoind.Verified.Cbor

/-!
# Values in CBOR

`serde_cbor` on `Value`: `serdeToVec` writes definite lengths and the shortest heads, and
`serdeFromSlice` reads one value, in which fewer than 128 arrays and maps are nested, with
nothing after it.  A float is written with all its 64 bits, where the crate writes fewer if
nothing is lost; the entries of a map stand as they come, where the crate sorts them.

## Main results

* `serdeFromSlice_serdeToVec` — a value is read as it was written, if the reader gets
  through it.
-/

namespace Ellipticoind.Ports

open Ellipticoind.Verified

/-! ## Items -/

mutual

/-- The item a value is written as. -/
def Value.toItem : Value → Cbor.Item
  | .null => .null
  | .bool value => .simple (if value then 21 else 20)
  | .integer value =>
      if 0 ≤ value then .unsigned value.toNat else .negative (-1 - value).toNat
  | .float bits => .float bits.toNat
  | .bytes value => .bytes value
  | .text value => .text (utf8 value)
  | .array items => .array (Value.toItems items)
  | .map entries => .map (Value.toEntries entries)

def Value.toItems : List Value → List Cbor.Item
  | [] => []
  | value :: rest => value.toItem :: Value.toItems rest

def Value.toEntries : List (Value × Value) → List (Cbor.Item × Cbor.Item)
  | [] => []
  | (key, value) :: rest => (key.toItem, value.toItem) :: Value.toEntries rest

end

mutual

/-- The value an item is read as.  A text has to be UTF-8, and `undefined` is read as
`null`. -/
def Value.ofItem : Cbor.Item → Option Value
  | .unsigned value => some (.integer value)
  | .negative value => some (.integer (-1 - value))
  | .bytes value => some (.bytes value)
  | .text value => (strFromUtf8 value).map .text
  | .array items => (Value.ofItems items).map .array
  | .map entries => (Value.ofEntries entries).map .map
  | .simple 20 => some (.bool false)
  | .simple 21 => some (.bool true)
  | .simple 22 => some .null
  | .simple 23 => some .null
  | .simple _ => none
  | .float bits => some (.float (UInt64.ofNat bits))

def Value.ofItems : List Cbor.Item → Option (List Value)
  | [] => some []
  | item :: rest =>
      match Value.ofItem item, Value.ofItems rest with
      | some value, some values => some (value :: values)
      | _, _ => none

def Value.ofEntries : List (Cbor.Item × Cbor.Item) → Option (List (Value × Value))
  | [] => some []
  | (key, item) :: rest =>
      match Value.ofItem key, Value.ofItem item, Value.ofEntries rest with
      | some key, some value, some entries => some ((key, value) :: entries)
      | _, _, _ => none

end

mutual

theorem Value.ofItem_toItem : ∀ value : Value, Value.ofItem value.toItem = some value
  | .null => rfl
  | .bool true => rfl
  | .bool false => rfl
  | .integer value => by
      unfold Value.toItem
      split
      · have hback : (value.toNat : Int) = value := by omega
        rw [Value.ofItem, hback]
      · have hback : -1 - ((-1 - value).toNat : Int) = value := by omega
        rw [Value.ofItem, hback]
  | .float bits => by
      rw [Value.toItem, Value.ofItem, UInt64.ofNat_toNat]
  | .bytes value => rfl
  | .text value => by
      rw [Value.toItem, Value.ofItem, strFromUtf8_utf8]
      rfl
  | .array items => by
      rw [Value.toItem, Value.ofItem, Value.ofItems_toItems items]
      rfl
  | .map entries => by
      rw [Value.toItem, Value.ofItem, Value.ofEntries_toEntries entries]
      rfl

theorem Value.ofItems_toItems :
    ∀ values : List Value, Value.ofItems (Value.toItems values) = some values
  | [] => rfl
  | value :: rest => by
      rw [Value.toItems, Value.ofItems, Value.ofItem_toItem value, Value.ofItems_toItems rest]

theorem Value.ofEntries_toEntries :
    ∀ entries : List (Value × Value), Value.ofEntries (Value.toEntries entries) = some entries
  | [] => rfl
  | (key, value) :: rest => by
      rw [Value.toEntries, Value.ofEntries, Value.ofItem_toItem key, Value.ofItem_toItem value,
        Value.ofEntries_toEntries rest]

end

/-! ## Bytes -/

/-- `serde_cbor::to_vec`. -/
def serdeToVec (value : Value) : Bytes := value.toItem.write

/-- `serde_cbor::from_slice`. -/
def serdeFromSlice (bytes : Bytes) : Option Value :=
  match Cbor.read 128 bytes with
  | some (item, []) => Value.ofItem item
  | _ => none

/-- A value is read as it was written, if the reader goes deep enough and its numbers and
lengths fit into heads. -/
theorem serdeFromSlice_serdeToVec {value : Value} (h : value.toItem.fits 128 = true) :
    serdeFromSlice (serdeToVec value) = some value := by
  have hread := Cbor.read_write h []
  rw [List.append_nil] at hread
  rw [serdeFromSlice, serdeToVec, hread]
  exact value.ofItem_toItem

/-- The scripts with this codec. -/
def Script.cborPlatform (contracts : List (Bytes × Script.Contract)) : Platform :=
  { Script.platform contracts with
    toVec := serdeToVec
    fromSlice := serdeFromSlice }

end Ellipticoind.Ports
