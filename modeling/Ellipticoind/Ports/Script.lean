import Ellipticoind.Ports.Values

/-!
# A concrete platform

`Platform` is a parameter of the virtual machine.  This module supplies one
that can be run: a contract is a table of exported scripts over an initial
linear memory, and the codec is CBOR on the items of fewer than 24 bytes or
elements, where one byte holds the type and the length.
-/

namespace Ellipticoind.Ports.Script

open Ellipticoind.Verified.LittleEndian

/-- One command of a script. -/
inductive Command where
  /-- One metered instruction without an effect. -/
  | instruction
  /-- An imported function is called and its result kept. -/
  | host (index : Nat) (args : List I32)
  /-- The script returns a pointer. -/
  | answer (pointer : I32)
  /-- The script returns the last result kept. -/
  | answerLast
  | trap (kind : TrapKind)

/-- A contract: its exported scripts and its initial linear memory. -/
structure Contract where
  exports : List (String × List Command)
  memory : Bytes

/-- A pointer target: the length of some bytes, then the bytes. -/
def slot (bytes : Bytes) : Bytes := leBytes 4 bytes.length ++ bytes

mutual

/-- CBOR on small items. -/
def encode : Value → Bytes
  | .null => [0xf6]
  | .bool value => [if value then 0xf5 else 0xf4]
  | .integer value =>
      if 0 ≤ value then [UInt8.ofNat value.toNat]
      else [0x20 + UInt8.ofNat (-1 - value).toNat]
  | .float bits => 0xfb :: (leBytes 8 bits.toNat).reverse
  | .bytes value => (0x40 + UInt8.ofNat value.length) :: value
  | .text value => (0x60 + UInt8.ofNat (utf8 value).length) :: utf8 value
  | .array items => (0x80 + UInt8.ofNat items.length) :: encodeAll items
  | .map entries => (0xa0 + UInt8.ofNat entries.length) :: encodeEntries entries

def encodeAll : List Value → Bytes
  | [] => []
  | item :: rest => encode item ++ encodeAll rest

def encodeEntries : List (Value × Value) → Bytes
  | [] => []
  | (key, value) :: rest => encode key ++ encode value ++ encodeEntries rest

end

/-- Decoding of one item that holds no other item. -/
def decode : Bytes → Option Value
  | [0xf6] => some .null
  | [0xf5] => some (.bool true)
  | [0xf4] => some (.bool false)
  | [0x80] => some (.array [])
  | [] => none
  | first :: rest =>
      if first < 0x18 ∧ rest = [] then some (.integer first.toNat)
      else if 0x40 ≤ first ∧ first < 0x58 ∧ rest.length = (first - 0x40).toNat then
        some (.bytes rest)
      else none

/-- The platform whose modules are the given contracts, under their code. -/
def platform (contracts : List (Bytes × Contract)) : Platform where
  Globals := List (String × List Command)
  Act := List Command × Option RuntimeValue
  load code := (contracts.lookup code).map fun contract =>
    ({ globals := contract.exports, memory := .memory contract.memory }, none)
  invokeExport inst name _ :=
    match inst.globals.lookup name with
    | some script => .ok (script, none)
    | none => .error .error
  step act inst :=
    match act with
    | ([], last) => .finished last
    | (.instruction :: rest, last) => .instruction (rest, last) inst
    | (.host index args :: rest, _) => .host index args fun result => (rest, result)
    | (.answer pointer :: _, _) => .finished (some (.i32 pointer))
    | (.answerLast :: _, last) => .finished last
    | (.trap kind :: _, _) => .trap kind
  toVec := encode
  fromSlice := decode
  overflowChecks := true
  stackFits stack := decide (stack.length ≤ 1000)

/-- A changeset that holds the code of some contracts under their addresses. -/
def deployed (codes : List (Bytes × Bytes)) : Finmap fun _ : Bytes => Bytes :=
  codes.foldl (fun changeset entry =>
    changeset.insert (rightPadVec entry.1 64 0) entry.2) ∅

end Ellipticoind.Ports.Script
