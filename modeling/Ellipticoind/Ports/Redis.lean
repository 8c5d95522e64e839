import Mathlib.Data.Finmap
import Ellipticoind.Verified.LittleEndian

/-!
# The Redis store

Redis keeps one typed value under each key.  A command on a key of another
type answers `WRONGTYPE` and changes nothing; a command on a missing key acts
on the empty value of its type.

Block numbers and list positions are written by the client as decimal text
and parsed back on reading; here they stay numbers (`Item.int`).
-/

namespace Ellipticoind.Ports

open Ellipticoind.Verified.LittleEndian

/-- A byte string of any of the languages involved. -/
abbrev Bytes := List UInt8

/-- The UTF-8 bytes of a text, as in the source's string literals. -/
def utf8 (text : String) : Bytes := text.toUTF8.data.toList

/-- One string kept by Redis, inside a list or a hash. -/
inductive Item where
  | bytes (value : Bytes)
  | int (value : Nat)
  deriving DecidableEq

/-- The text of a decimal number is not a byte string of the program's own. -/
def Item.asBytes : Item → Option Bytes
  | .bytes value => some value
  | .int _ => none

/-- Parsing an item as a `u64`. -/
def Item.asU64 : Item → Option Nat
  | .bytes _ => none
  | .int value => if value < 2 ^ 64 then some value else none

/-- The value under one key.  A set keeps its members in the order in which
`SMEMBERS` answers them. -/
inductive RedisValue where
  | list (items : List Item)
  | hash (fields : Finmap fun _ : Item => Item)
  | set (members : List Bytes)

/-- `WRONGTYPE Operation against a key holding the wrong kind of value`. -/
inductive RedisError where
  | wrongType
  deriving DecidableEq

/-- The keys of one Redis database. -/
abbrev Redis := Finmap fun _ : Bytes => RedisValue

namespace Redis

/-- The list under a key. -/
def list (r : Redis) (key : Bytes) : Except RedisError (List Item) :=
  match r.lookup key with
  | none => .ok []
  | some (.list items) => .ok items
  | some _ => .error .wrongType

/-- The hash under a key. -/
def hash (r : Redis) (key : Bytes) :
    Except RedisError (Finmap fun _ : Item => Item) :=
  match r.lookup key with
  | none => .ok ∅
  | some (.hash fields) => .ok fields
  | some _ => .error .wrongType

/-- The part of a list between two positions, both included; a negative
position counts from the end. -/
def slice {α : Type} (items : List α) (start stop : Int) : List α :=
  let first := if start < 0 then start + items.length else start
  let last := if stop < 0 then stop + items.length else stop
  (items.take (last + 1).toNat).drop first.toNat

/-- `LRANGE key start stop`. -/
def lrange (r : Redis) (key : Bytes) (start stop : Int) :
    Except RedisError (List Item) :=
  (r.list key).map fun items => slice items start stop

/-- `LPUSH key value`. -/
def lpush (r : Redis) (key : Bytes) (value : Item) : Except RedisError Redis :=
  (r.list key).map fun items => r.insert key (.list (value :: items))

/-- `LLEN key`. -/
def llen (r : Redis) (key : Bytes) : Except RedisError Nat :=
  (r.list key).map List.length

/-- `LTRIM key start stop`.  A list left empty is removed with its key. -/
def ltrim (r : Redis) (key : Bytes) (start stop : Int) :
    Except RedisError Redis :=
  (r.list key).map fun items =>
    match slice items start stop with
    | [] => r.erase key
    | kept => r.insert key (.list kept)

/-- `HGET key field`. -/
def hget (r : Redis) (key : Bytes) (field : Item) :
    Except RedisError (Option Item) :=
  (r.hash key).map fun fields => fields.lookup field

/-- `HSET key field value`. -/
def hset (r : Redis) (key : Bytes) (field value : Item) :
    Except RedisError Redis :=
  (r.hash key).map fun fields => r.insert key (.hash (fields.insert field value))

/-- `SMEMBERS key`. -/
def smembers (r : Redis) (key : Bytes) : Except RedisError (List Bytes) :=
  match r.lookup key with
  | none => .ok []
  | some (.set members) => .ok members
  | some _ => .error .wrongType

/-- `SADD key member`. -/
def sadd (r : Redis) (key member : Bytes) : Except RedisError Redis :=
  (r.smembers key).map fun members =>
    r.insert key (.set (if member ∈ members then members else members ++ [member]))

/-! ### What the writing commands do

Each is described by the value it leaves under its key; all other keys keep
theirs. -/

theorem list_congr {r r' : Redis} {key : Bytes} (h : r'.lookup key = r.lookup key) :
    r'.list key = r.list key := by
  unfold list
  rw [h]

theorem hash_congr {r r' : Redis} {key : Bytes} (h : r'.lookup key = r.lookup key) :
    r'.hash key = r.hash key := by
  unfold hash
  rw [h]

theorem smembers_congr {r r' : Redis} {key : Bytes}
    (h : r'.lookup key = r.lookup key) : r'.smembers key = r.smembers key := by
  unfold smembers
  rw [h]

theorem lpush_spec {r : Redis} {key : Bytes} {items : List Item} (value : Item)
    (h : r.list key = .ok items) :
    ∃ r', r.lpush key value = .ok r' ∧ r'.list key = .ok (value :: items) ∧
      ∀ k, k ≠ key → r'.lookup k = r.lookup k := by
  refine ⟨r.insert key (.list (value :: items)), ?_, ?_, fun k hk => ?_⟩
  · simp [lpush, h, Except.map]
  · simp [list]
  · exact Finmap.lookup_insert_of_ne r hk

theorem ltrim_spec {r : Redis} {key : Bytes} {items : List Item} (start stop : Int)
    (h : r.list key = .ok items) :
    ∃ r', r.ltrim key start stop = .ok r' ∧
      r'.list key = .ok (slice items start stop) ∧
      ∀ k, k ≠ key → r'.lookup k = r.lookup k := by
  cases hslice : slice items start stop with
  | nil =>
      refine ⟨r.erase key, ?_, ?_, fun k hk => ?_⟩
      · simp [ltrim, h, Except.map, hslice]
      · simp [list]
      · exact Finmap.lookup_erase_ne hk
  | cons item rest =>
      refine ⟨r.insert key (.list (item :: rest)), ?_, ?_, fun k hk => ?_⟩
      · simp [ltrim, h, Except.map, hslice]
      · simp [list]
      · exact Finmap.lookup_insert_of_ne r hk

theorem hset_spec {r : Redis} {key : Bytes} {fields : Finmap fun _ : Item => Item}
    (field value : Item) (h : r.hash key = .ok fields) :
    ∃ r', r.hset key field value = .ok r' ∧
      r'.hash key = .ok (fields.insert field value) ∧
      ∀ k, k ≠ key → r'.lookup k = r.lookup k := by
  refine ⟨r.insert key (.hash (fields.insert field value)), ?_, ?_, fun k hk => ?_⟩
  · simp [hset, h, Except.map]
  · simp [hash]
  · exact Finmap.lookup_insert_of_ne r hk

theorem sadd_spec {r : Redis} {key : Bytes} {members : List Bytes} (member : Bytes)
    (h : r.smembers key = .ok members) :
    ∃ r', r.sadd key member = .ok r' ∧
      r'.smembers key =
        .ok (if member ∈ members then members else members ++ [member]) ∧
      ∀ k, k ≠ key → r'.lookup k = r.lookup k := by
  refine ⟨r.insert key
    (.set (if member ∈ members then members else members ++ [member])), ?_, ?_,
    fun k hk => ?_⟩
  · simp [sadd, h, Except.map]
  · simp [smembers]
  · exact Finmap.lookup_insert_of_ne r hk

/-- `LTRIM key (-1 - position) -1` keeps the last `position + 1` items. -/
theorem slice_last {α : Type} (items : List α) (position : Nat) :
    slice items (-1 - position) (-1) = items.drop (items.length - (position + 1)) := by
  have hstart : (-1 - (position : Int)) < 0 := by omega
  have hlast : (-1 + (items.length : Int) + 1).toNat = items.length := by omega
  have hfirst : (-1 - (position : Int) + items.length).toNat =
      items.length - (position + 1) := by omega
  simp only [slice, hstart, if_true, show (-1 : Int) < 0 by omega, hlast, hfirst,
    List.take_length]

end Redis

/-- The RocksDB database. -/
abbrev RocksDB := Finmap fun _ : Bytes => Bytes

/-! ## Keys -/

/-- `StateType` of `memory.rs` and `storage.rs`. -/
inductive StateType where
  | memory
  | storage
  deriving DecidableEq

/-- `state_type_to_string`. -/
def stateTypeToString : StateType → Bytes
  | .memory => utf8 "memory"
  | .storage => utf8 "storage"

/-- The key of the list of block numbers at which `key` was written. -/
def blockIndexKey (stateType : StateType) (key : Bytes) : Bytes :=
  stateTypeToString stateType ++ utf8 ":" ++ key

/-- `u64_to_vec`. -/
def u64ToVec (n : Nat) : Bytes := leBytes 8 n

/-- The key under which the value written at one block is kept. -/
def hashKey (blockNumber : Nat) (key : Bytes) : Bytes :=
  u64ToVec blockNumber ++ key

/-- `right_pad_vec`. -/
def rightPadVec {α : Type} (vec : List α) (len : Nat) (pad : α) : List α :=
  vec ++ List.replicate (len - vec.length) pad

end Ellipticoind.Ports
