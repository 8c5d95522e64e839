import Ellipticoind.Ports.Redis

/-!
# Versions of the state by block

`block_index.ex`, `memory.ex` and `storage.ex` of the node.  Every key of the
memory and of the storage has a list of the block numbers it was written at,
the newest first, and a hash from block numbers to positions in that list.
`revert_to` cuts the lists back to a block number by these positions.

## Main results

* `blockIndexKey_ne_indexKey` — a list and an index hash share a Redis key only
  for keys that differ by `_index` at the end.
* `add_spec` — what `add` does where it can read the two.
* `writeEach_eq_ok` — what a changeset's writes leave behind when one raises, and
  that it is `write_changeset` when none does.
-/

namespace Ellipticoind.Ports

open Ellipticoind.Verified.LittleEndian

/-- The two databases of the node. -/
structure Stores where
  redis : Redis
  rocksdb : RocksDB

/-- What ends an Elixir process here. -/
inductive Raise where
  /-- `{:ok, value} = ` on an error of Redis, and the exit of the call. -/
  | matchError
  /-- `String.to_integer(nil)`. -/
  | argumentError
  deriving DecidableEq

/-- The handlers of `redis.ex` that match on `{:ok, value}`. -/
def matchOk {α : Type} : Except RedisError α → Except Raise α
  | .ok value => .ok value
  | .error _ => .error .matchError

/-- The handlers that drop the reply, errors included. -/
def dropReply (r : Redis) : Except RedisError Redis → Redis
  | .ok r' => r'
  | .error _ => r

/-- `"#{prefix}:#{key}_index"`. -/
def indexKey (statePrefix : StateType) (key : Bytes) : Bytes :=
  blockIndexKey statePrefix key ++ utf8 "_index"

def memoryKeys : Bytes := utf8 "memory_keys"

/-- `String.to_integer`, on a reply. -/
def toInteger : Option Item → Except Raise Nat
  | some (.int n) => .ok n
  | _ => .error .argumentError

namespace BlockIndex

/-- `add`.  The position is the length before the push. -/
def add (redis : Redis) (statePrefix : StateType) (key : Bytes) (blockNumber : Nat) :
    Except Raise Redis := do
  let redis := dropReply redis
    (redis.lpush (blockIndexKey statePrefix key) (.int blockNumber))
  let length ← matchOk (redis.llen (blockIndexKey statePrefix key))
  return dropReply redis
    (redis.hset (indexKey statePrefix key) (.int blockNumber) (.int (length - 1)))

/-- `get_latest`. -/
def getLatest (redis : Redis) (statePrefix : StateType) (key : Bytes) :
    Except Raise (Option Nat) := do
  match ← matchOk (redis.lrange (blockIndexKey statePrefix key) 0 0) with
  | [blockNumber] => return some (← toInteger (some blockNumber))
  | _ => return none

/-- One round of the loop of `revert_to`. -/
def revertKey (statePrefix : StateType) (blockNumber : Nat) (redis : Redis)
    (key : Bytes) : Except Raise Redis := do
  let indexOfKey ← matchOk (redis.hget (indexKey statePrefix key) (.int blockNumber))
  let index ← toInteger indexOfKey
  matchOk (redis.ltrim (blockIndexKey statePrefix key) (-1 - index) (-1))

/-- `revert_to`.  The keys are those of the memory, whatever the prefix. -/
def revertTo (s : Stores) (statePrefix : StateType) (blockNumber : Nat) :
    Except Raise Stores := do
  let keys ← matchOk (s.redis.smembers memoryKeys)
  let redis ← keys.foldlM (revertKey statePrefix blockNumber) s.redis
  return { s with redis := redis }

end BlockIndex

namespace Stores

/-- The answer of a `get`. -/
inductive Answer where
  /-- `[]`: the key has no block. -/
  | unset
  | nil
  | value (bytes : Bytes)
  deriving DecidableEq

/-- `Memory.set`. -/
def memorySet (s : Stores) (blockNumber : Nat) (key value : Bytes) :
    Except Raise Stores := do
  let redis ← BlockIndex.add s.redis .memory key blockNumber
  let redis ← matchOk (redis.sadd memoryKeys key)
  let redis := dropReply redis (redis.hset (utf8 "memory")
    (.bytes (hashKey blockNumber key)) (.bytes value))
  return { s with redis := redis }

/-- `Storage.set`. -/
def storageSet (s : Stores) (blockNumber : Nat) (key value : Bytes) :
    Except Raise Stores := do
  let redis ← BlockIndex.add s.redis .storage key blockNumber
  return { redis := redis, rocksdb := s.rocksdb.insert (hashKey blockNumber key) value }

/-- `Memory.set` or `Storage.set`. -/
def set (s : Stores) : StateType → Nat → Bytes → Bytes → Except Raise Stores
  | .memory => s.memorySet
  | .storage => s.storageSet

/-- `write_changeset`. -/
def writeChangeset (s : Stores) (kind : StateType) (changeset : List (Bytes × Bytes))
    (blockNumber : Nat) : Except Raise Stores :=
  changeset.foldlM (fun s entry => s.set kind blockNumber entry.1 entry.2) s

/-- `Memory.get`. -/
def memoryGet (s : Stores) (key : Bytes) : Except Raise Answer := do
  match ← BlockIndex.getLatest s.redis .memory key with
  | none => return .unset
  | some blockNumber =>
      match ← matchOk (s.redis.hget (utf8 "memory") (.bytes (hashKey blockNumber key))) with
      | some (.bytes value) => return .value value
      | _ => return .nil

/-- `Storage.get`.  The native process answers the byte 123 for a key it does
not have. -/
def storageGet (s : Stores) (key : Bytes) : Except Raise Answer := do
  match ← BlockIndex.getLatest s.redis .storage key with
  | none => return .unset
  | some blockNumber =>
      return .value ((s.rocksdb.lookup (hashKey blockNumber key)).getD [123])

/-- `Memory.get` or `Storage.get`. -/
def get (s : Stores) : StateType → Bytes → Except Raise Answer
  | .memory => s.memoryGet
  | .storage => s.storageGet

end Stores

/-! ## Writes and reverts -/

/-- What the node does to its state between two reads. -/
inductive StoreOp where
  | write (kind : StateType) (blockNumber : Nat) (changeset : List (Bytes × Bytes))
  | revert (kind : StateType) (blockNumber : Nat)

def Stores.step (s : Stores) : StoreOp → Except Raise Stores
  | .write kind blockNumber changeset => s.writeChangeset kind changeset blockNumber
  | .revert kind blockNumber => BlockIndex.revertTo s kind blockNumber

def Stores.run (s : Stores) (ops : List StoreOp) : Except Raise Stores :=
  ops.foldlM Stores.step s

def Stores.empty : Stores where
  redis := ∅
  rocksdb := ∅

/-! ## Writes that raise -/

/-- `add`, with what it has done when it raises. -/
def BlockIndex.addTo (redis : Redis) (statePrefix : StateType) (key : Bytes)
    (blockNumber : Nat) : Redis × Bool :=
  let pushed := dropReply redis
    (redis.lpush (blockIndexKey statePrefix key) (.int blockNumber))
  match pushed.llen (blockIndexKey statePrefix key) with
  | .ok length =>
      (dropReply pushed
        (pushed.hset (indexKey statePrefix key) (.int blockNumber) (.int (length - 1))),
        true)
  | .error _ => (pushed, false)

namespace Stores

/-- `Memory.set` or `Storage.set`, with what it has done when it raises. -/
def setTo (s : Stores) (kind : StateType) (blockNumber : Nat) (key value : Bytes) :
    Stores × Bool :=
  let added := BlockIndex.addTo s.redis kind key blockNumber
  if added.2 then
    match kind with
    | .memory =>
        match added.1.sadd memoryKeys key with
        | .ok redis =>
            ({ s with
              redis := dropReply redis (redis.hset (utf8 "memory")
                (.bytes (hashKey blockNumber key)) (.bytes value)) }, true)
        | .error _ => ({ s with redis := added.1 }, false)
    | .storage =>
        ({ redis := added.1, rocksdb := s.rocksdb.insert (hashKey blockNumber key) value },
          true)
  else ({ s with redis := added.1 }, false)

/-- `write_changeset` of one kind, up to the first write that raises; whether
it got to the end. -/
def writeEach (kind : StateType) (blockNumber : Nat) :
    Stores → List (Bytes × Bytes) → Stores × Bool
  | s, [] => (s, true)
  | s, e :: rest =>
      let written := s.setTo kind blockNumber e.1 e.2
      if written.2 then writeEach kind blockNumber written.1 rest else written

end Stores

theorem add_eq_ok {r r' : Redis} {kind : StateType} {key : Bytes} {n : Nat} :
    BlockIndex.add r kind key n = .ok r' ↔ BlockIndex.addTo r kind key n = (r', true) := by
  unfold BlockIndex.add BlockIndex.addTo
  cases hlength : (dropReply r (r.lpush (blockIndexKey kind key) (.int n))).llen
      (blockIndexKey kind key) with
  | error e => simp [hlength, matchOk, bind, Except.bind]
  | ok length => simp [hlength, matchOk, bind, Except.bind, pure, Except.pure]

theorem set_eq_ok {s s' : Stores} {kind : StateType} {n : Nat} {key value : Bytes} :
    s.set kind n key value = .ok s' ↔ s.setTo kind n key value = (s', true) := by
  unfold Stores.setTo
  cases hadd : BlockIndex.addTo s.redis kind key n with
  | mk redis complete =>
      cases complete with
      | false =>
          have hraises : ∀ redis', BlockIndex.add s.redis kind key n ≠ .ok redis' := by
            intro redis' hok
            cases hadd.symm.trans (add_eq_ok.mp hok)
          cases hresult : BlockIndex.add s.redis kind key n with
          | ok redis' => exact absurd hresult (hraises redis')
          | error e =>
              cases kind <;>
                simp [Stores.set, Stores.memorySet, Stores.storageSet, hresult, bind,
                  Except.bind]
      | true =>
          have hok := add_eq_ok.mpr hadd
          cases kind with
          | memory =>
              cases hsadd : redis.sadd memoryKeys key <;>
                simp [Stores.set, Stores.memorySet, hok, hsadd, matchOk, bind, Except.bind,
                  pure, Except.pure]
          | storage =>
              simp [Stores.set, Stores.storageSet, hok, bind, Except.bind, pure, Except.pure]

theorem writeEach_eq_ok {s s' : Stores} {kind : StateType} {n : Nat}
    {entries : List (Bytes × Bytes)} :
    s.writeChangeset kind entries n = .ok s' ↔
      Stores.writeEach kind n s entries = (s', true) := by
  induction entries generalizing s with
  | nil => simp [Stores.writeChangeset, Stores.writeEach, pure, Except.pure]
  | cons e rest ih =>
      unfold Stores.writeChangeset Stores.writeEach
      rw [List.foldlM_cons]
      cases hset : s.setTo kind n e.1 e.2 with
      | mk written complete =>
          cases complete with
          | true =>
              rw [set_eq_ok.mpr hset]
              exact ih
          | false =>
              cases hresult : s.set kind n e.1 e.2 with
              | ok s₁ => cases hset.symm.trans (set_eq_ok.mp hresult)
              | error e => simp [bind, Except.bind]

/-! ## The keys in Redis -/

theorem utf8_memory : utf8 "memory" = [109, 101, 109, 111, 114, 121] := by rfl

theorem utf8_storage : utf8 "storage" = [115, 116, 111, 114, 97, 103, 101] := by rfl

theorem utf8_colon : utf8 ":" = [58] := by rfl

theorem utf8_memory_keys :
    memoryKeys = [109, 101, 109, 111, 114, 121, 95, 107, 101, 121, 115] := by rfl

/-- The first seven bytes tell the kinds of keys apart. -/
theorem take_blockIndexKey (kind : StateType) (key rest : Bytes) :
    (blockIndexKey kind key ++ rest).take 7 =
      match kind with
      | .memory => [109, 101, 109, 111, 114, 121, 58]
      | .storage => [115, 116, 111, 114, 97, 103, 101] := by
  cases kind <;>
    simp [blockIndexKey, stateTypeToString, utf8_memory, utf8_storage, utf8_colon]

theorem blockIndexKey_inj {kind kind' : StateType} {key key' : Bytes}
    (h : blockIndexKey kind key = blockIndexKey kind' key') :
    kind = kind' ∧ key = key' := by
  have htake := congrArg (fun bytes => (bytes ++ []).take 7) h
  simp only [take_blockIndexKey] at htake
  cases kind <;> cases kind' <;> simp at htake
  · exact ⟨rfl, List.append_cancel_left h⟩
  · exact ⟨rfl, List.append_cancel_left h⟩

theorem indexKey_inj {kind kind' : StateType} {key key' : Bytes}
    (h : indexKey kind key = indexKey kind' key') : kind = kind' ∧ key = key' :=
  blockIndexKey_inj (List.append_cancel_right h)

/-- No key of the set is another one with `_index` at its end. -/
def Separated (K : Bytes → Prop) : Prop :=
  ∀ key key', K key → K key' → key ≠ key' ++ utf8 "_index"

theorem blockIndexKey_ne_indexKey {K : Bytes → Prop} (hK : Separated K)
    {kind kind' : StateType} {key key' : Bytes} (hkey : K key) (hkey' : K key') :
    blockIndexKey kind key ≠ indexKey kind' key' := by
  intro h
  have happend : indexKey kind' key' = blockIndexKey kind' (key' ++ utf8 "_index") := by
    simp [indexKey, blockIndexKey]
  exact hK key key' hkey hkey' (blockIndexKey_inj (h.trans happend)).2

theorem blockIndexKey_ne (kind : StateType) (key rest : Bytes) :
    blockIndexKey kind key ++ rest ≠ utf8 "memory" ∧
      blockIndexKey kind key ++ rest ≠ memoryKeys := by
  constructor <;> intro h <;> have htake := congrArg (List.take 7) h <;>
    rw [take_blockIndexKey] at htake <;> cases kind <;>
    simp [utf8_memory, utf8_memory_keys] at htake

/-- A block number and a key are told apart by the key under which a value is
kept, for block numbers that fit their eight bytes. -/
theorem hashKey_inj {n m : Nat} {key key' : Bytes} (hn : n < 2 ^ 64) (hm : m < 2 ^ 64)
    (h : hashKey n key = hashKey m key') : n = m ∧ key = key' := by
  obtain ⟨hnumber, hkey⟩ := List.append_inj h (by simp [u64ToVec])
  exact ⟨leBytes_inj (by simpa using hn) (by simpa using hm) hnumber, hkey⟩

/-! ## Adding a block number -/

theorem blockIndexKey_ne_own_indexKey (kind : StateType) (key : Bytes) :
    blockIndexKey kind key ≠ indexKey kind key := by
  intro heq
  have hlength := congrArg List.length heq
  rw [indexKey, List.length_append] at hlength
  have : (utf8 "_index").length = 6 := by rfl
  omega

/-- `add`, where the list and the index hash of the key can be read. -/
theorem add_spec {r : Redis} {kind : StateType} {key : Bytes} {items : List Item}
    {fields : Finmap fun _ : Item => Item} (n : Nat)
    (hlist : r.list (blockIndexKey kind key) = .ok items)
    (hhash : r.hash (indexKey kind key) = .ok fields) :
    ∃ r', BlockIndex.add r kind key n = .ok r' ∧
      r'.list (blockIndexKey kind key) = .ok (.int n :: items) ∧
      r'.hash (indexKey kind key) = .ok (fields.insert (.int n) (.int items.length)) ∧
      ∀ k, k ≠ blockIndexKey kind key → k ≠ indexKey kind key →
        r'.lookup k = r.lookup k := by
  have hne := blockIndexKey_ne_own_indexKey kind key
  obtain ⟨r₁, hpush, hlist₁, hframe₁⟩ := Redis.lpush_spec (.int n) hlist
  have hhash₁ : r₁.hash (indexKey kind key) = .ok fields :=
    (Redis.hash_congr (hframe₁ _ hne.symm)).trans hhash
  obtain ⟨r₂, hset, hhash₂, hframe₂⟩ :=
    Redis.hset_spec (.int n) (.int items.length) hhash₁
  have hlength : r₁.llen (blockIndexKey kind key) = .ok (items.length + 1) := by
    rw [Redis.llen, hlist₁]
    rfl
  refine ⟨r₂, ?_, ?_, hhash₂, fun k hlist hindex => ?_⟩
  · simp [BlockIndex.add, hpush, dropReply, hlength, matchOk, hset, bind, Except.bind,
      pure, Except.pure]
  · exact (Redis.list_congr (hframe₂ _ hne)).trans hlist₁
  · exact (hframe₂ k hindex).trans (hframe₁ k hlist)

end Ellipticoind.Ports
