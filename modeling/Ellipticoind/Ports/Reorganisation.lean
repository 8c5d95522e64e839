import Ellipticoind.Ports.BlockIndex
import Ellipticoind.Verified.Descending

/-!
# Reverting to an earlier block

The node's stores, seen as the writes that have not been reverted.  A write
goes on top of the history, a revert to a block number drops the writes above
it, and a read answers the last write that is left.  `Represents` connects the
two: as long as keys do not collide in Redis and every revert finds the
positions it needs, the stores hold what the history says.

## Main results

* `represents_step` — one write or revert, on the stores and on the history.
* `trims_of_written` — a revert to a block that every key was written at finds
  what it needs.
* `revert_restores` — when reverting restores what was there.
-/

namespace Ellipticoind.Ports

open Ellipticoind.Verified.Descending

/-! ## What they stand for -/

/-- One write that has not been reverted. -/
structure Entry where
  blockNumber : Nat
  key : Bytes
  value : Bytes

/-- The writes to the memory and to the storage that have not been reverted,
the newest first. -/
abbrev History := StateType → List Entry

namespace History

def push (h : History) (kind : StateType) (e : Entry) : History := fun kind' =>
  if kind' = kind then e :: h kind' else h kind'

def revert (h : History) (kind : StateType) (blockNumber : Nat) : History :=
  fun kind' =>
    if kind' = kind then (h kind').filter fun e => e.blockNumber ≤ blockNumber
    else h kind'

/-- A block's writes go on top; a revert to a block number drops every write
with a larger one. -/
def apply (h : History) : StoreOp → History
  | .write kind blockNumber changeset =>
      changeset.foldl (fun h e => h.push kind ⟨blockNumber, e.1, e.2⟩) h
  | .revert kind blockNumber => h.revert kind blockNumber

def run (ops : List StoreOp) : History := ops.foldl apply fun _ => []

/-- The writes of one key. -/
def ofKey (h : History) (kind : StateType) (key : Bytes) : List Entry :=
  (h kind).filter fun e => e.key = key

/-- The value a key has after the writes: that of the last one. -/
def answer (h : History) (kind : StateType) (key : Bytes) : Stores.Answer :=
  match h.ofKey kind key with
  | [] => .unset
  | e :: _ => .value e.value

/-- The last value written to a key at a block. -/
def valueAt (h : History) (kind : StateType) (key : Bytes) (blockNumber : Nat) :
    Option Bytes :=
  ((h.ofKey kind key).find? fun e => e.blockNumber = blockNumber).map Entry.value

/-- The block numbers a key was written at. -/
def blocks (h : History) (kind : StateType) (key : Bytes) : List Nat :=
  (h.ofKey kind key).map Entry.blockNumber

end History

/-! ## The stores stand for the history -/

/-- What a history has to satisfy: its keys are from `K`, and its block numbers
descend and fit eight bytes. -/
structure WellFormed (K : Bytes → Prop) (h : History) : Prop where
  keys : ∀ kind, ∀ e ∈ h kind, K e.key
  descending : ∀ kind, (h kind).Pairwise fun a b => b.blockNumber ≤ a.blockNumber
  bounded : ∀ kind, ∀ e ∈ h kind, e.blockNumber < 2 ^ 64

/-- The lists and index hashes hold what the history says, as far as the keys
of `K` go. -/
structure Indexes (K : Bytes → Prop) (r : Redis) (h : History) : Prop where
  lists : ∀ kind key, K key →
    r.list (blockIndexKey kind key) = .ok ((h.blocks kind key).map .int)
  /-- The position recorded for a block that is left is that of its last
  entry. -/
  positions : ∀ kind key, K key → ∃ fields,
    r.hash (indexKey kind key) = .ok fields ∧
      ∀ n ∈ h.blocks kind key, ∃ position,
        fields.lookup (.int n) = some (.int position) ∧
          position + 1 = upTo n (h.blocks kind key)

/-- The set of memory keys has those of the history. -/
structure Lists (K : Bytes → Prop) (r : Redis) (h : History) (members : List Bytes) :
    Prop where
  read : r.smembers memoryKeys = .ok members
  nodup : members.Nodup
  keys : ∀ key ∈ members, K key
  complete : ∀ e ∈ h .memory, e.key ∈ members

/-- The stores hold what the history says. -/
structure Represents (K : Bytes → Prop) (s : Stores) (h : History) : Prop where
  wellFormed : WellFormed K h
  indexes : Indexes K s.redis h
  lists : ∃ members, Lists K s.redis h members
  memory : ∃ fields, s.redis.hash (utf8 "memory") = .ok fields ∧
    ∀ key n value, h.valueAt .memory key n = some value →
      fields.lookup (.bytes (hashKey n key)) = some (.bytes value)
  storage : ∀ key n value, h.valueAt .storage key n = some value →
    s.rocksdb.lookup (hashKey n key) = some value

namespace History

variable {K : Bytes → Prop} {h : History} {kind kind' : StateType}

theorem push_self (e : Entry) : h.push kind e kind = e :: h kind := if_pos rfl

theorem push_of_ne (e : Entry) (hne : kind' ≠ kind) : h.push kind e kind' = h kind' :=
  if_neg hne

/-- A key's writes after a push: its own grows, the others keep theirs. -/
theorem ofKey_push (e : Entry) (key : Bytes) :
    (h.push kind e).ofKey kind' key =
      if kind' = kind ∧ e.key = key then e :: h.ofKey kind' key
      else h.ofKey kind' key := by
  unfold ofKey
  by_cases hkind : kind' = kind
  · subst hkind
    rw [push_self]
    by_cases hkey : e.key = key <;> simp [hkey]
  · rw [push_of_ne e hkind]
    simp [hkind]

theorem blocks_push (e : Entry) (key : Bytes) :
    (h.push kind e).blocks kind' key =
      if kind' = kind ∧ e.key = key then e.blockNumber :: h.blocks kind' key
      else h.blocks kind' key := by
  unfold blocks
  rw [ofKey_push]
  split <;> rfl

theorem valueAt_push (e : Entry) (key : Bytes) (n : Nat) :
    (h.push kind e).valueAt kind' key n =
      if kind' = kind ∧ e.key = key ∧ e.blockNumber = n then some e.value
      else h.valueAt kind' key n := by
  unfold valueAt
  rw [ofKey_push]
  by_cases hkey : kind' = kind ∧ e.key = key
  · by_cases hn : e.blockNumber = n <;> simp [hkey, hn]
  · rw [if_neg hkey, if_neg fun hall => hkey ⟨hall.1, hall.2.1⟩]

theorem mem_of_mem_blocks {key : Bytes} {n : Nat} (hn : n ∈ h.blocks kind key) :
    ∃ e ∈ h kind, e.key = key ∧ e.blockNumber = n := by
  obtain ⟨e, he, rfl⟩ := List.mem_map.mp hn
  obtain ⟨hmem, hkey⟩ := List.mem_filter.mp he
  exact ⟨e, hmem, by simpa using hkey, rfl⟩

/-- A key's block numbers descend. -/
theorem blocks_descending (hwf : WellFormed K h) (kind : StateType) (key : Bytes) :
    (h.blocks kind key).Pairwise (· ≥ ·) := by
  unfold blocks ofKey
  exact List.pairwise_map.mpr ((hwf.descending kind).filter _)

theorem wellFormed_push (hwf : WellFormed K h) {e : Entry} (hkey : K e.key)
    (hbound : e.blockNumber < 2 ^ 64)
    (hlast : ∀ d ∈ h kind, d.blockNumber ≤ e.blockNumber) :
    WellFormed K (h.push kind e) := by
  refine ⟨fun kind' => ?_, fun kind' => ?_, fun kind' => ?_⟩ <;>
    by_cases hkind : kind' = kind
  · subst hkind
    rw [push_self]
    exact List.forall_mem_cons.mpr ⟨hkey, hwf.keys kind'⟩
  · rw [push_of_ne e hkind]
    exact hwf.keys kind'
  · subst hkind
    rw [push_self]
    exact List.pairwise_cons.mpr ⟨hlast, hwf.descending kind'⟩
  · rw [push_of_ne e hkind]
    exact hwf.descending kind'
  · subst hkind
    rw [push_self]
    exact List.forall_mem_cons.mpr ⟨hbound, hwf.bounded kind'⟩
  · rw [push_of_ne e hkind]
    exact hwf.bounded kind'

end History

/-! ## Writing -/

variable {K : Bytes → Prop} {h : History}

/-- One `add` on the lists and index hashes. -/
theorem indexes_add (hK : Separated K) {r : Redis} (hr : Indexes K r h)
    {kind : StateType} {e : Entry} (hkey : K e.key)
    (hlast : ∀ d ∈ h kind, d.blockNumber ≤ e.blockNumber) :
    ∃ r', BlockIndex.add r kind e.key e.blockNumber = .ok r' ∧
      Indexes K r' (h.push kind e) ∧
      ∀ k, k ≠ blockIndexKey kind e.key → k ≠ indexKey kind e.key →
        r'.lookup k = r.lookup k := by
  obtain ⟨fields, hfields, hpositions⟩ := hr.positions kind e.key hkey
  obtain ⟨r', hadd, hlist, hhash, hframe⟩ :=
    add_spec e.blockNumber (hr.lists kind e.key hkey) hfields
  refine ⟨r', hadd, ⟨fun kind' key' hkey' => ?_, fun kind' key' hkey' => ?_⟩, hframe⟩
  · rw [History.blocks_push]
    by_cases hsame : kind' = kind ∧ e.key = key'
    · obtain ⟨rfl, rfl⟩ := hsame
      rw [if_pos ⟨rfl, rfl⟩]
      exact hlist
    · rw [if_neg hsame, Redis.list_congr (hframe _ ?_ ?_)]
      · exact hr.lists kind' key' hkey'
      · intro heq
        obtain ⟨hkind, hkeys⟩ := blockIndexKey_inj heq
        exact hsame ⟨hkind, hkeys.symm⟩
      · exact blockIndexKey_ne_indexKey hK hkey' hkey
  · by_cases hsame : kind' = kind ∧ e.key = key'
    · obtain ⟨rfl, rfl⟩ := hsame
      refine ⟨_, hhash, fun n hn => ?_⟩
      have hblocks : ∀ b ∈ h.blocks kind' e.key, b ≤ e.blockNumber := by
        intro b hb
        obtain ⟨d, hd, _, rfl⟩ := History.mem_of_mem_blocks hb
        exact hlast d hd
      rw [History.blocks_push, if_pos ⟨rfl, rfl⟩] at hn ⊢
      by_cases hnew : n = e.blockNumber
      · -- the new entry takes over the position of an older one at its block
        refine ⟨_, by rw [hnew]; exact Finmap.lookup_insert _, ?_⟩
        rw [hnew, upTo_cons_self hblocks, List.length_map]
      · have hold : n ∈ h.blocks kind' e.key := (List.mem_cons.mp hn).resolve_left hnew
        obtain ⟨position, hlookup, hposition⟩ := hpositions n hold
        refine ⟨position, ?_, ?_⟩
        · rw [Finmap.lookup_insert_of_ne _ (fun heq => hnew (Item.int.inj heq))]
          exact hlookup
        · have := hblocks n hold
          rw [upTo_cons_of_lt (by omega), hposition]
    · obtain ⟨fields', hfields', hpositions'⟩ := hr.positions kind' key' hkey'
      refine ⟨fields', ?_, ?_⟩
      · rw [Redis.hash_congr (hframe _ ?_ ?_)]
        · exact hfields'
        · exact (blockIndexKey_ne_indexKey hK hkey hkey').symm
        · intro heq
          obtain ⟨hkind, hkeys⟩ := indexKey_inj heq
          exact hsame ⟨hkind, hkeys.symm⟩
      · rw [History.blocks_push, if_neg hsame]
        exact hpositions'

/-- The two keys that are no list and no index hash of a key. -/
def IsTable (k : Bytes) : Prop := k = utf8 "memory" ∨ k = memoryKeys

theorem IsTable.ne {k : Bytes} (hk : IsTable k) (kind : StateType) (key : Bytes) :
    k ≠ blockIndexKey kind key ∧ k ≠ indexKey kind key := by
  have hlist := blockIndexKey_ne kind key []
  have hindex := blockIndexKey_ne kind key (utf8 "_index")
  rw [List.append_nil] at hlist
  rcases hk with rfl | rfl
  · exact ⟨hlist.1.symm, hindex.1.symm⟩
  · exact ⟨hlist.2.symm, hindex.2.symm⟩

/-- A write to one of the tables leaves the lists and index hashes alone. -/
theorem Indexes.of_table {r r' : Redis} {k : Bytes} (hr : Indexes K r h)
    (hk : IsTable k) (hframe : ∀ k', k' ≠ k → r'.lookup k' = r.lookup k') :
    Indexes K r' h := by
  refine ⟨fun kind key hkey => ?_, fun kind key hkey => ?_⟩
  · rw [Redis.list_congr (hframe _ (hk.ne kind key).1.symm)]
    exact hr.lists kind key hkey
  · rw [Redis.hash_congr (hframe _ (hk.ne kind key).2.symm)]
    exact hr.positions kind key hkey

theorem memory_ne_memoryKeys : utf8 "memory" ≠ memoryKeys := by decide +kernel

/-- `SADD` of a written key keeps the set of memory keys. -/
theorem lists_sadd {r : Redis} {members : List Bytes} (hr : Lists K r h members)
    {e : Entry} (hkey : K e.key) :
    ∃ r' members', r.sadd memoryKeys e.key = .ok r' ∧
      Lists K r' (h.push .memory e) members' ∧
      ∀ k, k ≠ memoryKeys → r'.lookup k = r.lookup k := by
  obtain ⟨r', hadd, hread, hframe⟩ := Redis.sadd_spec e.key hr.read
  have hsubset : ∀ key ∈ members,
      key ∈ if e.key ∈ members then members else members ++ [e.key] := by
    intro key hmem
    split
    · exact hmem
    · exact List.mem_append_left _ hmem
  refine ⟨r', _, hadd, ⟨hread, ?_, ?_, ?_⟩, hframe⟩
  · split
    · exact hr.nodup
    · rename_i hnew
      exact hr.nodup.append (List.nodup_singleton _) (by simpa using hnew)
  · intro key hmem
    split at hmem
    · exact hr.keys key hmem
    · rcases List.mem_append.mp hmem with hold | hnew
      · exact hr.keys key hold
      · rw [List.mem_singleton.mp hnew]
        exact hkey
  · rw [History.push_self]
    refine List.forall_mem_cons.mpr ⟨?_, fun d hd => hsubset _ (hr.complete d hd)⟩
    split
    · assumption
    · exact List.mem_append_right _ (List.mem_singleton_self _)

/-- What the value tables owe to a push: the pushed value under its key, and
the others as before. -/
theorem valueAt_push_cases {kind : StateType} {e : Entry} {key value : Bytes} {n : Nat}
    (hvalue : (h.push kind e).valueAt kind key n = some value) :
    (e.key = key ∧ e.blockNumber = n ∧ e.value = value) ∨
      ((e.key = key → e.blockNumber ≠ n) ∧ h.valueAt kind key n = some value) := by
  rw [History.valueAt_push] at hvalue
  split at hvalue
  · rename_i hsame
    exact .inl ⟨hsame.2.1, hsame.2.2, Option.some.inj hvalue⟩
  · rename_i hother
    exact .inr ⟨fun hkey hn => hother ⟨rfl, hkey, hn⟩, hvalue⟩

theorem valueAt_bounded {kind : StateType} {key value : Bytes} {n : Nat}
    (hwf : WellFormed K h) (hvalue : h.valueAt kind key n = some value) :
    n < 2 ^ 64 := by
  obtain ⟨e, hfind, _⟩ := Option.map_eq_some_iff.mp hvalue
  have hn := List.find?_some hfind
  have hmem := List.mem_of_find?_eq_some hfind
  rw [← of_decide_eq_true hn]
  exact hwf.bounded kind e (List.mem_filter.mp hmem).1

/-- `Memory.set`, on the stores and on the history. -/
theorem represents_memorySet (hK : Separated K) {s : Stores} (hs : Represents K s h)
    {e : Entry} (hkey : K e.key) (hbound : e.blockNumber < 2 ^ 64)
    (hlast : ∀ d ∈ h .memory, d.blockNumber ≤ e.blockNumber) :
    ∃ s', s.memorySet e.blockNumber e.key e.value = .ok s' ∧
      Represents K s' (h.push .memory e) := by
  obtain ⟨members, hmembers⟩ := hs.lists
  obtain ⟨fields, hfields, hvalues⟩ := hs.memory
  obtain ⟨r₁, hadd, hindexes, hframe₁⟩ := indexes_add hK hs.indexes hkey hlast
  have hmembers₁ : Lists K r₁ h members :=
    ⟨(Redis.smembers_congr (hframe₁ _ (IsTable.ne (.inr rfl) _ _).1
      (IsTable.ne (.inr rfl) _ _).2)).trans hmembers.read,
      hmembers.nodup, hmembers.keys, hmembers.complete⟩
  have hfields₁ : r₁.hash (utf8 "memory") = .ok fields :=
    (Redis.hash_congr (hframe₁ _ (IsTable.ne (.inl rfl) _ _).1
      (IsTable.ne (.inl rfl) _ _).2)).trans hfields
  obtain ⟨r₂, members', hsadd, hmembers₂, hframe₂⟩ := lists_sadd hmembers₁ hkey
  have hfields₂ : r₂.hash (utf8 "memory") = .ok fields :=
    (Redis.hash_congr (hframe₂ _ memory_ne_memoryKeys)).trans hfields₁
  obtain ⟨r₃, hset, hfields₃, hframe₃⟩ := Redis.hset_spec
    (.bytes (hashKey e.blockNumber e.key)) (.bytes e.value) hfields₂
  refine ⟨{ s with redis := r₃ }, ?_, ?_, ?_, ?_, ?_, ?_⟩
  · simp [Stores.memorySet, hadd, hsadd, hset, matchOk, dropReply, bind, Except.bind,
      pure, Except.pure]
  · exact History.wellFormed_push hs.wellFormed hkey hbound hlast
  · exact (hindexes.of_table (.inr rfl) hframe₂).of_table (.inl rfl) hframe₃
  · exact ⟨members', (Redis.smembers_congr (hframe₃ _ memory_ne_memoryKeys.symm)).trans
      hmembers₂.read, hmembers₂.nodup, hmembers₂.keys, hmembers₂.complete⟩
  · refine ⟨_, hfields₃, fun key n value hvalue => ?_⟩
    rcases valueAt_push_cases hvalue with ⟨rfl, rfl, rfl⟩ | ⟨hother, hold⟩
    · exact Finmap.lookup_insert _
    · rw [Finmap.lookup_insert_of_ne _ fun heq => ?_]
      · exact hvalues key n value hold
      · obtain ⟨hn, hkeys⟩ := hashKey_inj (valueAt_bounded hs.wellFormed hold) hbound
          (Item.bytes.inj heq)
        exact hother hkeys.symm hn.symm
  · intro key n value hvalue
    rw [History.valueAt_push, if_neg fun hsame => absurd hsame.1 (by decide)] at hvalue
    exact hs.storage key n value hvalue

/-- `Storage.set`, on the stores and on the history. -/
theorem represents_storageSet (hK : Separated K) {s : Stores} (hs : Represents K s h)
    {e : Entry} (hkey : K e.key) (hbound : e.blockNumber < 2 ^ 64)
    (hlast : ∀ d ∈ h .storage, d.blockNumber ≤ e.blockNumber) :
    ∃ s', s.storageSet e.blockNumber e.key e.value = .ok s' ∧
      Represents K s' (h.push .storage e) := by
  obtain ⟨members, hmembers⟩ := hs.lists
  obtain ⟨fields, hfields, hvalues⟩ := hs.memory
  obtain ⟨r₁, hadd, hindexes, hframe₁⟩ := indexes_add hK hs.indexes hkey hlast
  have htable : ∀ {k}, IsTable k → r₁.lookup k = s.redis.lookup k := fun hk =>
    hframe₁ _ (hk.ne _ _).1 (hk.ne _ _).2
  refine ⟨⟨r₁, s.rocksdb.insert (hashKey e.blockNumber e.key) e.value⟩, ?_, ?_,
    hindexes, ?_, ?_, ?_⟩
  · simp [Stores.storageSet, hadd, bind, Except.bind, pure, Except.pure]
  · exact History.wellFormed_push hs.wellFormed hkey hbound hlast
  · refine ⟨members, (Redis.smembers_congr (htable (.inr rfl))).trans hmembers.read,
      hmembers.nodup, hmembers.keys, ?_⟩
    rw [History.push_of_ne e (by decide)]
    exact hmembers.complete
  · refine ⟨fields, (Redis.hash_congr (htable (.inl rfl))).trans hfields,
      fun key n value hvalue => ?_⟩
    rw [History.valueAt_push, if_neg fun hsame => absurd hsame.1 (by decide)] at hvalue
    exact hvalues key n value hvalue
  · intro key n value hvalue
    rcases valueAt_push_cases hvalue with ⟨rfl, rfl, rfl⟩ | ⟨hother, hold⟩
    · exact Finmap.lookup_insert _
    · rw [Finmap.lookup_insert_of_ne _ fun heq => ?_]
      · exact hs.storage key n value hold
      · obtain ⟨hn, hkeys⟩ :=
          hashKey_inj (valueAt_bounded hs.wellFormed hold) hbound heq
        exact hother hkeys.symm hn.symm

theorem represents_set (hK : Separated K) {s : Stores} (hs : Represents K s h)
    {kind : StateType} {e : Entry} (hkey : K e.key) (hbound : e.blockNumber < 2 ^ 64)
    (hlast : ∀ d ∈ h kind, d.blockNumber ≤ e.blockNumber) :
    ∃ s', s.set kind e.blockNumber e.key e.value = .ok s' ∧
      Represents K s' (h.push kind e) := by
  cases kind with
  | memory => exact represents_memorySet hK hs hkey hbound hlast
  | storage => exact represents_storageSet hK hs hkey hbound hlast

/-- A whole changeset at one block. -/
theorem represents_writeChangeset (hK : Separated K) {kind : StateType} {n : Nat}
    {changeset : List (Bytes × Bytes)} (hbound : n < 2 ^ 64) {s : Stores}
    (hs : Represents K s h) (hkeys : ∀ e ∈ changeset, K e.1)
    (hlast : ∀ d ∈ h kind, d.blockNumber ≤ n) :
    ∃ s', s.writeChangeset kind changeset n = .ok s' ∧
      Represents K s' (h.apply (.write kind n changeset)) := by
  induction changeset generalizing s h with
  | nil => exact ⟨s, rfl, hs⟩
  | cons e rest ih =>
      obtain ⟨hkey, hkeys⟩ := List.forall_mem_cons.mp hkeys
      obtain ⟨s₁, hset, hs₁⟩ :=
        represents_set (e := ⟨n, e.1, e.2⟩) hK hs hkey hbound hlast
      have hlast₁ : ∀ d ∈ h.push kind ⟨n, e.1, e.2⟩ kind, d.blockNumber ≤ n := by
        rw [History.push_self]
        exact List.forall_mem_cons.mpr ⟨Nat.le_refl n, hlast⟩
      obtain ⟨s', hwrite, hs'⟩ := ih hs₁ hkeys hlast₁
      refine ⟨s', ?_, hs'⟩
      rw [Stores.writeChangeset, List.foldlM_cons, hset]
      exact hwrite

/-! ## Reading -/

theorem getLatest_of_indexes {r : Redis} (hr : Indexes K r h) (kind : StateType)
    {key : Bytes} (hkey : K key) :
    BlockIndex.getLatest r kind key = .ok (h.blocks kind key).head? := by
  unfold BlockIndex.getLatest Redis.lrange
  rw [hr.lists kind key hkey]
  cases h.blocks kind key <;>
    simp [Except.map, matchOk, Redis.slice, toInteger, bind, Except.bind, pure,
      Except.pure]

/-- A key reads as the last write to it that is left. -/
theorem represents_get {s : Stores} (hs : Represents K s h) (kind : StateType)
    {key : Bytes} (hkey : K key) : s.get kind key = .ok (h.answer kind key) := by
  have hlatest := getLatest_of_indexes hs.indexes kind hkey
  have hblocks : (h.blocks kind key).head? =
      (h.ofKey kind key).head?.map Entry.blockNumber := List.head?_map
  rw [hblocks] at hlatest
  have hvalue : ∀ e rest, h.ofKey kind key = e :: rest →
      h.valueAt kind key e.blockNumber = some e.value := by
    intro e rest heq
    simp [History.valueAt, heq]
  cases hkeys : h.ofKey kind key with
  | nil =>
      rw [hkeys] at hlatest
      cases kind <;>
        simp [Stores.get, Stores.memoryGet, Stores.storageGet, hlatest, History.answer,
          hkeys, bind, Except.bind, pure, Except.pure]
  | cons e rest =>
      have hread := hvalue e rest hkeys
      rw [hkeys] at hlatest
      cases kind with
      | memory =>
          obtain ⟨fields, hfields, hvalues⟩ := hs.memory
          simp [Stores.get, Stores.memoryGet, hlatest, Redis.hget, hfields, Except.map,
            hvalues _ _ _ hread, matchOk, History.answer, hkeys, bind, Except.bind, pure,
            Except.pure]
      | storage =>
          simp [Stores.get, Stores.storageGet, hlatest, hs.storage _ _ _ hread,
            History.answer, hkeys, bind, Except.bind, pure, Except.pure]

/-! ## Reverting -/

/-- What a revert to `n` needs of the stores.  Every memory key has a position
recorded for block `n` under the prefix, and the position is where the
surviving blocks up to `n` end; a key that is no memory key is not visited, and
has no blocks above `n`. -/
structure Trims (K : Bytes → Prop) (s : Stores) (kind : StateType) (n : Nat) :
    Prop where
  visited : ∀ members, s.redis.smembers memoryKeys = .ok members → ∀ key ∈ members,
    ∃ (blocks : List Nat) (position : Nat),
      s.redis.list (blockIndexKey kind key) = .ok (blocks.map .int) ∧
        s.redis.hget (indexKey kind key) (.int n) = .ok (some (.int position)) ∧
          Exact blocks n position
  passed : ∀ members, s.redis.smembers memoryKeys = .ok members → ∀ key, K key →
    key ∉ members → ∀ blocks : List Nat,
      s.redis.list (blockIndexKey kind key) = .ok (blocks.map .int) →
        ∀ b ∈ blocks, b ≤ n

theorem items_inj {xs ys : List Nat} (h : xs.map Item.int = ys.map Item.int) : xs = ys :=
  List.map_injective_iff.mpr (fun _ _ heq => Item.int.inj heq) h

/-- The loop over the keys, which are visited once each: every visited list is
cut back, and nothing else changes. -/
theorem revertKeys_spec (hK : Separated K) {kind : StateType} {n : Nat}
    (blocks : Bytes → List Nat) {keys : List Bytes} (hnodup : keys.Nodup)
    (hkeys : ∀ key ∈ keys, K key) (hdesc : ∀ key, (blocks key).Pairwise (· ≥ ·))
    {r : Redis}
    (hvisit : ∀ key ∈ keys, ∃ position,
      r.list (blockIndexKey kind key) = .ok ((blocks key).map .int) ∧
        r.hget (indexKey kind key) (.int n) = .ok (some (.int position)) ∧
          Exact (blocks key) n position) :
    ∃ r', keys.foldlM (BlockIndex.revertKey kind n) r = .ok r' ∧
      (∀ key ∈ keys, r'.list (blockIndexKey kind key) =
        .ok (((blocks key).filter (· ≤ n)).map .int)) ∧
      ∀ k, (∀ key ∈ keys, k ≠ blockIndexKey kind key) → r'.lookup k = r.lookup k := by
  induction keys generalizing r with
  | nil => exact ⟨r, rfl, fun key hmem => (nomatch hmem), fun k _ => rfl⟩
  | cons key rest ih =>
      obtain ⟨hnew, hnodup⟩ := List.nodup_cons.mp hnodup
      obtain ⟨hkey, hkeys⟩ := List.forall_mem_cons.mp hkeys
      obtain ⟨⟨position, hlist, hhash, hexact⟩, hvisit⟩ := List.forall_mem_cons.mp hvisit
      obtain ⟨r₁, htrim, hlist₁, hframe₁⟩ :=
        Redis.ltrim_spec (-1 - (position : Int)) (-1) hlist
      rw [Redis.slice_last, List.length_map, ← List.map_drop,
        drop_eq_filter (hdesc key) hexact] at hlist₁
      have hone : BlockIndex.revertKey kind n r key = .ok r₁ := by
        simp [BlockIndex.revertKey, hhash, matchOk, toInteger, htrim, bind, Except.bind]
      have hother : ∀ key' ∈ rest, blockIndexKey kind key' ≠ blockIndexKey kind key := by
        intro key' hmem heq
        rw [(blockIndexKey_inj heq).2] at hmem
        exact hnew hmem
      obtain ⟨r', hrest, hlists, hframe⟩ := ih hnodup hkeys fun key' hmem => by
        obtain ⟨position', hlist', hhash', hexact'⟩ := hvisit key' hmem
        refine ⟨position', ?_, ?_, hexact'⟩
        · exact (Redis.list_congr (hframe₁ _ (hother key' hmem))).trans hlist'
        · unfold Redis.hget at hhash' ⊢
          rw [Redis.hash_congr (hframe₁ _
            (blockIndexKey_ne_indexKey hK hkey (hkeys key' hmem)).symm)]
          exact hhash'
      refine ⟨r', ?_, ?_, fun k hk => ?_⟩
      · rw [List.foldlM_cons, hone]
        exact hrest
      · refine List.forall_mem_cons.mpr ⟨?_, hlists⟩
        rw [Redis.list_congr (hframe _ fun key' hmem => (hother key' hmem).symm)]
        exact hlist₁
      · obtain ⟨hk, hkrest⟩ := List.forall_mem_cons.mp hk
        exact (hframe k hkrest).trans (hframe₁ k hk)

namespace History

variable {kind kind' : StateType}

theorem revert_self (n : Nat) :
    h.revert kind n kind = (h kind).filter fun e => e.blockNumber ≤ n := if_pos rfl

theorem revert_of_ne (n : Nat) (hne : kind' ≠ kind) : h.revert kind n kind' = h kind' :=
  if_neg hne

/-- What is left after a revert was there before. -/
theorem revert_sublist (n : Nat) : (h.revert kind n kind').Sublist (h kind') := by
  by_cases hkind : kind' = kind
  · subst hkind
    rw [revert_self]
    exact List.filter_sublist
  · rw [revert_of_ne n hkind]

theorem wellFormed_revert (hwf : WellFormed K h) (kind : StateType) (n : Nat) :
    WellFormed K (h.revert kind n) where
  keys kind' e he := hwf.keys kind' e ((revert_sublist n).subset he)
  descending kind' := (hwf.descending kind').sublist (revert_sublist n)
  bounded kind' e he := hwf.bounded kind' e ((revert_sublist n).subset he)

theorem ofKey_revert_self (n : Nat) (key : Bytes) :
    (h.revert kind n).ofKey kind key =
      (h.ofKey kind key).filter fun e => e.blockNumber ≤ n := by
  unfold ofKey
  rw [revert_self, List.filter_filter, List.filter_filter]
  exact List.filter_congr fun e _ => Bool.and_comm _ _

theorem ofKey_revert_of_ne (n : Nat) (key : Bytes) (hne : kind' ≠ kind) :
    (h.revert kind n).ofKey kind' key = h.ofKey kind' key := by
  unfold ofKey
  rw [revert_of_ne n hne]

theorem blocks_revert_self (n : Nat) (key : Bytes) :
    (h.revert kind n).blocks kind key = (h.blocks kind key).filter (· ≤ n) := by
  unfold blocks
  rw [ofKey_revert_self, List.filter_map]
  rfl

theorem blocks_revert_of_ne (n : Nat) (key : Bytes) (hne : kind' ≠ kind) :
    (h.revert kind n).blocks kind' key = h.blocks kind' key := by
  unfold blocks
  rw [ofKey_revert_of_ne n key hne]

/-- A value that is left is the one there was. -/
theorem valueAt_of_revert {n m : Nat} {key value : Bytes}
    (hvalue : (h.revert kind n).valueAt kind' key m = some value) :
    h.valueAt kind' key m = some value := by
  by_cases hkind : kind' = kind
  · subst hkind
    unfold valueAt at hvalue ⊢
    rw [ofKey_revert_self] at hvalue
    obtain ⟨e, hfind, hvalue⟩ := Option.map_eq_some_iff.mp hvalue
    have hm := List.find?_some hfind
    have hle := (List.mem_filter.mp (List.mem_of_find?_eq_some hfind)).2
    simp only [decide_eq_true_eq] at hm hle
    rw [List.find?_filter] at hfind
    refine Option.map_eq_some_iff.mpr ⟨e, ?_, hvalue⟩
    rw [← hfind]
    congr 1
    funext d
    by_cases hd : d.blockNumber = m
    · simp [hd, ← hm, hle]
    · simp [hd]
  · unfold valueAt at hvalue ⊢
    rwa [ofKey_revert_of_ne n key hkind] at hvalue

end History

/-- `revert_to`, on the stores and on the history. -/
theorem represents_revert (hK : Separated K) {s : Stores} (hs : Represents K s h)
    {kind : StateType} {n : Nat} (htrims : Trims K s kind n) :
    ∃ s', BlockIndex.revertTo s kind n = .ok s' ∧ Represents K s' (h.revert kind n) := by
  obtain ⟨members, hmembers⟩ := hs.lists
  obtain ⟨fields, hfields, hvalues⟩ := hs.memory
  obtain ⟨r', hloop, hvisited, hframe⟩ := revertKeys_spec hK
    (h.blocks kind) hmembers.nodup hmembers.keys
    (History.blocks_descending hs.wellFormed kind) fun key hmem => by
      obtain ⟨blocks, position, hlist, hhash, hexact⟩ :=
        htrims.visited members hmembers.read key hmem
      have hread := hs.indexes.lists kind key (hmembers.keys key hmem)
      have hsame : blocks = h.blocks kind key :=
        items_inj (Except.ok.inj (hlist.symm.trans hread))
      exact ⟨position, hread, hhash, hsame ▸ hexact⟩
  have htable : ∀ {k}, IsTable k → r'.lookup k = s.redis.lookup k := fun hk =>
    hframe _ fun key _ => (hk.ne kind key).1
  refine ⟨{ s with redis := r' }, ?_, History.wellFormed_revert hs.wellFormed kind n,
    ⟨fun kind' key hkey => ?_, fun kind' key hkey => ?_⟩, ⟨members, ?_, hmembers.nodup,
      hmembers.keys, ?_⟩, ⟨fields, ?_, ?_⟩, ?_⟩
  · simp [BlockIndex.revertTo, hmembers.read, matchOk, hloop, bind, Except.bind, pure,
      Except.pure]
  · have hread := hs.indexes.lists kind' key hkey
    by_cases hkind : kind' = kind
    · subst hkind
      rw [History.blocks_revert_self]
      by_cases hmem : key ∈ members
      · exact hvisited key hmem
      · have hall : (h.blocks kind' key).filter (· ≤ n) = h.blocks kind' key := by
          rw [List.filter_eq_self]
          intro b hb
          simpa using htrims.passed members hmembers.read key hkey hmem _ hread b hb
        rw [hall, Redis.list_congr (hframe _ fun key' hmem' heq => ?_)]
        · exact hread
        · rw [(blockIndexKey_inj heq).2] at hmem
          exact hmem hmem'
    · rw [History.blocks_revert_of_ne n key hkind,
        Redis.list_congr (hframe _ fun key' _ heq => hkind (blockIndexKey_inj heq).1)]
      exact hread
  · obtain ⟨index, hindex, hpositions⟩ := hs.indexes.positions kind' key hkey
    refine ⟨index, ?_, fun m hm => ?_⟩
    · rw [Redis.hash_congr (hframe _ fun key' hmem' =>
        (blockIndexKey_ne_indexKey hK (hmembers.keys key' hmem') hkey).symm)]
      exact hindex
    · by_cases hkind : kind' = kind
      · subst hkind
        rw [History.blocks_revert_self] at hm ⊢
        obtain ⟨hm, hle⟩ := List.mem_filter.mp hm
        rw [upTo_filter (of_decide_eq_true hle)]
        exact hpositions m hm
      · rw [History.blocks_revert_of_ne n key hkind] at hm ⊢
        exact hpositions m hm
  · exact (Redis.smembers_congr (htable (.inr rfl))).trans hmembers.read
  · exact fun e he => hmembers.complete e ((History.revert_sublist n).subset he)
  · exact (Redis.hash_congr (htable (.inl rfl))).trans hfields
  · exact fun key m value hvalue => hvalues key m value (History.valueAt_of_revert hvalue)
  · exact fun key m value hvalue => hs.storage key m value (History.valueAt_of_revert hvalue)

/-- In particular a revert to `n` finds what it needs where every memory key
was written at block `n` under the prefix and that write is left; for the
storage, the keys that are no memory keys may have no writes above `n`. -/
theorem trims_of_written {s : Stores} (hs : Represents K s h) {kind : StateType}
    {n : Nat}
    (hvisited : ∀ members, s.redis.smembers memoryKeys = .ok members →
      ∀ key ∈ members, K key → n ∈ h.blocks kind key)
    (hpassed : kind = .storage → ∀ members, s.redis.smembers memoryKeys = .ok members →
      ∀ e ∈ h .storage, e.key ∉ members → e.blockNumber ≤ n) : Trims K s kind n := by
  obtain ⟨members', hmembers⟩ := hs.lists
  constructor
  · intro members hread key hmem
    cases hread.symm.trans hmembers.read
    have hkey := hmembers.keys key hmem
    obtain ⟨fields, hfields, hpositions⟩ := hs.indexes.positions kind key hkey
    obtain ⟨position, hlookup, hposition⟩ :=
      hpositions n (hvisited _ hread key hmem hkey)
    refine ⟨_, position, hs.indexes.lists kind key hkey, ?_, exact_of_upTo hposition⟩
    rw [Redis.hget, hfields, ← hlookup]
    rfl
  · intro members hread key hkey hmem blocks hblocks b hb
    cases hread.symm.trans hmembers.read
    have hsame := items_inj
      (Except.ok.inj (hblocks.symm.trans (hs.indexes.lists kind key hkey)))
    rw [hsame] at hb
    obtain ⟨e, he, rfl, rfl⟩ := History.mem_of_mem_blocks hb
    cases kind with
    | memory => exact absurd (hmembers.complete e he) hmem
    | storage => exact hpassed rfl _ hread e he hmem

/-! ## Runs -/

theorem represents_empty : Represents K Stores.empty fun _ => [] where
  wellFormed := ⟨fun _ _ he => (nomatch he), fun _ => List.Pairwise.nil,
    fun _ _ he => (nomatch he)⟩
  indexes := ⟨fun _ _ _ => rfl, fun _ _ _ => ⟨∅, rfl, fun _ hn => (nomatch hn)⟩⟩
  lists := ⟨[], rfl, List.nodup_nil, fun _ hmem => (nomatch hmem),
    fun _ he => (nomatch he)⟩
  memory := ⟨∅, rfl, fun _ _ _ hvalue => (nomatch hvalue)⟩
  storage _ _ _ hvalue := nomatch hvalue

/-- What one operation needs: a write has keys of `K` and a block number of
eight bytes that is not below the surviving ones of its kind; a revert finds
the positions it needs. -/
def Meets (K : Bytes → Prop) (s : Stores) (h : History) : StoreOp → Prop
  | .write kind n changeset =>
      (∀ e ∈ changeset, K e.1) ∧ n < 2 ^ 64 ∧ ∀ d ∈ h kind, d.blockNumber ≤ n
  | .revert kind n => Trims K s kind n

/-- Every operation of a run finds what it needs. -/
def MeetsAll (K : Bytes → Prop) : Stores → History → List StoreOp → Prop
  | _, _, [] => True
  | s, h, op :: rest =>
      Meets K s h op ∧ ∀ s', s.step op = .ok s' → MeetsAll K s' (h.apply op) rest

/-- One write or revert completes, and the stores go on standing for the
history. -/
theorem represents_step (hK : Separated K) {s : Stores} (hs : Represents K s h)
    {op : StoreOp} (hop : Meets K s h op) :
    ∃ s', s.step op = .ok s' ∧ Represents K s' (h.apply op) := by
  cases op with
  | write kind n changeset =>
      obtain ⟨hkeys, hbound, hlast⟩ := hop
      exact represents_writeChangeset hK hbound hs hkeys hlast
  | revert kind n => exact represents_revert hK hs hop

theorem represents_of_step (hK : Separated K) {s s' : Stores} (hs : Represents K s h)
    {op : StoreOp} (hop : Meets K s h op) (hstep : s.step op = .ok s') :
    Represents K s' (h.apply op) := by
  obtain ⟨s₁, hstep₁, hs₁⟩ := represents_step hK hs hop
  rwa [Except.ok.inj (hstep.symm.trans hstep₁)]

theorem represents_run (hK : Separated K) {ops : List StoreOp} {s : Stores}
    (hs : Represents K s h) (hops : MeetsAll K s h ops) :
    ∃ s', s.run ops = .ok s' ∧ Represents K s' (ops.foldl History.apply h) := by
  induction ops generalizing s h with
  | nil => exact ⟨s, rfl, hs⟩
  | cons op rest ih =>
      obtain ⟨hop, hrest⟩ := hops
      obtain ⟨s₁, hstep, hs₁⟩ := represents_step hK hs hop
      obtain ⟨s', hrun, hs'⟩ := ih hs₁ (hrest s₁ hstep)
      refine ⟨s', ?_, hs'⟩
      rw [Stores.run, List.foldlM_cons, hstep]
      exact hrun

/-! ## What a revert undoes -/

/-- The operation is not a write that a revert to `n` takes back. -/
def StoreOp.survives (kind : StateType) (n : Nat) : StoreOp → Bool
  | .write kind' m _ => decide (kind' = kind → m ≤ n)
  | .revert _ _ => true

namespace History

variable {kind kind' : StateType}

theorem revert_push (e : Entry) (n : Nat) :
    (h.push kind' e).revert kind n =
      if kind' = kind → e.blockNumber ≤ n then (h.revert kind n).push kind' e
      else h.revert kind n := by
  funext k
  by_cases hkind : kind' = kind
  · subst hkind
    by_cases hn : e.blockNumber ≤ n
    · rw [if_pos fun _ => hn]
      by_cases hk : k = kind'
      · subst hk
        rw [revert_self, push_self, push_self, revert_self,
          List.filter_cons_of_pos (by simpa using hn)]
      · rw [revert_of_ne n hk, push_of_ne e hk, push_of_ne e hk, revert_of_ne n hk]
    · rw [if_neg fun hall => hn (hall rfl)]
      by_cases hk : k = kind'
      · subst hk
        rw [revert_self, push_self, revert_self,
          List.filter_cons_of_neg (by simpa using hn)]
      · rw [revert_of_ne n hk, push_of_ne e hk, revert_of_ne n hk]
  · rw [if_pos fun heq => absurd heq hkind]
    by_cases hk : k = kind'
    · subst hk
      rw [revert_of_ne n hkind, push_self, push_self, revert_of_ne n hkind]
    · rw [push_of_ne e hk]
      by_cases hk' : k = kind
      · subst hk'
        rw [revert_self, revert_self, push_of_ne e hk]
      · rw [revert_of_ne n hk', revert_of_ne n hk', push_of_ne e hk]

theorem revert_revert (m n : Nat) :
    (h.revert kind' m).revert kind n = (h.revert kind n).revert kind' m := by
  funext k
  by_cases hk : k = kind
  · subst hk
    by_cases hk' : k = kind'
    · subst hk'
      simp only [revert_self, List.filter_filter, Bool.and_comm]
    · rw [revert_self, revert_of_ne m hk', revert_of_ne m hk', revert_self]
  · by_cases hk' : k = kind'
    · subst hk'
      rw [revert_of_ne n hk, revert_self, revert_self, revert_of_ne n hk]
    · rw [revert_of_ne n hk, revert_of_ne m hk', revert_of_ne m hk', revert_of_ne n hk]

/-- Doing one thing and then reverting is reverting and then doing it, unless
the revert takes it back. -/
theorem revert_apply (op : StoreOp) (n : Nat) :
    (h.apply op).revert kind n =
      if op.survives kind n then (h.revert kind n).apply op else h.revert kind n := by
  cases op with
  | revert kind' m => exact revert_revert m n
  | write kind' m changeset =>
      simp only [apply, StoreOp.survives, decide_eq_true_eq]
      induction changeset generalizing h with
      | nil => simp
      | cons e rest ih =>
          rw [List.foldl_cons, ih, revert_push, List.foldl_cons]
          by_cases hsurvives : kind' = kind → m ≤ n
          · simp only [if_pos hsurvives]
          · simp only [if_neg hsurvives]

theorem revert_foldl (ops : List StoreOp) (n : Nat) :
    (ops.foldl apply h).revert kind n =
      (ops.filter (StoreOp.survives kind n)).foldl apply (h.revert kind n) := by
  induction ops generalizing h with
  | nil => rfl
  | cons op rest ih =>
      rw [List.foldl_cons, ih, revert_apply, List.filter_cons]
      split <;> rfl

/-- A run with a revert in it leaves the history of the run without the revert
and without the writes it took back. -/
theorem run_revert (before after : List StoreOp) (n : Nat) :
    run (before ++ .revert kind n :: after) =
      run (before.filter (StoreOp.survives kind n) ++ after) := by
  have hempty : History.revert (fun _ => []) kind n = fun _ => [] := by
    funext k
    unfold revert
    split <;> rfl
  unfold run
  rw [List.foldl_append, List.foldl_append, List.foldl_cons]
  congr 1
  show History.revert (before.foldl apply fun _ => []) kind n = _
  rw [revert_foldl, hempty]

end History

/-- **When reverting restores what was there.**  Let no key of `K` be another
one with `_index` at its end.  In a run in which every write has keys of `K`,
with descending block numbers of eight bytes, and every revert finds the
positions it needs, every operation completes, every key of `K` reads as the
last write to it that no revert has dropped, and each revert leaves what there
would be without the writes it took back. -/
theorem revert_restores (hK : Separated K) {ops : List StoreOp}
    (hops : MeetsAll K Stores.empty (fun _ => []) ops) :
    ∃ s, Stores.empty.run ops = .ok s ∧
      (∀ kind key, K key → s.get kind key = .ok ((History.run ops).answer kind key)) ∧
      ∀ before kind n after, ops = before ++ .revert kind n :: after →
        ∀ kind' key, K key → s.get kind' key =
          .ok ((History.run (before.filter (StoreOp.survives kind n) ++ after)).answer
            kind' key) := by
  obtain ⟨s, hrun, hs⟩ := represents_run hK represents_empty hops
  have hget : ∀ kind key, K key →
      s.get kind key = .ok ((History.run ops).answer kind key) :=
    fun kind key hkey => represents_get hs kind hkey
  refine ⟨s, hrun, hget, fun before kind n after heq kind' key hkey => ?_⟩
  rw [← History.run_revert, ← heq]
  exact hget kind' key hkey

/-! ## A key that was not written at the block -/

/-- The writes of a run have block numbers not below the surviving ones. -/
def Ordered : History → List StoreOp → Prop
  | _, [] => True
  | h, .write kind n changeset :: rest =>
      (∀ d ∈ h kind, d.blockNumber ≤ n) ∧ Ordered (h.apply (.write kind n changeset)) rest
  | h, .revert kind n :: rest => Ordered (h.apply (.revert kind n)) rest

/-- One key is written at block 1, another at block 2; reverting to block 1
raises on the second one. -/
theorem revert_raises_on_later_key :
    ¬ ∀ (ops : List StoreOp) (kind : StateType) (n : Nat), Ordered (fun _ => []) ops →
      ∃ s, Stores.empty.run (ops ++ [.revert kind n]) = .ok s ∧
        ∀ key, s.get kind key =
          .ok ((History.run (ops ++ [.revert kind n])).answer kind key) := by
  intro hclaim
  have hordered : Ordered (fun _ => [])
      [.write .memory 1 [([1], [5])], .write .memory 2 [([2], [6])]] :=
    ⟨fun _ hd => (nomatch hd), by decide, trivial⟩
  obtain ⟨s, hrun, _⟩ := hclaim _ .memory 1 hordered
  have hraise : (Stores.empty.run
      ([.write .memory 1 [([1], [5])], .write .memory 2 [([2], [6])]] ++
        [.revert .memory 1])).toOption.isSome = false := by decide +kernel
  rw [hrun] at hraise
  cases hraise

/-- One key written at two blocks, reverted to the first, written again. -/
theorem revert_restores_at_one_key :
    ∃ s, Stores.empty.run [.write .memory 1 [([1], [5])], .write .memory 2 [([1], [6])],
        .revert .memory 1, .write .memory 2 [([1], [7])]] = .ok s ∧
      s.get .memory [1] = .ok (.value [7]) := by
  have hK : Separated fun key => key = [1] := by
    rintro _ _ rfl rfl
    decide +kernel
  have hkeys : ∀ value : Bytes, ∀ e ∈ [(([1] : Bytes), value)], e.1 = [1] := by
    rintro value e he
    rw [List.mem_singleton.mp he]
  have hops : MeetsAll (fun key => key = [1]) Stores.empty (fun _ => [])
      [.write .memory 1 [([1], [5])], .write .memory 2 [([1], [6])],
        .revert .memory 1, .write .memory 2 [([1], [7])]] := by
    have hfirst : Meets (fun key => key = [1]) Stores.empty (fun _ => [])
        (.write .memory 1 [([1], [5])]) :=
      ⟨hkeys _, by decide, fun _ hd => (nomatch hd)⟩
    refine ⟨hfirst, fun s₁ h₁ => ?_⟩
    have hsecond : Meets (fun key => key = [1]) s₁
        (History.apply (fun _ => []) (.write .memory 1 [([1], [5])]))
        (.write .memory 2 [([1], [6])]) := ⟨hkeys _, by decide, by decide⟩
    refine ⟨hsecond, fun s₂ h₂ => ⟨?_, fun s₃ h₃ => ⟨⟨hkeys _, by decide, by decide⟩,
      fun _ _ => trivial⟩⟩⟩
    have hs₂ := represents_of_step hK
      (represents_of_step hK represents_empty hfirst h₁) hsecond h₂
    refine trims_of_written hs₂ (fun members _ key _ hkey => ?_) (fun heq => nomatch heq)
    rw [hkey]
    decide
  obtain ⟨s, hrun, hget, _⟩ := revert_restores hK hops
  exact ⟨s, hrun, hget .memory [1] rfl⟩

end Ellipticoind.Ports
