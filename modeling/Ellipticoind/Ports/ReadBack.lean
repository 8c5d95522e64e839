import Ellipticoind.Ports.Memory
import Ellipticoind.Ports.Reorganisation
import Ellipticoind.Verified.StateRun

/-!
# Reading back what was written

`Memory.write_changeset` of the node, read by the node (`Memory.get`) and by
the native processor (`Memory::get_from_memory`).  The state is described by the
sets that completed, the newest first.

Keys are spliced into names of Redis, and one pair of names can meet: the list
of the key `k_index` is the index hash of the key `k`.  Whichever is written
first decides the type.  If it is `k_index`, all its writes go on as lists, and
`HSET` on it fails without a word; if it is `k`, the first write and every read
of `k_index` raise.

## Main results

* `recorded_set` — when a set completes, and what it leaves.
* `reads_back_iff` — when a changeset reads back.
-/

namespace Ellipticoind.Ports

open Ellipticoind.Verified.LittleEndian
open Ellipticoind.Verified.StateRun

/-! ## Writes -/

/-- A changeset in the node: the pairs of a map, in the order in which a
comprehension visits them. -/
structure Changes where
  entries : List (Bytes × Bytes)
  nodup : (entries.map Prod.fst).Nodup

/-- One `Memory.write_changeset`. -/
structure MemoryWrite where
  blockNumber : Nat
  changes : Changes

namespace MemoryWrite

def op (w : MemoryWrite) : StoreOp := .write .memory w.blockNumber w.changes.entries

/-- The sets of one write, in their order. -/
def sets (w : MemoryWrite) : List Entry :=
  w.changes.entries.map fun e => ⟨w.blockNumber, e.1, e.2⟩

end MemoryWrite

/-- The sets of some writes, the newest first. -/
def setsOf (writes : List MemoryWrite) : List Entry :=
  (writes.flatMap MemoryWrite.sets).reverse

/-- The last set of a key. -/
def latest (sets : List Entry) (key : Bytes) : Option Entry :=
  sets.find? fun e => e.key = key

/-- The last set of a key whose value is kept where one at block `n` is: block numbers are
written in eight bytes there. -/
def keptAt (sets : List Entry) (n : Nat) (key : Bytes) : Option Entry :=
  sets.find? fun e => e.key = key ∧ e.blockNumber % 2 ^ 64 = n % 2 ^ 64

/-- What a read of the key at block zero gives. -/
def atZero (sets : List Entry) (key : Bytes) : Bytes :=
  ((keptAt sets 0 key).map Entry.value).getD []

/-- The key's list is the index hash of a key that was set. -/
def IsIndex (sets : List Entry) (key : Bytes) : Prop :=
  ∃ e ∈ sets, key = e.key ++ utf8 "_index"

/-- The key was set before, or its list has no other use. -/
def Free (sets : List Entry) (key : Bytes) : Prop :=
  latest sets key ≠ none ∨ ¬ IsIndex sets key

/-- The keys of some sets, made one after the other, are free when their turn
comes. -/
def FreeAll : List Entry → List Entry → Prop
  | _, [] => True
  | sets, e :: rest => Free sets e.key ∧ FreeAll (e :: sets) rest

/-! ## What Redis holds -/

/-- Redis after some sets. -/
structure Recorded (r : Redis) (sets : List Entry) : Prop where
  list : ∀ key e, latest sets key = some e →
    ∃ items, r.list (blockIndexKey .memory key) = .ok (.int e.blockNumber :: items)
  index : ∀ key, latest sets key = none → IsIndex sets key →
    ∃ fields, r.lookup (blockIndexKey .memory key) = some (.hash fields)
  absent : ∀ key, latest sets key = none → ¬ IsIndex sets key →
    r.lookup (blockIndexKey .memory key) = none
  members : ∃ members, r.smembers memoryKeys = .ok members
  values : ∃ fields, r.hash (utf8 "memory") = .ok fields ∧
    ∀ key n, fields.lookup (.bytes (hashKey n key)) =
      (keptAt sets n key).map fun e => .bytes e.value

theorem recorded_empty : Recorded ∅ [] where
  list _ _ h := by cases h
  index _ _ h := by
    obtain ⟨e, he, _⟩ := h
    cases he
  absent _ _ _ := rfl
  members := ⟨[], rfl⟩
  values := ⟨∅, rfl, fun _ _ => rfl⟩

theorem latest_cons (e : Entry) (sets : List Entry) (key : Bytes) :
    latest (e :: sets) key = if e.key = key then some e else latest sets key := by
  unfold latest
  rw [List.find?_cons]
  by_cases h : e.key = key <;> simp [h]

theorem latest_self (e : Entry) (sets : List Entry) :
    latest (e :: sets) e.key = some e := by
  rw [latest_cons, if_pos rfl]

theorem latest_of_ne {e : Entry} {sets : List Entry} {key : Bytes} (h : key ≠ e.key) :
    latest (e :: sets) key = latest sets key := by
  rw [latest_cons, if_neg h.symm]

theorem keptAt_cons (e : Entry) (sets : List Entry) (n : Nat) (key : Bytes) :
    keptAt (e :: sets) n key =
      if e.key = key ∧ e.blockNumber % 2 ^ 64 = n % 2 ^ 64 then some e
      else keptAt sets n key := by
  unfold keptAt
  rw [List.find?_cons]
  by_cases h : e.key = key ∧ e.blockNumber % 2 ^ 64 = n % 2 ^ 64
  · rw [if_pos h, decide_eq_true h]
  · rw [if_neg h, decide_eq_false h]

/-- The last set of a key is kept at its own block. -/
theorem keptAt_of_latest {sets : List Entry} {key : Bytes} {e : Entry}
    (h : latest sets key = some e) : keptAt sets e.blockNumber key = some e := by
  induction sets with
  | nil => cases h
  | cons d rest ih =>
      rw [latest_cons] at h
      rw [keptAt_cons]
      by_cases hkey : d.key = key
      · rw [if_pos hkey] at h
        cases h
        exact if_pos ⟨hkey, rfl⟩
      · rw [if_neg hkey] at h
        rw [if_neg fun hd => hkey hd.1]
        exact ih h

theorem keptAt_of_not_set {sets : List Entry} {key : Bytes} (h : latest sets key = none)
    (n : Nat) : keptAt sets n key = none := by
  unfold latest at h
  unfold keptAt
  rw [List.find?_eq_none] at h ⊢
  intro e he hkept
  have hkey := h e he
  simp_all

theorem isIndex_cons {e : Entry} {sets : List Entry} {key : Bytes} :
    IsIndex (e :: sets) key ↔ key = e.key ++ utf8 "_index" ∨ IsIndex sets key := by
  simp [IsIndex]

theorem indexKey_eq (kind : StateType) (key : Bytes) :
    indexKey kind key = blockIndexKey kind (key ++ utf8 "_index") := by
  simp [indexKey, blockIndexKey]

/-! ## One set -/

namespace Redis

theorem hash_of_lookup {r : Redis} {key : Bytes} {fields : Finmap fun _ : Item => Item}
    (h : r.lookup key = some (.hash fields)) : r.hash key = .ok fields := by
  unfold Redis.hash
  rw [h]

theorem hash_of_absent {r : Redis} {key : Bytes} (h : r.lookup key = none) :
    r.hash key = .ok ∅ := by
  unfold Redis.hash
  rw [h]

theorem list_of_absent {r : Redis} {key : Bytes} (h : r.lookup key = none) :
    r.list key = .ok [] := by
  unfold Redis.list
  rw [h]

theorem list_of_hash {r : Redis} {key : Bytes} {fields : Finmap fun _ : Item => Item}
    (h : r.lookup key = some (.hash fields)) : r.list key = .error .wrongType := by
  unfold Redis.list
  rw [h]

/-- A list with something in it is no hash. -/
theorem hash_of_list {r : Redis} {key : Bytes} {item : Item} {items : List Item}
    (h : r.list key = .ok (item :: items)) : r.hash key = .error .wrongType := by
  unfold Redis.list at h
  unfold Redis.hash
  cases hlookup : r.lookup key with
  | none =>
      rw [hlookup] at h
      cases h
  | some value =>
      rw [hlookup] at h
      cases value with
      | list items => rfl
      | hash fields => cases h
      | set members => cases h

end Redis

/-- `add` on a key whose list can be read.  The index hash is left alone where it
is a list. -/
theorem add_of_list {r : Redis} {kind : StateType} {key : Bytes} {items : List Item}
    (n : Nat) (hlist : r.list (blockIndexKey kind key) = .ok items) :
    ∃ r', BlockIndex.add r kind key n = .ok r' ∧
      r'.list (blockIndexKey kind key) = .ok (.int n :: items) ∧
      (r.hash (indexKey kind key) = .error .wrongType →
        r'.lookup (indexKey kind key) = r.lookup (indexKey kind key)) ∧
      (∀ fields, r.hash (indexKey kind key) = .ok fields →
        ∃ fields', r'.lookup (indexKey kind key) = some (.hash fields')) ∧
      ∀ k, k ≠ blockIndexKey kind key → k ≠ indexKey kind key →
        r'.lookup k = r.lookup k := by
  have hne := blockIndexKey_ne_own_indexKey kind key
  obtain ⟨r₁, hpush, hlist₁, hframe₁⟩ := Redis.lpush_spec (.int n) hlist
  have hlength : r₁.llen (blockIndexKey kind key) = .ok (items.length + 1) := by
    rw [Redis.llen, hlist₁]
    rfl
  have hsame : r₁.hash (indexKey kind key) = r.hash (indexKey kind key) :=
    Redis.hash_congr (hframe₁ _ hne.symm)
  cases hhash : r.hash (indexKey kind key) with
  | error e =>
      refine ⟨r₁, ?_, hlist₁, fun _ => hframe₁ _ hne.symm, fun _ h => (by cases h),
        fun k hk _ => hframe₁ k hk⟩
      rw [hhash] at hsame
      simp [BlockIndex.add, hpush, dropReply, hlength, matchOk, Redis.hset, hsame,
        Except.map, bind, Except.bind, pure, Except.pure]
  | ok fields =>
      rw [hhash] at hsame
      refine ⟨r₁.insert (indexKey kind key)
        (.hash (fields.insert (.int n) (.int items.length))), ?_, ?_, fun h => (by cases h),
        fun _ _ => ⟨_, Finmap.lookup_insert _⟩, fun k hk hindex => ?_⟩
      · simp [BlockIndex.add, hpush, dropReply, hlength, matchOk, Redis.hset, hsame,
          Except.map, bind, Except.bind, pure, Except.pure]
      · exact (Redis.list_congr (Finmap.lookup_insert_of_ne _ hne)).trans hlist₁
      · exact (Finmap.lookup_insert_of_ne _ hindex).trans (hframe₁ k hk)

/-- `add` on a key whose list has another type. -/
theorem add_of_wrongType {r : Redis} {kind : StateType} {key : Bytes} (n : Nat)
    (hlist : r.list (blockIndexKey kind key) = .error .wrongType) :
    BlockIndex.add r kind key n = .error .matchError := by
  simp [BlockIndex.add, Redis.lpush, hlist, Except.map, dropReply, Redis.llen, matchOk,
    bind, Except.bind]

theorem list_of_free {r : Redis} {sets : List Entry} (hr : Recorded r sets) {key : Bytes}
    (hfree : Free sets key) : ∃ items, r.list (blockIndexKey .memory key) = .ok items := by
  cases hlatest : latest sets key with
  | some e =>
      obtain ⟨items, hlist⟩ := hr.list key e hlatest
      exact ⟨_, hlist⟩
  | none =>
      have hindex := hfree.resolve_left fun hne => hne hlatest
      exact ⟨[], Redis.list_of_absent (hr.absent key hlatest hindex)⟩

theorem list_of_not_free {r : Redis} {sets : List Entry} (hr : Recorded r sets)
    {key : Bytes} (hfree : ¬ Free sets key) :
    r.list (blockIndexKey .memory key) = .error .wrongType := by
  obtain ⟨hlatest, hindex⟩ := not_or.mp hfree
  obtain ⟨fields, hlookup⟩ :=
    hr.index key (not_not.mp hlatest) (not_not.mp hindex)
  exact Redis.list_of_hash hlookup

/-- After a set the lists and index hashes are as recorded. -/
theorem lists_of_add {r r' : Redis} {sets : List Entry} {e : Entry} {items : List Item}
    (hr : Recorded r sets)
    (hlist : r'.list (blockIndexKey .memory e.key) = .ok (.int e.blockNumber :: items))
    (hkept : r.hash (indexKey .memory e.key) = .error .wrongType →
      r'.lookup (indexKey .memory e.key) = r.lookup (indexKey .memory e.key))
    (hset : ∀ fields, r.hash (indexKey .memory e.key) = .ok fields →
      ∃ fields', r'.lookup (indexKey .memory e.key) = some (.hash fields'))
    (hframe : ∀ k, k ≠ blockIndexKey .memory e.key → k ≠ indexKey .memory e.key →
      r'.lookup k = r.lookup k) (key : Bytes) :
    (∀ d, latest (e :: sets) key = some d →
      ∃ items, r'.list (blockIndexKey .memory key) = .ok (.int d.blockNumber :: items)) ∧
    (latest (e :: sets) key = none → IsIndex (e :: sets) key →
      ∃ fields, r'.lookup (blockIndexKey .memory key) = some (.hash fields)) ∧
    (latest (e :: sets) key = none → ¬ IsIndex (e :: sets) key →
      r'.lookup (blockIndexKey .memory key) = none) := by
  by_cases hkey : key = e.key
  · subst hkey
    rw [latest_self]
    refine ⟨fun d hd => ?_, fun h => (nomatch h), fun h => (nomatch h)⟩
    cases hd
    exact ⟨items, hlist⟩
  rw [latest_of_ne hkey]
  have hlistKey : blockIndexKey .memory key ≠ blockIndexKey .memory e.key := by
    intro h
    exact hkey (blockIndexKey_inj h).2
  by_cases hindex : key = e.key ++ utf8 "_index"
  · rw [indexKey_eq, ← hindex] at hkept hset
    cases hlatest : latest sets key with
    | some d =>
        obtain ⟨items', hold⟩ := hr.list key d hlatest
        have hsame := hkept (Redis.hash_of_list hold)
        refine ⟨fun d' hd => ?_, fun h => (nomatch h), fun h => (nomatch h)⟩
        cases hd
        exact ⟨items', (Redis.list_congr hsame).trans hold⟩
    | none =>
        refine ⟨fun d hd => (nomatch hd), fun _ _ => ?_, fun _ h => ?_⟩
        · by_cases hold : IsIndex sets key
          · obtain ⟨fields, hlookup⟩ := hr.index key hlatest hold
            exact hset fields (Redis.hash_of_lookup hlookup)
          · exact hset ∅ (Redis.hash_of_absent (hr.absent key hlatest hold))
        · exact absurd (isIndex_cons.mpr (.inl hindex)) h
  · have hindexKey : blockIndexKey .memory key ≠ indexKey .memory e.key := by
      rw [indexKey_eq]
      intro h
      exact hindex (blockIndexKey_inj h).2
    have hsame := hframe _ hlistKey hindexKey
    rw [Redis.list_congr hsame, hsame]
    refine ⟨hr.list key, fun hlatest h => ?_, fun hlatest h => ?_⟩
    · exact hr.index key hlatest ((isIndex_cons.mp h).resolve_left hindex)
    · exact hr.absent key hlatest fun hold => h (isIndex_cons.mpr (.inr hold))

theorem hashKey_eq_iff {n m : Nat} {key key' : Bytes} :
    hashKey n key = hashKey m key' ↔ key = key' ∧ n % 2 ^ 64 = m % 2 ^ 64 := by
  constructor
  · intro h
    obtain ⟨hnumber, hkey⟩ := List.append_inj h (by simp [u64ToVec])
    exact ⟨hkey, leBytes_eq_iff.mp hnumber⟩
  · rintro ⟨rfl, hnumber⟩
    exact congrArg (· ++ key) (leBytes_eq_iff.mpr hnumber)

/-- After a set the value hash has its value, and the others as before. -/
theorem values_of_set {sets : List Entry} {fields : Finmap fun _ : Item => Item}
    (hvalues : ∀ key n, fields.lookup (.bytes (hashKey n key)) =
      (keptAt sets n key).map fun e => .bytes e.value) (e : Entry) (key : Bytes) (n : Nat) :
    (fields.insert (.bytes (hashKey e.blockNumber e.key)) (.bytes e.value)).lookup
        (.bytes (hashKey n key)) =
      (keptAt (e :: sets) n key).map fun d => .bytes d.value := by
  rw [keptAt_cons]
  by_cases hsame : e.key = key ∧ e.blockNumber % 2 ^ 64 = n % 2 ^ 64
  · rw [if_pos hsame, ← hashKey_eq_iff.mpr hsame]
    exact Finmap.lookup_insert _
  · have hother : Item.bytes (hashKey n key) ≠ .bytes (hashKey e.blockNumber e.key) :=
      fun h => hsame (hashKey_eq_iff.mp (Item.bytes.inj h).symm)
    rw [if_neg hsame, Finmap.lookup_insert_of_ne _ hother]
    exact hvalues key n

/-- `Memory.set` on a free key. -/
theorem recorded_set {s : Stores} {sets : List Entry} (hs : Recorded s.redis sets)
    {e : Entry} (hfree : Free sets e.key) :
    ∃ s', s.memorySet e.blockNumber e.key e.value = .ok s' ∧
      Recorded s'.redis (e :: sets) := by
  obtain ⟨items, hitems⟩ := list_of_free hs hfree
  obtain ⟨r₁, hadd, hlist, hkept, hset, hframe⟩ := add_of_list e.blockNumber hitems
  obtain ⟨members, hmembers⟩ := hs.members
  obtain ⟨fields, hfields, hvalues⟩ := hs.values
  have htable : ∀ {k}, IsTable k → r₁.lookup k = s.redis.lookup k := fun hk =>
    hframe _ (hk.ne _ _).1 (hk.ne _ _).2
  obtain ⟨r₂, hsadd, hmembers₂, hframe₂⟩ := Redis.sadd_spec e.key
    ((Redis.smembers_congr (htable (.inr rfl))).trans hmembers)
  have hfields₂ : r₂.hash (utf8 "memory") = .ok fields :=
    (Redis.hash_congr ((hframe₂ _ memory_ne_memoryKeys).trans (htable (.inl rfl)))).trans
      hfields
  obtain ⟨r₃, hhset, hfields₃, hframe₃⟩ := Redis.hset_spec
    (.bytes (hashKey e.blockNumber e.key)) (.bytes e.value) hfields₂
  have hlists : ∀ key, r₃.lookup (blockIndexKey .memory key) =
      r₁.lookup (blockIndexKey .memory key) := fun key =>
    (hframe₃ _ (IsTable.ne (.inl rfl) _ _).1.symm).trans
      (hframe₂ _ (IsTable.ne (.inr rfl) _ _).1.symm)
  have hnew := lists_of_add hs hlist hkept hset hframe
  refine ⟨{ s with redis := r₃ }, ?_, fun key d hd => ?_, fun key hlatest h => ?_,
    fun key hlatest h => ?_, ?_, _, hfields₃, values_of_set hvalues e⟩
  · simp [Stores.memorySet, hadd, hsadd, hhset, matchOk, dropReply, bind, Except.bind,
      pure, Except.pure]
  · rw [Redis.list_congr (hlists key)]
    exact (hnew key).1 d hd
  · rw [hlists key]
    exact (hnew key).2.1 hlatest h
  · rw [hlists key]
    exact (hnew key).2.2 hlatest h
  · exact ⟨_, (Redis.smembers_congr (hframe₃ _ memory_ne_memoryKeys.symm)).trans hmembers₂⟩

/-- A set that completes is of a free key. -/
theorem free_of_set {s s' : Stores} {sets : List Entry} (hs : Recorded s.redis sets)
    {e : Entry} (hset : s.memorySet e.blockNumber e.key e.value = .ok s') :
    Free sets e.key := by
  by_contra hfree
  have hadd := add_of_wrongType e.blockNumber (list_of_not_free hs hfree)
  simp [Stores.memorySet, hadd, bind, Except.bind] at hset

/-- It is then recorded, too. -/
theorem recorded_of_set {s s' : Stores} {sets : List Entry} (hs : Recorded s.redis sets)
    {e : Entry} (hset : s.memorySet e.blockNumber e.key e.value = .ok s') :
    Free sets e.key ∧ Recorded s'.redis (e :: sets) := by
  have hfree := free_of_set hs hset
  obtain ⟨s₁, hset₁, hs₁⟩ := recorded_set hs hfree
  rw [hset] at hset₁
  cases hset₁
  exact ⟨hfree, hs₁⟩

/-! ## A changeset -/

theorem recorded_write {s : Stores} {sets : List Entry} (hs : Recorded s.redis sets)
    (n : Nat) (entries : List (Bytes × Bytes))
    (hfree : FreeAll sets (entries.map fun e => ⟨n, e.1, e.2⟩)) :
    ∃ s', s.writeChangeset .memory entries n = .ok s' ∧
      Recorded s'.redis ((entries.map fun e => ⟨n, e.1, e.2⟩).reverse ++ sets) := by
  induction entries generalizing s sets with
  | nil => exact ⟨s, rfl, hs⟩
  | cons e rest ih =>
      obtain ⟨hfirst, hrest⟩ := hfree
      obtain ⟨s₁, hset, hs₁⟩ := recorded_set hs hfirst
      obtain ⟨s', hwrite, hs'⟩ := ih hs₁ hrest
      refine ⟨s', ?_, ?_⟩
      · rw [Stores.writeChangeset, List.foldlM_cons]
        exact except_bind_eq_ok.mpr ⟨s₁, hset, hwrite⟩
      · rw [List.map_cons, List.reverse_cons, List.append_assoc]
        exact hs'

theorem freeAll_of_write {s s' : Stores} {sets : List Entry} (hs : Recorded s.redis sets)
    {n : Nat} {entries : List (Bytes × Bytes)}
    (hwrite : s.writeChangeset .memory entries n = .ok s') :
    FreeAll sets (entries.map fun e => ⟨n, e.1, e.2⟩) := by
  induction entries generalizing s sets with
  | nil => trivial
  | cons e rest ih =>
      rw [Stores.writeChangeset, List.foldlM_cons] at hwrite
      obtain ⟨s₁, hset, hrest⟩ := except_bind_eq_ok.mp hwrite
      obtain ⟨hfree, hs₁⟩ := recorded_of_set (e := ⟨n, e.1, e.2⟩) hs hset
      exact ⟨hfree, ih hs₁ hrest⟩

theorem recorded_of_run {ops : List MemoryWrite} {s s' : Stores} {sets : List Entry}
    (hs : Recorded s.redis sets) (hrun : s.run (ops.map MemoryWrite.op) = .ok s') :
    Recorded s'.redis (setsOf ops ++ sets) := by
  induction ops generalizing s sets with
  | nil =>
      cases hrun
      exact hs
  | cons w rest ih =>
      rw [Stores.run, List.map_cons, List.foldlM_cons] at hrun
      obtain ⟨s₁, hwrite, hrest⟩ := except_bind_eq_ok.mp hrun
      obtain ⟨s₂, hwrite₂, hs₂⟩ :=
        recorded_write hs _ _ (freeAll_of_write hs hwrite)
      have hsame : s₁ = s₂ := Except.ok.inj (hwrite.symm.trans hwrite₂)
      subst hsame
      have hfinal := ih hs₂ hrest
      unfold setsOf MemoryWrite.sets at hfinal ⊢
      rwa [List.flatMap_cons, List.reverse_append, List.append_assoc]

/-! ## Reads -/

/-- `Memory::get_from_memory` of a native process on the node's Redis. -/
def Stores.getFromMemory (s : Stores) (key : Bytes) : Option Bytes :=
  (Memory.new s.redis ∅).getFromMemory key

/-- What the node and the native processor read of a key that was set.  A block number that
is no `u64` is lost on the native processor, which goes on with block zero. -/
theorem read_of_latest {s : Stores} {sets : List Entry} (hs : Recorded s.redis sets)
    {key : Bytes} {e : Entry} (hlatest : latest sets key = some e) :
    s.memoryGet key = .ok (.value e.value) ∧ s.getFromMemory key =
      some (if e.blockNumber < 2 ^ 64 then e.value else atZero sets key) := by
  obtain ⟨items, hlist⟩ := hs.list key e hlatest
  obtain ⟨fields, hfields, hvalues⟩ := hs.values
  have hvalue := hvalues key e.blockNumber
  rw [keptAt_of_latest hlatest] at hvalue
  constructor
  · simp [Stores.memoryGet, BlockIndex.getLatest, Redis.lrange, hlist, Except.map,
      Redis.slice, matchOk, toInteger, Redis.hget, hfields, hvalue, bind, Except.bind,
      pure, Except.pure]
  · unfold Stores.getFromMemory Memory.getFromMemory Memory.new
    rw [getLatest_of_cons hlist]
    split
    · simp [Redis.hget, hfields, Except.map, hvalue, Item.asBytes]
    · unfold atZero
      cases hkept : keptAt sets 0 key <;>
        simp [Redis.hget, hfields, Except.map, hvalues key 0, hkept, Item.asBytes]

/-- What they read of a key that was not set, and whose list nothing uses. -/
theorem read_of_absent {s : Stores} {sets : List Entry} (hs : Recorded s.redis sets)
    {key : Bytes} (hlatest : latest sets key = none) (hindex : ¬ IsIndex sets key) :
    s.memoryGet key = .ok .unset ∧ s.getFromMemory key = some [] := by
  have hlist := Redis.list_of_absent (hs.absent key hlatest hindex)
  obtain ⟨fields, hfields, hvalues⟩ := hs.values
  constructor
  · simp [Stores.memoryGet, BlockIndex.getLatest, Redis.lrange, hlist, Except.map,
      Redis.slice, matchOk, bind, Except.bind, pure, Except.pure]
  · simp [Stores.getFromMemory, Memory.getFromMemory, getLatest_of_nil hlist, Memory.new,
      Except.map, Redis.hget, hfields, hvalues key 0, keptAt_of_not_set hlatest]

/-- What they read of a key that was not set, and whose list is an index hash. -/
theorem read_of_index {s : Stores} {sets : List Entry} (hs : Recorded s.redis sets)
    {key : Bytes} (hlatest : latest sets key = none) (hindex : IsIndex sets key) :
    s.memoryGet key = .error .matchError ∧ s.getFromMemory key = none := by
  obtain ⟨fields, hlookup⟩ := hs.index key hlatest hindex
  have hlist := Redis.list_of_hash hlookup
  constructor
  · simp [Stores.memoryGet, BlockIndex.getLatest, Redis.lrange, hlist, Except.map, matchOk,
      bind, Except.bind]
  · simp [Stores.getFromMemory, Memory.getFromMemory, getLatest, Memory.new, Redis.lrange,
      hlist, Except.map]

/-! ## When a changeset reads back -/

/-- After the write the key reads, on both sides, as the changeset has it, or as
before where the changeset has it not. -/
def ReadsBack (s : Stores) (w : MemoryWrite) (key : Bytes) : Prop :=
  ∃ s', s.step w.op = .ok s' ∧
    (∀ value, (key, value) ∈ w.changes.entries →
      s'.memoryGet key = .ok (.value value) ∧ s'.getFromMemory key = some value) ∧
    (key ∉ w.changes.entries.map Prod.fst →
      s'.memoryGet key = s.memoryGet key ∧ s'.getFromMemory key = s.getFromMemory key)

/-- No name clash on the way, and none made for the key that is read; a block number that
the native processor can parse, or that leaves it with the same value. -/
structure Clear (sets : List Entry) (w : MemoryWrite) (key : Bytes) : Prop where
  free : FreeAll sets w.sets
  fits : ∀ value, (key, value) ∈ w.changes.entries →
    w.blockNumber < 2 ^ 64 ∨ w.blockNumber % 2 ^ 64 = 0 ∨ value = atZero sets key
  other : key ∉ w.changes.entries.map Prod.fst → latest sets key = none →
    IsIndex w.sets key → IsIndex sets key

theorem latest_append (xs ys : List Entry) (key : Bytes) :
    latest (xs ++ ys) key = (latest xs key).or (latest ys key) := by
  unfold latest
  exact List.find?_append

theorem isIndex_append {xs ys : List Entry} {key : Bytes} :
    IsIndex (xs ++ ys) key ↔ IsIndex xs key ∨ IsIndex ys key := by
  simp [IsIndex, or_and_right, exists_or]

theorem isIndex_reverse {xs : List Entry} {key : Bytes} :
    IsIndex xs.reverse key ↔ IsIndex xs key := by
  simp [IsIndex]

theorem latest_eq_none {sets : List Entry} {key : Bytes} :
    latest sets key = none ↔ ∀ e ∈ sets, e.key ≠ key := by
  simp [latest]

/-- The set of a key in a changeset is its only one there. -/
theorem latest_of_mem {w : MemoryWrite} {key value : Bytes}
    (hmem : (key, value) ∈ w.changes.entries) :
    latest w.sets.reverse key = some ⟨w.blockNumber, key, value⟩ := by
  have hset : (⟨w.blockNumber, key, value⟩ : Entry) ∈ w.sets.reverse :=
    List.mem_reverse.mpr (List.mem_map.mpr ⟨_, hmem, rfl⟩)
  cases hlatest : latest w.sets.reverse key with
  | none => exact absurd rfl (latest_eq_none.mp hlatest _ hset)
  | some d =>
      have hd := List.mem_reverse.mp (List.mem_of_find?_eq_some hlatest)
      obtain ⟨p, hp, rfl⟩ := List.mem_map.mp hd
      have hkey : p.1 = key := by simpa using List.find?_some hlatest
      have hsame : p = (key, value) :=
        List.inj_on_of_nodup_map w.changes.nodup hp hmem hkey
      rw [hsame]

theorem latest_of_not_mem {w : MemoryWrite} {key : Bytes}
    (hmem : key ∉ w.changes.entries.map Prod.fst) : latest w.sets.reverse key = none := by
  refine latest_eq_none.mpr fun d hd hkey => hmem ?_
  obtain ⟨p, hp, rfl⟩ := List.mem_map.mp (List.mem_reverse.mp hd)
  exact List.mem_map.mpr ⟨p, hp, hkey⟩

theorem latest_write {w : MemoryWrite} {key value : Bytes}
    (hmem : (key, value) ∈ w.changes.entries) (sets : List Entry) :
    latest (w.sets.reverse ++ sets) key = some ⟨w.blockNumber, key, value⟩ := by
  rw [latest_append, latest_of_mem hmem]
  rfl

theorem keptAt_append (xs ys : List Entry) (n : Nat) (key : Bytes) :
    keptAt (xs ++ ys) n key = (keptAt xs n key).or (keptAt ys n key) := by
  unfold keptAt
  exact List.find?_append

/-- Sets at one block are kept where that block's values are. -/
theorem keptAt_of_block {sets : List Entry} {m : Nat} (h : ∀ e ∈ sets, e.blockNumber = m)
    (n : Nat) (key : Bytes) :
    keptAt sets n key = if m % 2 ^ 64 = n % 2 ^ 64 then latest sets key else none := by
  induction sets with
  | nil =>
      split <;> rfl
  | cons e rest ih =>
      obtain ⟨he, hrest⟩ := List.forall_mem_cons.mp h
      rw [keptAt_cons, latest_cons, ih hrest, he]
      generalize m % 2 ^ 64 = a, n % 2 ^ 64 = b
      by_cases hkey : e.key = key <;> by_cases hmod : a = b <;> simp [hkey, hmod]

/-- What a read at block zero gives after a write. -/
theorem atZero_write {w : MemoryWrite} {key value : Bytes}
    (hmem : (key, value) ∈ w.changes.entries) (sets : List Entry) :
    atZero (w.sets.reverse ++ sets) key =
      if w.blockNumber % 2 ^ 64 = 0 then value else atZero sets key := by
  have hblock : ∀ e ∈ w.sets.reverse, e.blockNumber = w.blockNumber := by
    intro e he
    obtain ⟨p, _, rfl⟩ := List.mem_map.mp (List.mem_reverse.mp he)
    rfl
  unfold atZero
  rw [keptAt_append, keptAt_of_block hblock, latest_of_mem hmem, Nat.zero_mod]
  by_cases hzero : w.blockNumber % 2 ^ 64 = 0
  · rw [if_pos hzero, if_pos hzero]
    rfl
  · rw [if_neg hzero, if_neg hzero]
    rfl

theorem latest_write_of_not_mem {w : MemoryWrite} {key : Bytes}
    (hmem : key ∉ w.changes.entries.map Prod.fst) (sets : List Entry) :
    latest (w.sets.reverse ++ sets) key = latest sets key := by
  rw [latest_append, latest_of_not_mem hmem]
  rfl

theorem atZero_write_of_not_mem {w : MemoryWrite} {key : Bytes}
    (hmem : key ∉ w.changes.entries.map Prod.fst) (sets : List Entry) :
    atZero (w.sets.reverse ++ sets) key = atZero sets key := by
  unfold atZero
  rw [keptAt_append, keptAt_of_not_set (latest_of_not_mem hmem)]
  rfl

/-- What is read of a key that was not set says whether its list is an index
hash. -/
theorem memoryGet_eq_iff {s s' : Stores} {sets sets' : List Entry}
    (hs : Recorded s.redis sets) (hs' : Recorded s'.redis sets') {key : Bytes}
    (hlatest : latest sets key = none) (hlatest' : latest sets' key = none) :
    (s'.memoryGet key = s.memoryGet key ∧ s'.getFromMemory key = s.getFromMemory key) ↔
      (IsIndex sets' key ↔ IsIndex sets key) := by
  by_cases hindex : IsIndex sets key
  · obtain ⟨hget, hnative⟩ := read_of_index hs hlatest hindex
    rw [hget, hnative]
    by_cases hindex' : IsIndex sets' key
    · simp [read_of_index hs' hlatest' hindex', hindex, hindex']
    · simp [read_of_absent hs' hlatest' hindex', hindex, hindex']
  · obtain ⟨hget, hnative⟩ := read_of_absent hs hlatest hindex
    rw [hget, hnative]
    by_cases hindex' : IsIndex sets' key
    · simp [read_of_index hs' hlatest' hindex', hindex, hindex']
    · simp [read_of_absent hs' hlatest' hindex', hindex, hindex']

/-- **When a changeset reads back.**  In a state that some changesets have led to,
a further one completes, and a key then reads on both sides as it has it, or as
before, exactly under these conditions.  No key of it is met for the first time
after the key it is the `_index` of.  A key it has comes with a block number of
eight bytes, or with the value that is kept at block zero by then.  A key it has not,
and that was never set, is not the `_index` of a key it sets for the first time. -/
theorem reads_back_iff {writes : List MemoryWrite} {s : Stores}
    (hrun : Stores.empty.run (writes.map MemoryWrite.op) = .ok s) (w : MemoryWrite)
    (key : Bytes) : ReadsBack s w key ↔ Clear (setsOf writes) w key := by
  have hs : Recorded s.redis (setsOf writes) := by
    have h := recorded_of_run (s := .empty) recorded_empty hrun
    rwa [List.append_nil] at h
  constructor
  · rintro ⟨s', hstep, hread, hother⟩
    have hfree := freeAll_of_write hs hstep
    obtain ⟨s₁, hwrite, hs₁ : Recorded s₁.redis (w.sets.reverse ++ setsOf writes)⟩ :=
      recorded_write hs _ _ hfree
    cases Except.ok.inj (hwrite.symm.trans hstep)
    refine ⟨hfree, fun value hentry => ?_, fun hmem hlatest hindex => ?_⟩
    · have hnative := (read_of_latest hs₁ (latest_write hentry _)).2
      rw [(hread value hentry).2, atZero_write hentry] at hnative
      by_contra hbound
      obtain ⟨hlarge, hzero, hvalue⟩ := not_or.mp hbound |>.imp_right not_or.mp
      rw [if_neg hlarge, if_neg hzero] at hnative
      exact hvalue (Option.some.inj hnative)
    · have hlatest' := (latest_write_of_not_mem hmem (setsOf writes)).trans hlatest
      refine ((memoryGet_eq_iff hs hs₁ hlatest hlatest').mp (hother hmem)).mp ?_
      exact isIndex_append.mpr (.inl (isIndex_reverse.mpr hindex))
  · rintro ⟨hfree, hfits, hindex⟩
    obtain ⟨s', hwrite, hs' : Recorded s'.redis (w.sets.reverse ++ setsOf writes)⟩ :=
      recorded_write hs _ _ hfree
    refine ⟨s', hwrite, fun value hentry => ?_, fun hmem => ?_⟩
    · obtain ⟨hget, hnative⟩ := read_of_latest hs' (latest_write hentry _)
      refine ⟨hget, hnative.trans (congrArg some ?_)⟩
      rw [atZero_write hentry]
      rcases hfits value hentry with hbound | hzero | hvalue
      · exact if_pos hbound
      · rw [if_pos hzero]
        exact ite_self _
      · rw [← hvalue, ite_self, ite_self]
    · have happend := latest_write_of_not_mem hmem (setsOf writes)
      cases hlatest : latest (setsOf writes) key with
      | some e =>
          obtain ⟨hget, hnative⟩ := read_of_latest hs hlatest
          obtain ⟨hget', hnative'⟩ := read_of_latest hs' (happend.trans hlatest)
          rw [atZero_write_of_not_mem hmem] at hnative'
          exact ⟨hget'.trans hget.symm, hnative'.trans hnative.symm⟩
      | none =>
          refine (memoryGet_eq_iff hs hs' hlatest (happend.trans hlatest)).mpr ?_
          refine isIndex_append.trans ⟨fun h => h.elim (fun hnew => ?_) id, .inr⟩
          exact hindex hmem hlatest (isIndex_reverse.mp hnew)

/-! ## A key that is the index of another one -/

/-- A changeset with one key. -/
def Changes.single (key value : Bytes) : Changes where
  entries := [(key, value)]
  nodup := List.nodup_singleton key

/-- The key `k` is written at block 0, then `k_index` at block 1: its list is a
hash by now. -/
theorem index_key_raises :
    ¬ ∀ (writes : List MemoryWrite) (s : Stores) (w : MemoryWrite) (key : Bytes),
      (∀ v ∈ writes, v.blockNumber ≤ w.blockNumber) →
        Stores.empty.run (writes.map MemoryWrite.op) = .ok s → ReadsBack s w key := by
  intro hclaim
  have hfirst : (Stores.empty.run
      ([⟨0, .single [107] [5]⟩].map MemoryWrite.op)).toOption.map (fun s =>
        ((s.step (MemoryWrite.op ⟨1, .single ([107] ++ utf8 "_index") [6]⟩)).toOption.isSome)) =
      some false := by decide +kernel
  obtain ⟨s, hrun, hraise⟩ := exists_ok_of_map hfirst
  obtain ⟨s', hstep, _⟩ := hclaim [⟨0, .single [107] [5]⟩] s
    ⟨1, .single ([107] ++ utf8 "_index") [6]⟩ [] (by decide) hrun
  rw [hstep] at hraise
  cases hraise

/-- Two keys at two blocks: the first reads as before. -/
theorem reads_back_at_two_keys :
    ∃ s, Stores.empty.run ([⟨0, .single [1] [5]⟩].map MemoryWrite.op) = .ok s ∧
      ReadsBack s ⟨1, .single [2] [6]⟩ [1] := by
  have hfirst : (Stores.empty.run
      ([⟨0, .single [1] [5]⟩].map MemoryWrite.op)).toOption.map (fun _ => ()) = some () := by
    decide +kernel
  obtain ⟨s, hrun, _⟩ := exists_ok_of_map hfirst
  refine ⟨s, hrun, (reads_back_iff hrun _ _).mpr ⟨⟨.inr ?_, trivial⟩, ?_, ?_⟩⟩
  · rintro ⟨e, he, hkey⟩
    rw [List.mem_singleton.mp he] at hkey
    revert hkey
    decide +kernel
  · exact fun value _ => .inl (by decide)
  · exact fun _ hlatest => absurd hlatest (by decide)

end Ellipticoind.Ports
