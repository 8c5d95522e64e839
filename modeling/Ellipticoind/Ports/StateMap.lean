import Ellipticoind.Ports.Splitting

/-!
# What the stores stand for

The node's two databases as one map: the value of each key, if it has one.  They
stand for it as far as the keys of a set without collisions in Redis go; writing a
changeset, whatever the order in which it is enumerated and however often it is
written, writes it over the map, and the node and a native program read what the
map has.

Of the lists of block numbers only the heads count here.
`Ports.Reorganisation` has the rest of them, for a revert to come.

## Main results

* `stands_writeAll` — what the writes of a batch's changesets leave.
* `native_of_stands`, `get_of_stands` — what is read of the stores.
-/

namespace Ellipticoind.Ports

/-! ## Maps -/

/-- The value of each key, if it has one. -/
abbrev StateMap := StateType → Bytes → Option Bytes

namespace StateMap

def update (v : StateMap) (kind : StateType) (key value : Bytes) : StateMap :=
  fun kind' key' => if kind' = kind ∧ key' = key then some value else v kind' key'

/-- The changesets of a batch over the map. -/
def write (v : StateMap) (b : Processed) : StateMap :=
  fun kind key => ((b.changeset kind).lookup key).or (v kind key)

end StateMap

/-- The value that is kept under a key and a block number. -/
def Stores.kept (s : Stores) (kind : StateType) (n : Nat) (key : Bytes) : Option Item :=
  match kind with
  | .memory =>
      match s.redis.hget (utf8 "memory") (.bytes (hashKey n key)) with
      | .ok item => item
      | .error _ => none
  | .storage => (s.rocksdb.lookup (hashKey n key)).map .bytes

/-- What the list of a key says, and what is kept under its newest number. -/
inductive EntryStands (s : Stores) (kind : StateType) (key : Bytes) : Option Bytes → Prop
  | unset (hlist : s.redis.list (blockIndexKey kind key) = .ok [])
      (hkept : s.kept kind 0 key = none) : EntryStands s kind key none
  | set {n : Nat} {items : List Item} {value : Bytes}
      (hlist : s.redis.list (blockIndexKey kind key) = .ok (.int n :: items))
      (hbound : n < 2 ^ 64) (hkept : s.kept kind n key = some (.bytes value)) :
      EntryStands s kind key (some value)

/-- The stores stand for the map, as far as the keys of `K` go. -/
structure Stands (K : Bytes → Prop) (s : Stores) (v : StateMap) : Prop where
  entry : ∀ kind key, K key → EntryStands s kind key (v kind key)
  index : ∀ kind key, K key → ∃ fields, s.redis.hash (indexKey kind key) = .ok fields
  table : ∃ fields, s.redis.hash (utf8 "memory") = .ok fields
  members : ∃ members, s.redis.smembers memoryKeys = .ok members

theorem stands_empty (K : Bytes → Prop) : Stands K .empty fun _ _ => none where
  entry kind key _ := by
    refine .unset ?_ ?_
    · simp [Stores.empty, Redis.list]
    · cases kind <;> simp [Stores.empty, Stores.kept, Redis.hget, Redis.hash, Except.map]
  index kind key _ := ⟨∅, by simp [Stores.empty, Redis.hash]⟩
  table := ⟨∅, by simp [Stores.empty, Redis.hash]⟩
  members := ⟨[], by simp [Stores.empty, Redis.smembers]⟩

theorem EntryStands.congr {s s' : Stores} {kind : StateType} {key : Bytes}
    {value : Option Bytes} (h : EntryStands s kind key value)
    (hlist : s'.redis.list (blockIndexKey kind key) = s.redis.list (blockIndexKey kind key))
    (hkept : ∀ n, s'.kept kind n key = s.kept kind n key) :
    EntryStands s' kind key value := by
  cases h with
  | unset hempty hnone => exact .unset (hlist.trans hempty) ((hkept 0).trans hnone)
  | set hcons hbound hvalue =>
      exact .set (hlist.trans hcons) hbound ((hkept _).trans hvalue)

theorem EntryStands.list {s : Stores} {kind : StateType} {key : Bytes}
    {value : Option Bytes} (h : EntryStands s kind key value) :
    ∃ items, s.redis.list (blockIndexKey kind key) = .ok items := by
  cases h with
  | unset hlist => exact ⟨_, hlist⟩
  | set hlist => exact ⟨_, hlist⟩

theorem EntryStands.of_none {s : Stores} {kind : StateType} {key : Bytes}
    (h : EntryStands s kind key none) :
    s.redis.list (blockIndexKey kind key) = .ok [] ∧ s.kept kind 0 key = none := by
  cases h with
  | unset hlist hkept => exact ⟨hlist, hkept⟩

theorem EntryStands.of_some {s : Stores} {kind : StateType} {key value : Bytes}
    (h : EntryStands s kind key (some value)) :
    ∃ n items, s.redis.list (blockIndexKey kind key) = .ok (.int n :: items) ∧
      n < 2 ^ 64 ∧ s.kept kind n key = some (.bytes value) := by
  cases h with
  | set hlist hbound hkept => exact ⟨_, _, hlist, hbound, hkept⟩

section Write

variable {K : Bytes → Prop} (hK : Separated K) {s : Stores} {v : StateMap}
  (hs : Stands K s v)
include hK hs

/-- One `add`: the key's list has a new head, and the other lists, the index hashes and
the tables are as they were. -/
theorem add_of_stands {kind : StateType} {key : Bytes} (hkey : K key) (n : Nat) :
    ∃ r items, BlockIndex.add s.redis kind key n = .ok r ∧
      r.list (blockIndexKey kind key) = .ok (.int n :: items) ∧
      (∀ kind' key', K key' → ¬ (kind' = kind ∧ key' = key) →
        r.list (blockIndexKey kind' key') = s.redis.list (blockIndexKey kind' key')) ∧
      (∀ kind' key', K key' → ∃ fields, r.hash (indexKey kind' key') = .ok fields) ∧
      ∀ k, IsTable k → r.lookup k = s.redis.lookup k := by
  obtain ⟨fields, hfields⟩ := hs.index kind key hkey
  obtain ⟨items, hitems⟩ := (hs.entry kind key hkey).list
  obtain ⟨r, hadd, hlist, hhash, hframe⟩ := add_spec n hitems hfields
  refine ⟨r, items, hadd, hlist, fun kind' key' hkey' hother => ?_, fun kind' key' hkey' => ?_,
    fun k hk => hframe k (hk.ne kind key).1 (hk.ne kind key).2⟩
  · refine Redis.list_congr (hframe _ (fun heq => hother ?_) ?_)
    · exact blockIndexKey_inj heq
    · exact blockIndexKey_ne_indexKey hK hkey' hkey
  · by_cases hsame : indexKey kind' key' = indexKey kind key
    · rw [hsame]
      exact ⟨_, hhash⟩
    · obtain ⟨fields', hfields'⟩ := hs.index kind' key' hkey'
      refine ⟨fields', (Redis.hash_congr (hframe _ (fun heq => ?_) hsame)).trans hfields'⟩
      exact blockIndexKey_ne_indexKey hK hkey hkey' heq.symm

omit hK in
/-- What has to be known of a store for it to stand for the map after one `set`. -/
theorem stands_update {s' : Stores} {kind : StateType} {n : Nat} {key value : Bytes}
    {items : List Item} (hn : n < 2 ^ 64)
    (hlist : s'.redis.list (blockIndexKey kind key) = .ok (.int n :: items))
    (hkept : s'.kept kind n key = some (.bytes value))
    (hlists : ∀ kind' key', K key' → ¬ (kind' = kind ∧ key' = key) →
      s'.redis.list (blockIndexKey kind' key') = s.redis.list (blockIndexKey kind' key'))
    (hothers : ∀ kind' key' m, ¬ (kind' = kind ∧ key' = key) →
      s'.kept kind' m key' = s.kept kind' m key')
    (hindex : ∀ kind' key', K key' →
      ∃ fields, s'.redis.hash (indexKey kind' key') = .ok fields)
    (htable : ∃ fields, s'.redis.hash (utf8 "memory") = .ok fields)
    (hmembers : ∃ members, s'.redis.smembers memoryKeys = .ok members) :
    Stands K s' (v.update kind key value) := by
  refine ⟨fun kind' key' hkey' => ?_, hindex, htable, hmembers⟩
  unfold StateMap.update
  by_cases hsame : kind' = kind ∧ key' = key
  · obtain ⟨rfl, rfl⟩ := hsame
    rw [if_pos ⟨rfl, rfl⟩]
    exact .set hlist hn hkept
  · rw [if_neg hsame]
    exact (hs.entry kind' key' hkey').congr (hlists kind' key' hkey' hsame)
      fun m => hothers kind' key' m hsame

theorem stands_memorySet {n : Nat} {key : Bytes} (hkey : K key) (hn : n < 2 ^ 64)
    (value : Bytes) :
    ∃ s', s.memorySet n key value = .ok s' ∧ Stands K s' (v.update .memory key value) := by
  obtain ⟨r₁, items, hadd, hlist, hlists, hindex, htables⟩ := add_of_stands hK hs hkey n
  obtain ⟨fields, hfields⟩ := hs.table
  obtain ⟨members, hmembers⟩ := hs.members
  obtain ⟨r₂, hsadd, hmembers₂, hframe₂⟩ := Redis.sadd_spec key
    ((Redis.smembers_congr (htables _ (.inr rfl))).trans hmembers)
  have hfields₂ : r₂.hash (utf8 "memory") = .ok fields :=
    (Redis.hash_congr ((hframe₂ _ memory_ne_memoryKeys).trans (htables _ (.inl rfl)))).trans
      hfields
  obtain ⟨r₃, hset, hfields₃, hframe₃⟩ := Redis.hset_spec
    (.bytes (hashKey n key)) (.bytes value) hfields₂
  have hmembers₃ := (Redis.smembers_congr (hframe₃ _ memory_ne_memoryKeys.symm)).trans hmembers₂
  have hframe : ∀ kind' key', r₃.lookup (blockIndexKey kind' key') =
        r₁.lookup (blockIndexKey kind' key') ∧
      r₃.lookup (indexKey kind' key') = r₁.lookup (indexKey kind' key') := by
    intro kind' key'
    obtain ⟨hmemory, hmemory'⟩ := IsTable.ne (.inl rfl) kind' key'
    obtain ⟨hkeys, hkeys'⟩ := IsTable.ne (.inr rfl) kind' key'
    exact ⟨(hframe₃ _ hmemory.symm).trans (hframe₂ _ hkeys.symm),
      (hframe₃ _ hmemory'.symm).trans (hframe₂ _ hkeys'.symm)⟩
  refine ⟨{ s with redis := r₃ }, ?_, stands_update hs hn
    ((Redis.list_congr (hframe _ _).1).trans hlist) ?_ (fun kind' key' hkey' hother => ?_)
    (fun kind' key' m hother => ?_) (fun kind' key' hkey' => ?_) ⟨_, hfields₃⟩ ⟨_, hmembers₃⟩⟩
  · simp [Stores.memorySet, hadd, hsadd, hset, matchOk, dropReply, bind, Except.bind, pure,
      Except.pure]
  · simp [Stores.kept, Redis.hget, hfields₃, Except.map]
  · exact (Redis.list_congr (hframe _ _).1).trans (hlists kind' key' hkey' hother)
  · cases kind' with
    | storage => rfl
    | memory =>
        have hne : Item.bytes (hashKey m key') ≠ .bytes (hashKey n key) := fun heq =>
          hother ⟨rfl, (hashKey_eq_iff.mp (Item.bytes.inj heq)).1⟩
        simp [Stores.kept, Redis.hget, hfields₃, hfields, Except.map,
          Finmap.lookup_insert_of_ne _ hne]
  · obtain ⟨fields', hfields'⟩ := hindex kind' key' hkey'
    exact ⟨fields', (Redis.hash_congr (hframe _ _).2).trans hfields'⟩

theorem stands_storageSet {n : Nat} {key : Bytes} (hkey : K key) (hn : n < 2 ^ 64)
    (value : Bytes) :
    ∃ s', s.storageSet n key value = .ok s' ∧ Stands K s' (v.update .storage key value) := by
  obtain ⟨r, items, hadd, hlist, hlists, hindex, htables⟩ := add_of_stands hK hs hkey n
  obtain ⟨fields, hfields⟩ := hs.table
  obtain ⟨members, hmembers⟩ := hs.members
  have htable := (Redis.hash_congr (htables _ (.inl rfl))).trans hfields
  refine ⟨⟨r, s.rocksdb.insert (hashKey n key) value⟩, ?_, stands_update hs hn hlist ?_ hlists
    (fun kind' key' m hother => ?_) hindex ⟨_, htable⟩
    ⟨_, (Redis.smembers_congr (htables _ (.inr rfl))).trans hmembers⟩⟩
  · simp [Stores.storageSet, hadd, bind, Except.bind, pure, Except.pure]
  · simp [Stores.kept]
  · cases kind' with
    | memory => simp [Stores.kept, Redis.hget, htable, hfields]
    | storage =>
        have hne : hashKey m key' ≠ hashKey n key := fun heq =>
          hother ⟨rfl, (hashKey_eq_iff.mp heq).1⟩
        simp [Stores.kept, Finmap.lookup_insert_of_ne _ hne]

/-- A `set` of a key of `K` is an update of the map. -/
theorem stands_set {kind : StateType} {n : Nat} {key : Bytes} (hkey : K key)
    (hn : n < 2 ^ 64) (value : Bytes) :
    ∃ s', s.set kind n key value = .ok s' ∧ Stands K s' (v.update kind key value) := by
  cases kind with
  | memory => exact stands_memorySet hK hs hkey hn value
  | storage => exact stands_storageSet hK hs hkey hn value

/-- The writes of one changeset, each an update of the map. -/
theorem stands_writeEach (kind : StateType) {n : Nat} {entries : List (Bytes × Bytes)}
    (hkeys : ∀ e ∈ entries, K e.1) (hn : n < 2 ^ 64) :
    ∃ s', Stores.writeEach kind n s entries = (s', true) ∧
      Stands K s' (entries.foldl (fun v e => v.update kind e.1 e.2) v) := by
  induction entries generalizing s v with
  | nil => exact ⟨s, rfl, hs⟩
  | cons e rest ih =>
      obtain ⟨hkey, hkeys⟩ := List.forall_mem_cons.mp hkeys
      obtain ⟨s₁, hset, hs₁⟩ := stands_set hK hs hkey hn e.2
      obtain ⟨s', hwrite, hs'⟩ := ih hs₁ hkeys
      refine ⟨s', ?_, hs'⟩
      rw [Stores.writeEach, set_eq_ok.mp hset]
      exact hwrite

end Write

/-- The enumeration of a map has its pairs and no others. -/
def Enumerates (toList : Changeset → List (Bytes × Bytes)) : Prop :=
  ∀ changeset key value, (key, value) ∈ toList changeset ↔ changeset.lookup key = some value

/-- The updates that a changeset is enumerated as, whatever their order. -/
theorem foldl_update {kind : StateType} {changeset : Changeset} {v : StateMap}
    {entries : List (Bytes × Bytes)} (hsub : ∀ e ∈ entries, changeset.lookup e.1 = some e.2)
    (kind' : StateType) (key : Bytes) :
    (entries.foldl (fun v e => v.update kind e.1 e.2) v) kind' key =
      if kind' = kind ∧ key ∈ entries.map Prod.fst then changeset.lookup key
      else v kind' key := by
  induction entries generalizing v with
  | nil => simp
  | cons e rest ih =>
      obtain ⟨hfirst, hrest⟩ := List.forall_mem_cons.mp hsub
      rw [List.foldl_cons, ih hrest, List.map_cons]
      by_cases hmem : kind' = kind ∧ key ∈ rest.map Prod.fst
      · rw [if_pos hmem, if_pos ⟨hmem.1, List.mem_cons_of_mem _ hmem.2⟩]
      · rw [if_neg hmem, StateMap.update]
        by_cases hsame : kind' = kind ∧ key = e.1
        · obtain ⟨rfl, rfl⟩ := hsame
          rw [if_pos ⟨rfl, rfl⟩, if_pos ⟨rfl, List.mem_cons_self⟩, hfirst]
        · rw [if_neg hsame, if_neg]
          rintro ⟨hkind, hkey⟩
          rcases List.mem_cons.mp hkey with heq | hkey
          · exact hsame ⟨hkind, heq⟩
          · exact hmem ⟨hkind, hkey⟩

/-- The changesets of the given kinds over the map. -/
def StateMap.writeKinds (v : StateMap) (b : Processed) (kinds : List StateType) : StateMap :=
  fun kind key => if kind ∈ kinds then v.write b kind key else v kind key

/-- Writing a changeset a second time changes nothing of the map. -/
theorem StateMap.writeKinds_cons (v : StateMap) (b : Processed) (kind : StateType)
    (kinds : List StateType) :
    (v.writeKinds b [kind]).writeKinds b kinds = v.writeKinds b (kind :: kinds) := by
  funext kind' key
  have htwice : (v.write b).write b kind' key = v.write b kind' key := by
    show Option.or _ (Option.or _ _) = Option.or _ _
    rw [← Option.or_assoc, Option.or_self]
  unfold writeKinds
  by_cases hkind : kind' = kind
  · subst hkind
    simp only [write, List.mem_cons, true_or, if_true] at htwice ⊢
    split
    · exact htwice
    · rfl
  · have hmem : kind' ∈ kind :: kinds ↔ kind' ∈ kinds :=
      ⟨fun h => (List.mem_cons.mp h).resolve_left hkind, List.mem_cons_of_mem _⟩
    simp only [hmem, write, List.mem_singleton, hkind, if_false]

theorem StateMap.writeKinds_of_all (v : StateMap) (b : Processed) {kinds : List StateType}
    (h : ∀ kind, kind ∈ kinds) : v.writeKinds b kinds = v.write b := by
  funext kind key
  exact if_pos (h kind)

section WriteAll

variable {K : Bytes → Prop} (hK : Separated K)
  {toList : Changeset → List (Bytes × Bytes)} (hlist : Enumerates toList)
include hlist

theorem foldl_toList (v : StateMap) (b : Processed) (kind : StateType) :
    (toList (b.changeset kind)).foldl (fun v e => v.update kind e.1 e.2) v =
      v.writeKinds b [kind] := by
  funext kind' key
  have hsub : ∀ e ∈ toList (b.changeset kind), (b.changeset kind).lookup e.1 = some e.2 :=
    fun e he => (hlist _ _ _).mp he
  rw [foldl_update hsub]
  unfold StateMap.writeKinds StateMap.write
  by_cases hkind : kind' = kind
  · subst hkind
    rw [if_pos (List.mem_singleton_self _)]
    cases hlookup : (b.changeset kind').lookup key with
    | none =>
        rw [if_neg, Option.none_or]
        rintro ⟨-, hmem⟩
        obtain ⟨e, he, rfl⟩ := List.mem_map.mp hmem
        cases hlookup.symm.trans ((hlist _ _ _).mp he)
    | some value =>
        rw [if_pos ⟨rfl, List.mem_map.mpr ⟨_, (hlist _ _ _).mpr hlookup, rfl⟩⟩, Option.some_or]
  · rw [if_neg fun h => hkind h.1, if_neg fun h => hkind (List.mem_singleton.mp h)]

include hK

/-- Writing the changesets of a batch, one kind after the other. -/
theorem stands_writeAll {b : Processed} {n : Nat}
    (hkeys : ∀ kind key value, (b.changeset kind).lookup key = some value → K key)
    (hn : n < 2 ^ 64) (kinds : List StateType) {s : Stores} {v : StateMap}
    (hs : Stands K s v) :
    ∃ s', s.writeAll toList b n kinds = (s', true) ∧ Stands K s' (v.writeKinds b kinds) := by
  induction kinds generalizing s v with
  | nil => exact ⟨s, rfl, hs⟩
  | cons kind rest ih =>
      have hentries : ∀ e ∈ toList (b.changeset kind), K e.1 := fun e he =>
        hkeys kind e.1 e.2 ((hlist _ _ _).mp he)
      obtain ⟨s₁, hwrite, hs₁⟩ := stands_writeEach hK hs kind hentries hn
      rw [foldl_toList hlist] at hs₁
      obtain ⟨s', hrest, hs'⟩ := ih hs₁
      rw [StateMap.writeKinds_cons] at hs'
      refine ⟨s', ?_, hs'⟩
      rw [Stores.writeAll, hwrite]
      exact hrest

end WriteAll

/-! ## What is read of them -/

section Read

variable {K : Bytes → Prop} {s : Stores} {v : StateMap}

/-- What a native program reads of a key: its value, or nothing. -/
theorem native_of_stands (hs : Stands K s v) {key : Bytes} (hkey : K key) :
    s.getFromMemory key = some ((v .memory key).getD []) ∧
      s.getFromStorage key = some ((v .storage key).getD []) := by
  have hlatest (kind : StateType) : ∃ n, getLatest s.redis kind key = some n ∧
      s.kept kind n key = (v kind key).map .bytes := by
    cases hv : v kind key with
    | none =>
        obtain ⟨hlist, hkept⟩ := (hv ▸ hs.entry kind key hkey).of_none
        exact ⟨0, getLatest_of_nil hlist, hkept⟩
    | some value =>
        obtain ⟨n, items, hlist, hbound, hkept⟩ := (hv ▸ hs.entry kind key hkey).of_some
        exact ⟨n, (getLatest_of_cons hlist).trans (congrArg some (if_pos hbound)), hkept⟩
  constructor
  · obtain ⟨n, hn, hkept⟩ := hlatest .memory
    obtain ⟨fields, hfields⟩ := hs.table
    simp only [Stores.kept, Redis.hget, hfields, Except.map] at hkept
    unfold Stores.getFromMemory Memory.getFromMemory Memory.new
    rw [hn]
    simp only [Option.bind_some, Redis.hget, hfields, Except.map, hkept]
    cases v .memory key <;> rfl
  · obtain ⟨n, hn, hkept⟩ := hlatest .storage
    unfold Stores.getFromStorage Storage.getFromStorage Storage.new
    rw [hn]
    simp only [Stores.kept] at hkept
    rw [Option.map_some, Option.map_injective (fun _ _ h => Item.bytes.inj h) hkept]

/-- What the node answers for a key. -/
theorem get_of_stands (hs : Stands K s v) (kind : StateType) {key : Bytes} (hkey : K key) :
    s.get kind key =
      .ok (match v kind key with
        | none => .unset
        | some value => .value value) := by
  cases hv : v kind key with
  | none =>
      obtain ⟨hlist, -⟩ := (hv ▸ hs.entry kind key hkey).of_none
      cases kind <;>
        simp [Stores.get, Stores.memoryGet, Stores.storageGet, BlockIndex.getLatest,
          Redis.lrange, hlist, Except.map, Redis.slice, matchOk, bind, Except.bind, pure,
          Except.pure]
  | some value =>
      obtain ⟨n, items, hlist, -, hkept⟩ := (hv ▸ hs.entry kind key hkey).of_some
      have hlatest : BlockIndex.getLatest s.redis kind key = .ok (some n) := by
        simp [BlockIndex.getLatest, Redis.lrange, hlist, Except.map, Redis.slice, matchOk,
          toInteger, bind, Except.bind, pure, Except.pure]
      cases kind with
      | memory =>
          obtain ⟨fields, hfields⟩ := hs.table
          simp only [Stores.kept, Redis.hget, hfields, Except.map] at hkept
          simp [Stores.get, Stores.memoryGet, hlatest, Redis.hget, hfields, Except.map, hkept,
            matchOk, bind, Except.bind, pure, Except.pure]
      | storage =>
          obtain ⟨value', hvalue, heq⟩ := Option.map_eq_some_iff.mp hkept
          cases heq
          simp [Stores.get, Stores.storageGet, hlatest, hvalue, bind, Except.bind, pure,
            Except.pure]

end Read

end Ellipticoind.Ports
