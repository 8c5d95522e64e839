import Ellipticoind.Ports.Copies

/-!
# The list `transactions::processing`

`get_next_transaction` moves an entry from the queue to this list, and
`remove_from_processing` takes out what equals `to_vec` of the decoded
transaction.  The node has encoded a map, whose keys are in order, and `to_vec`
encodes a struct, whose fields are in the order of their declaration.

## Main results

* `ne_toVec` — no entry that can be decoded is what `to_vec` makes of any
  transaction.
* `stays_in_processing` — an entry that was popped and decoded is in the list
  ever after.
-/

namespace Ellipticoind.Ports.Node

open Ellipticoind.Verified Records

/-- Some producer encodes the entry: `Transaction.post` at a map or a struct. -/
def Produced (K : Codec) (entry : Bytes) : Prop :=
  ∃ message, asBinary K message = some entry

/-- The fields of a `Transaction` in the order of their declaration, which
`to_vec` keeps. -/
def KeepsFieldOrder (K : Codec) : Prop :=
  ∀ t entries, K.read (K.toVec t) = some entries → entries.map Prod.fst =
    ["contract_address", "sender", "nonce", "gas_limit", "function", "arguments"].map utf8

/-- A producer has encoded the entry, and it can be decoded. -/
def Lasting (K : Codec) (entry : Bytes) : Prop :=
  Produced K entry ∧ ∃ t, fromSlice K entry = some t

variable {C : NodeConfig} {P : Platform} {fuel : Nat} {K : Codec}

/-! ## The order of the fields -/

theorem key_eq_arguments {f : TransactionField} (h : utf8 f.key = utf8 "arguments") :
    f = .arguments := by
  cases f <;> first | rfl | exact absurd h (by decide)

theorem mem_of_field {entries : List (Bytes × Cbor.Item)} {name : String} {item : Cbor.Item}
    (h : field entries name = some item) : ∃ entry ∈ entries, entry.1 = utf8 name := by
  unfold field at h
  split at h
  · rename_i entry hfilter
    have hmem : entry ∈ entries.filter fun entry => entry.1 = utf8 name := by
      rw [hfilter]
      exact List.mem_singleton_self entry
    obtain ⟨hentry, hname⟩ := List.mem_filter.mp hmem
    exact ⟨entry, hentry, of_decide_eq_true hname⟩
  · cases h

/-- A map with arguments has them first. -/
theorem pairs_of_arguments {attributes : Attributes} {pair : Bytes × Term}
    (h : pair ∈ attributes.pairs) (hkey : pair.1 = utf8 "arguments") :
    ∃ rest, attributes.pairs = (utf8 "arguments", pair.2) :: rest := by
  obtain ⟨f, -, hf⟩ := List.mem_filterMap.mp h
  obtain ⟨term, hterm, rfl⟩ := Option.map_eq_some_iff.mp hf
  rw [key_eq_arguments hkey] at hterm
  exact ⟨_, List.filterMap_cons_some (by rw [hterm]; rfl)⟩

/-- **What is removed is not what was moved**: an entry that can be decoded is
not what `to_vec` makes of any transaction. -/
theorem ne_toVec (hK : K.Writes) (horder : KeepsFieldOrder K) {entry : Bytes}
    (h : Lasting K entry) (t : Transaction) : entry ≠ K.toVec t := by
  rintro rfl
  obtain ⟨⟨message, hmessage⟩, u, hu⟩ := h
  obtain ⟨entries, hread, hfields⟩ := fromSlice_eq_some_iff.mp hu
  obtain ⟨map, -, hencode⟩ := Option.bind_eq_some_iff.mp hmessage
  have hpairs := hread
  rw [hK.read _ _ hencode] at hpairs
  obtain ⟨-, hpairs⟩ := Option.ite_none_right_eq_some.mp hpairs
  cases hpairs
  obtain ⟨item, hitem, -⟩ := Option.bind_eq_some_iff.mp hfields.arguments
  obtain ⟨entry, hentry, hkey⟩ := mem_of_field hitem
  obtain ⟨pair, hpair, rfl⟩ := List.mem_map.mp hentry
  obtain ⟨rest, hrest⟩ := pairs_of_arguments hpair hkey
  have hkeys := horder t _ hread
  rw [hrest] at hkeys
  have hne : utf8 "arguments" ≠ utf8 "contract_address" := by decide
  exact hne (List.cons.inj hkeys).1

/-! ## What a step removes -/

theorem mem_filter_ne_toVec (hC : C.codec.Writes) (horder : KeepsFieldOrder C.codec)
    {processing : List Bytes} {entry : Bytes} (hlasting : Lasting C.codec entry)
    (h : entry ∈ processing) (t : Transaction) :
    entry ∈ processing.filter (· ≠ C.transactionToVec t) :=
  List.mem_filter.mpr ⟨h, decide_eq_true (ne_toVec hC horder hlasting t)⟩

/-- No step takes an entry that can be decoded out of the list. -/
theorem mem_processing_of_step (hC : C.codec.Writes) (horder : KeepsFieldOrder C.codec)
    {n n' : Node} {action : Action} {entry : Bytes} (hlasting : Lasting C.codec entry)
    (h : entry ∈ n.processing) (hstep : n.step C P fuel action = some n') :
    entry ∈ n'.processing := by
  cases move_of_step hstep with
  | post | refusePost | deliver => exact h
  | p2p hmove =>
      cases hmove with
      | execute => exact mem_filter_ne_toVec hC horder hlasting h _
      | _ => exact h
  | miner hmove =>
      cases hmove with
      | closeProcessor =>
          unfold closeNative
          split <;> exact h
      | closeHashfactor =>
          unfold closeHasher
          split <;> exact h
      | _ => exact h
  | native hmove =>
      cases hmove with
      | pop => exact List.mem_cons_of_mem _ h
      | execute => exact mem_filter_ne_toVec hC horder hlasting h _
      | _ => exact h

theorem mem_processing_of_run (hC : C.codec.Writes) (horder : KeepsFieldOrder C.codec)
    {n n' : Node} {actions : List Action} {entry : Bytes} (hlasting : Lasting C.codec entry)
    (h : entry ∈ n.processing) (hrun : run C P fuel n actions = some n') :
    entry ∈ n'.processing := by
  have hkeeps (n : Node) (action : Action) (n' : Node) (hn : entry ∈ n.processing) (_ : True)
      (hstep : n.step C P fuel action = some n') : entry ∈ n'.processing :=
    mem_processing_of_step hC horder hlasting hn hstep
  exact Runs.invariant_of_run hkeeps h (Runs.meets_true n actions) hrun

/-! ## What has been popped -/

/-- The entry that a program has popped and not finished. -/
def work (native : Native) : List Bytes := native.popped.toList

def inWork (natives : List Native) : List Bytes := natives.flatMap work

theorem work_close (m : Native) : work { m with connected := false } = work m := rfl

/-- All entries are a producer's, and those that were popped are in the list. -/
structure Tracked (K : Codec) (n : Node) : Prop where
  queued : ∀ entry ∈ n.queued, Produced K entry
  inbox : ∀ entry, .transaction entry ∈ n.inbox → Produced K entry
  popped : ∀ entry ∈ inWork n.natives, Produced K entry ∧
    (Lasting K entry → entry ∈ n.processing)

/-- The P2P process is handed only what a producer has encoded. -/
def DeliversProduced (K : Codec) (_ : Node) : Action → Prop
  | .deliver (.transaction entry) => Produced K entry
  | _ => True

theorem Tracked.push {n : Node} {entry : Bytes} (h : Tracked K n) (hentry : Produced K entry) :
    Tracked K (n.push C entry) where
  queued e he := (List.mem_cons.mp he).elim (fun heq => heq ▸ hentry) (h.queued e)
  inbox := h.inbox
  popped := h.popped

theorem Tracked.restart {n : Node} (h : Tracked K n) : Tracked K (n.restart C) where
  queued := h.queued
  inbox := h.inbox
  popped := by
    have hinWork : inWork (n.restart C).natives = inWork n.natives :=
      flatMap_restart work_close n.natives
    rw [hinWork]
    exact h.popped

theorem Tracked.closeNative {n : Node} (h : Tracked K n) (port : Nat) :
    Tracked K (n.closeNative C port) := by
  unfold Node.closeNative
  split
  · refine ⟨h.queued, h.inbox, ?_⟩
    have hinWork : inWork (n.natives.map fun native =>
        if native.port = port then { native with connected := false } else native) =
        inWork n.natives :=
      flatMap_close work_close port n.natives
    simp only [stopped, hinWork]
    exact h.popped
  · exact h.restart

theorem Tracked.closeHasher {n : Node} (h : Tracked K n) (port : Nat) :
    Tracked K (n.closeHasher C port) := by
  unfold Node.closeHasher
  split
  · exact ⟨h.queued, h.inbox, h.popped⟩
  · exact h.restart

theorem tracked_of_minerMove {n n' : Node} (h : Tracked C.codec n)
    (hmove : MinerMove C n n') : Tracked C.codec n' := by
  cases hmove with
  | strayLine | wrongLine | wrongNonce | insertRaises | mintRaises => exact h.restart
  | closeProcessor => exact h.closeNative _
  | closeHashfactor => exact h.closeHasher _
  | writeRaises => exact Tracked.restart ⟨h.queued, h.inbox, h.popped⟩
  | mint hphase hentry =>
      have hpush := h.push (C := C) ⟨_, hentry⟩
      exact ⟨hpush.queued, hpush.inbox, hpush.popped⟩
  | _ => exact ⟨h.queued, h.inbox, h.popped⟩

theorem Tracked.keep {n n' : Node} (h : Tracked K n) (hqueued : n'.queued = n.queued)
    (hinbox : n'.inbox ⊆ n.inbox) (hinWork : inWork n'.natives ⊆ inWork n.natives)
    (hprocessing : ∀ entry, Lasting K entry → entry ∈ n.processing → entry ∈ n'.processing) :
    Tracked K n' where
  queued := by
    rw [hqueued]
    exact h.queued
  inbox entry hentry := h.inbox entry (hinbox hentry)
  popped entry hentry := by
    obtain ⟨hproduced, hmem⟩ := h.popped entry (hinWork hentry)
    exact ⟨hproduced, fun hlasting => hprocessing entry hlasting (hmem hlasting)⟩

theorem tracked_of_p2pMove (hC : C.codec.Writes) (horder : KeepsFieldOrder C.codec)
    {n n' : Node} (h : Tracked C.codec n) (hmove : P2PMove C P fuel n n') :
    Tracked C.codec n' := by
  cases hmove with
  | post hphase hinbox =>
      have hentry := h.inbox _ (by rw [hinbox]; exact List.mem_cons_self)
      refine Tracked.push ⟨h.queued, fun entry hmem => ?_, h.popped⟩ hentry
      exact h.inbox entry (by rw [hinbox]; exact List.mem_cons_of_mem _ hmem)
  | accept _ hinbox | reject _ hinbox =>
      refine h.keep rfl ?_ (List.Subset.refl _) fun _ _ hmem => hmem
      rw [hinbox]
      exact List.subset_cons_self _ _
  | execute =>
      exact h.keep rfl (List.Subset.refl _) (List.Subset.refl _) fun _ hlasting hmem =>
        mem_filter_ne_toVec hC horder hlasting hmem _
  | writeRaises | insertRaises =>
      exact h.keep rfl (List.nil_subset _) (List.Subset.refl _) fun _ _ hmem => hmem
  | _ => exact ⟨h.queued, h.inbox, h.popped⟩

theorem mem_inWork_split {before after : List Native} {native : Native} {entry : Bytes} :
    entry ∈ inWork (before ++ (native :: after)) ↔
      entry ∈ inWork before ∨ entry ∈ work native ∨ entry ∈ inWork after := by
  simp only [inWork, List.flatMap_append, List.flatMap_cons, List.mem_append]

/-- A program that goes on with less leaves no more in work. -/
theorem inWork_subset {before after : List Native} {native native' : Native}
    (h : work native' ⊆ work native) :
    inWork (before ++ (native' :: after)) ⊆ inWork (before ++ (native :: after)) := by
  intro entry hentry
  rw [mem_inWork_split] at hentry ⊢
  exact hentry.imp_right (Or.imp_left fun hmem => h hmem)

theorem tracked_of_nativeMove (hC : C.codec.Writes) (horder : KeepsFieldOrder C.codec)
    {n n' : Node} {action : Action} (h : Tracked C.codec n)
    (hmove : NativeMove C P fuel n action n') : Tracked C.codec n' := by
  cases hmove with
  | @pop before after native queued entry hnatives hstage hpopped hqueued =>
      have hentry : Produced C.codec entry := h.queued entry (by simp [hqueued])
      constructor
      · exact fun e he => h.queued e (by rw [hqueued]; exact List.mem_append_left _ he)
      · exact h.inbox
      · intro e he
        rw [mem_inWork_split] at he
        by_cases heq : e = entry
        · rw [heq]
          exact ⟨hentry, fun _ => List.mem_cons_self⟩
        · have hwork : e ∈ inWork n.natives := by
            rw [hnatives, mem_inWork_split]
            exact he.imp_right (Or.imp_left fun hmem => absurd (List.mem_singleton.mp hmem) heq)
          obtain ⟨hproduced, hmem⟩ := h.popped e hwork
          exact ⟨hproduced, fun hlasting => List.mem_cons_of_mem _ (hmem hlasting)⟩
  | undecodable hnatives | executeDies hnatives | finish hnatives =>
      refine h.keep rfl (List.Subset.refl _) ?_ fun _ _ hmem => hmem
      rw [hnatives]
      exact inWork_subset (List.Subset.refl _)
  | execute hnatives =>
      refine h.keep rfl (List.Subset.refl _) ?_ fun _ hlasting hmem =>
        mem_filter_ne_toVec hC horder hlasting hmem _
      rw [hnatives]
      exact inWork_subset (List.nil_subset _)
  | exit hnatives =>
      refine h.keep rfl (List.Subset.refl _) ?_ fun _ _ hmem => hmem
      rw [hnatives]
      intro entry hentry
      rw [mem_inWork_split]
      simp only [inWork, List.flatMap_append, List.mem_append] at hentry
      exact hentry.imp_right Or.inr
  | found | exitHasher => exact ⟨h.queued, h.inbox, h.popped⟩

/-- What the router queues is a producer's. -/
theorem produced_of_queueEntry {request : TransactionMap} {entry : Bytes}
    (h : queueEntry K request = some entry) : Produced K entry := by
  obtain ⟨-, taken, -, hentry⟩ := queueEntry_eq_some_iff.mp h
  exact ⟨_, hentry⟩

theorem tracked_of_step (hC : C.codec.Writes) (horder : KeepsFieldOrder C.codec)
    {n n' : Node} {action : Action} (h : Tracked C.codec n)
    (hcond : DeliversProduced C.codec n action) (hstep : n.step C P fuel action = some n') :
    Tracked C.codec n' := by
  cases move_of_step hstep with
  | post hentry =>
      exact Tracked.push ⟨h.queued, h.inbox, h.popped⟩ (produced_of_queueEntry hentry)
  | refusePost => exact h
  | @deliver message =>
      refine ⟨h.queued, fun entry hentry => ?_, h.popped⟩
      rcases List.mem_append.mp hentry with hentry | hentry
      · exact h.inbox entry hentry
      · cases List.mem_singleton.mp hentry
        exact hcond
  | p2p hmove => exact tracked_of_p2pMove hC horder h hmove
  | miner hmove => exact tracked_of_minerMove h hmove
  | native hmove => exact tracked_of_nativeMove hC horder h hmove

theorem tracked_start (blocks : List Block) (stores : Stores) :
    Tracked K (start blocks stores) where
  queued _ h := absurd h List.not_mem_nil
  inbox _ h := absurd h List.not_mem_nil
  popped _ h := absurd h List.not_mem_nil

/-- **A finished transaction stays in the list**: in every run, an entry that a
program has popped and can decode is in `transactions::processing` after the
program has run it, and ever after. -/
theorem stays_in_processing (hC : C.codec.Writes) (horder : KeepsFieldOrder C.codec)
    {blocks : List Block} {stores : Stores} {actions later : List Action} {n n' n'' : Node}
    {i : Nat} {native : Native} {entry : Bytes} {t : Transaction}
    (hmeets : Runs.Meets (step C P fuel) (DeliversProduced C.codec) (start blocks stores)
      actions)
    (hrun : run C P fuel (start blocks stores) actions = some n)
    (hnative : n.natives[i]? = some native) (hpopped : native.popped = some entry)
    (hdecode : C.decodeTransaction entry = some t)
    (hexecute : n.step C P fuel (.execute i) = some n')
    (hlater : run C P fuel n' later = some n'') :
    C.transactionToVec t ≠ entry ∧ entry ∈ n''.processing := by
  have htracked : Tracked C.codec n :=
    Runs.invariant_of_run
      (fun _ _ _ hn hcond hstep => tracked_of_step hC horder hn hcond hstep)
      (tracked_start blocks stores) hmeets hrun
  have hwork : entry ∈ inWork n.natives :=
    List.mem_flatMap.mpr ⟨native, List.mem_of_getElem? hnative, by simp [work, hpopped]⟩
  obtain ⟨hproduced, hmem⟩ := htracked.popped entry hwork
  have hlasting : Lasting C.codec entry := ⟨hproduced, t, hdecode⟩
  have hafter := mem_processing_of_step hC horder hlasting (hmem hlasting) hexecute
  exact ⟨(ne_toVec hC horder hlasting t).symm,
    mem_processing_of_run hC horder hlasting hafter hlater⟩

/-! ## A transaction that stays -/

theorem codec_keepsFieldOrder : KeepsFieldOrder codec := by
  intro t entries h
  simp only [codec] at h
  split at h
  · rename_i hfits
    rw [readTextMap_write hfits] at h
    cases h
    rfl
  · cases h

/-- A round that pops a posted transaction. -/
def poppedRun : List Action := [.post pingMap, .miner, .miner, .miner, .pop 0]

theorem poppedRun_delivers :
    Runs.Meets (step Script.nodeConfig (Script.platform []) 0) (DeliversProduced codec)
      (start [] .empty) poppedRun := by
  refine Runs.meets_of_forall (fun action haction s => ?_) _
  simp only [poppedRun, List.mem_cons, List.not_mem_nil, or_false] at haction
  rcases haction with rfl | rfl | rfl | rfl | rfl <;> trivial

/-- The program pops the entry, runs it and has finished it; the entry is still
in the list. -/
theorem poppedRun_stays :
    ∃ n n' native native', Script.nodeRun poppedRun = some n ∧ n.natives[0]? = some native ∧
      native.popped = some Script.pingEntry ∧
      n.step Script.nodeConfig (Script.platform []) 0 (.execute 0) = some n' ∧
      n'.natives[0]? = some native' ∧ native'.popped = none ∧
      n'.processing = [Script.pingEntry] := by
  have hrun : ((Script.nodeRun poppedRun).bind fun n =>
      (n.step Script.nodeConfig (Script.platform []) 0 (.execute 0)).map fun n' =>
        (n.natives[0]?.map Native.popped, n'.natives[0]?.map Native.popped, n'.processing)) =
      some (some (some Script.pingEntry), some none, [Script.pingEntry]) := by
    decide +kernel
  obtain ⟨n, hn, hrun⟩ := Option.bind_eq_some_iff.mp hrun
  obtain ⟨n', hn', hrun⟩ := Option.map_eq_some_iff.mp hrun
  simp only [Prod.mk.injEq, Option.map_eq_some_iff] at hrun
  obtain ⟨⟨native, hnative, hpopped⟩, ⟨native', hnative', hfinished⟩, hprocessing⟩ := hrun
  exact ⟨n, n', native, native', hn, hnative, hpopped, hn', hnative', hfinished, hprocessing⟩

/-- What the processor has popped and run is still in the list. -/
theorem finished_transaction_stays :
    ¬ ∀ (C : NodeConfig) (P : Platform) (fuel : Nat), C.codec.Writes →
      KeepsFieldOrder C.codec → ∀ (blocks : List Block) (stores : Stores)
      (actions : List Action) (n n' : Node) (i : Nat) (native native' : Native)
      (entry : Bytes) (t : Transaction),
      Runs.Meets (step C P fuel) (DeliversProduced C.codec) (start blocks stores) actions →
      run C P fuel (start blocks stores) actions = some n →
      n.natives[i]? = some native → native.popped = some entry →
      C.decodeTransaction entry = some t → n.step C P fuel (.execute i) = some n' →
      n'.natives[i]? = some native' → native'.popped = none → entry ∉ n'.processing := by
  intro h
  obtain ⟨n, n', native, native', hn, hnative, hpopped, hn', hnative', hfinished, hprocessing⟩ :=
    poppedRun_stays
  have hgone := h _ _ _ codec_writes codec_keepsFieldOrder _ _ _ _ _ _ _ _ _ _
    poppedRun_delivers hn hnative hpopped Script.decode_ping hn' hnative' hfinished
  rw [hprocessing] at hgone
  exact hgone List.mem_cons_self

theorem stays_in_processing_at_ping :
    ∃ n n', Script.nodeRun poppedRun = some n ∧
      n.step Script.nodeConfig (Script.platform []) 0 (.execute 0) = some n' ∧
      codec.toVec Script.ping ≠ Script.pingEntry ∧ Script.pingEntry ∈ n'.processing := by
  obtain ⟨n, n', native, native', hn, hnative, hpopped, hn', -⟩ := poppedRun_stays
  have hlater : run Script.nodeConfig (Script.platform []) 0 n' [] = some n' := rfl
  exact ⟨n, n', hn, hn', stays_in_processing codec_writes codec_keepsFieldOrder
    poppedRun_delivers hn hnative hpopped Script.decode_ping hn' hlater⟩

end Ellipticoind.Ports.Node
