import Ellipticoind.Verified.StateRun

/-!
# Computations with a log that outlives them

A `StateT σ (Except ε)` that stops leaves no state behind, and so no account of what
it had done by then.  `Logged σ ε ω α` is such a computation with a log: the entries
made before the stop are there after it.

`Logged.run` forgets the log; it is the computation itself, for `run` goes with
sequencing.  `Within cost budget x` says that what the log of `x` costs is paid from a
budget that the state holds, stops included.  `Decides met x` says that `x` stops exactly
where it logs an entry that is not `met`.  `Observes inv good x` says that `x` keeps the
invariant and, stops included, logs only what is `good`.

## Main results

* `run_bind` — forgetting the log goes with sequencing.
* `Within.bind` — so does staying within the budget.
* `DecidesAt.bind` — and so does stopping exactly at an entry that is not met.
* `Observes.bind` — and so does an invariant under which every entry is good.
-/

namespace Ellipticoind.Verified.Account

open Ellipticoind.Verified.StateRun

/-- A stateful computation that may stop, with the log it leaves in either case. -/
def Logged (σ ε ω α : Type) : Type := σ → Except ε (α × σ) × List ω

variable {σ ε ω α β : Type}

namespace Logged

/-- One computation after the other; the log is that of both. -/
def sequence (x : Logged σ ε ω α) (f : α → Logged σ ε ω β) : Logged σ ε ω β := fun s =>
  match x s with
  | (.ok (a, s'), entries) => ((f a s').1, entries ++ (f a s').2)
  | (.error e, entries) => (.error e, entries)

instance : Monad (Logged σ ε ω) where
  pure a := fun s => (.ok (a, s), [])
  bind := sequence

/-- The computation without its log. -/
def run (x : Logged σ ε ω α) : StateT σ (Except ε) α := fun s => (x s).1

/-- A computation that logs nothing. -/
def quiet (x : StateT σ (Except ε) α) : Logged σ ε ω α := fun s => (x s, [])

/-- A computation that logs one entry, made of the state it starts in. -/
def asked (entry : σ → ω) (x : StateT σ (Except ε) α) : Logged σ ε ω α := fun s =>
  (x s, [entry s])

/-- One entry. -/
def note (entry : ω) : Logged σ ε ω Unit := fun s => (.ok ((), s), [entry])

@[simp] theorem run_pure (a : α) :
    (Pure.pure a : Logged σ ε ω α).run = (Pure.pure a : StateT σ (Except ε) α) := rfl

@[simp] theorem run_quiet (x : StateT σ (Except ε) α) :
    (quiet x : Logged σ ε ω α).run = x := rfl

@[simp] theorem run_asked (entry : σ → ω) (x : StateT σ (Except ε) α) :
    (asked entry x).run = x := rfl

@[simp] theorem run_note (entry : ω) :
    (note entry : Logged σ ε ω Unit).run = (Pure.pure () : StateT σ (Except ε) Unit) := rfl

/-- Forgetting the log goes with sequencing. -/
@[simp] theorem run_bind (x : Logged σ ε ω α) (f : α → Logged σ ε ω β) :
    (x >>= f).run = x.run >>= fun a => (f a).run := by
  funext s
  show (Logged.sequence x f s).1 = Except.bind (x s).1 fun p => (f p.1 p.2).1
  unfold Logged.sequence
  rcases x s with ⟨e | ⟨a, s'⟩, entries⟩ <;> rfl

/-- The log of a sequence whose first part ends. -/
theorem log_bind {x : Logged σ ε ω α} {f : α → Logged σ ε ω β} {s s' : σ} {a : α}
    (h : x.run s = .ok (a, s')) : ((x >>= f) s).2 = (x s).2 ++ (f a s').2 := by
  have hpair : x s = (.ok (a, s'), (x s).2) := Prod.ext h rfl
  show (sequence x f s).2 = _
  unfold sequence
  rw [hpair]

/-! ### Without a state -/

/-- A computation without a state. -/
def outcome (x : Logged Unit ε ω α) : Except ε α := (x ()).1.map Prod.fst

/-- A computation on a state of its own, which it gives with its result. -/
def startedOn (s : σ) (x : Logged σ ε ω α) : Logged Unit ε ω (α × σ) := fun _ =>
  ((x s).1.map fun r => (r, ()), (x s).2)

@[simp] theorem outcome_pure (a : α) :
    (Pure.pure a : Logged Unit ε ω α).outcome = .ok a := rfl

@[simp] theorem outcome_quiet (x : Except ε α) :
    (quiet (liftM x) : Logged Unit ε ω α).outcome = x := by
  cases x <;> rfl

@[simp] theorem outcome_asked (entry : Unit → ω) (x : Except ε α) :
    (asked entry (liftM x)).outcome = x := by
  cases x <;> rfl

@[simp] theorem outcome_startedOn (s : σ) (x : Logged σ ε ω α) :
    (startedOn s x).outcome = x.run s := by
  show ((x s).1.map _).map _ = (x s).1
  cases (x s).1 <;> rfl

@[simp] theorem outcome_bind (x : Logged Unit ε ω α) (f : α → Logged Unit ε ω β) :
    (x >>= f).outcome = x.outcome >>= fun a => (f a).outcome := by
  show (sequence x f ()).1.map _ = Except.bind ((x ()).1.map _) fun a => ((f a ()).1.map _)
  unfold sequence
  rcases x () with ⟨e | ⟨a, s'⟩, entries⟩ <;> rfl

end Logged

/-! ## Staying within a budget -/

/-- What some entries cost. -/
def total (cost : ω → Nat) : List ω → Nat
  | [] => 0
  | entry :: rest => cost entry + total cost rest

@[simp] theorem total_nil (cost : ω → Nat) : total cost [] = 0 := rfl

@[simp] theorem total_cons (cost : ω → Nat) (entry : ω) (rest : List ω) :
    total cost (entry :: rest) = cost entry + total cost rest := rfl

theorem total_append (cost : ω → Nat) (xs ys : List ω) :
    total cost (xs ++ ys) = total cost xs + total cost ys := by
  induction xs with
  | nil => simp
  | cons entry rest ih =>
      rw [List.cons_append, total_cons, total_cons, ih, Nat.add_assoc]

/-- Entries of the same costs have the same total. -/
theorem total_congr {cost cost' : ω → Nat} {entries : List ω}
    (h : ∀ entry ∈ entries, cost entry = cost' entry) :
    total cost entries = total cost' entries := by
  induction entries with
  | nil => rfl
  | cons entry rest ih =>
      rw [total_cons, total_cons, h entry List.mem_cons_self,
        ih fun e he => h e (List.mem_cons_of_mem entry he)]

/-- Started with a budget, the computation logs no more than that, whether it stops or
not; and if it does not, what is left of the budget was not spent. -/
structure Within (cost : ω → Nat) (budget : σ → Option Nat) (x : Logged σ ε ω α) :
    Prop where
  spent : ∀ s n, budget s = some n → total cost (x s).2 ≤ n
  left : ∀ s n a s', budget s = some n → x.run s = .ok (a, s') →
    ∃ m, budget s' = some m ∧ total cost (x s).2 + m ≤ n

/-- The budget does not grow. -/
def Shrinks (budget : σ → Option Nat) (s s' : σ) : Prop :=
  ∀ n, budget s = some n → ∃ m, budget s' = some m ∧ m ≤ n

section Within

variable {cost : ω → Nat} {budget : σ → Option Nat}

theorem Within.pure (a : α) :
    Within cost budget (Pure.pure a : Logged σ ε ω α) where
  spent _ _ _ := Nat.zero_le _
  left := by
    intro s n b s' hbudget hrun
    cases hrun
    exact ⟨n, hbudget, Nat.le_of_eq (Nat.zero_add n)⟩

theorem Within.quiet {x : StateT σ (Except ε) α} (h : Guarantee (Shrinks budget) x) :
    Within cost budget (Logged.quiet x : Logged σ ε ω α) where
  spent _ _ _ := Nat.zero_le _
  left := by
    intro s n a s' hbudget hrun
    obtain ⟨m, hm, hle⟩ := h s a s' hrun n hbudget
    exact ⟨m, hm, by simpa [Logged.quiet] using hle⟩

/-- Entries that cost nothing. -/
theorem Within.asked {entry : σ → ω} {x : StateT σ (Except ε) α}
    (hcost : ∀ s, cost (entry s) = 0) (h : Guarantee (Shrinks budget) x) :
    Within cost budget (Logged.asked entry x) where
  spent s _ _ := by simp [Logged.asked, hcost s]
  left := by
    intro s n a s' hbudget hrun
    obtain ⟨m, hm, hle⟩ := h s a s' hrun n hbudget
    exact ⟨m, hm, by simpa [Logged.asked, hcost s] using hle⟩

theorem Within.bind {x : Logged σ ε ω α} {f : α → Logged σ ε ω β}
    (hx : Within cost budget x) (hf : ∀ a, Within cost budget (f a)) :
    Within cost budget (x >>= f) := by
  have hlog : ∀ s, (x >>= f) s = Logged.sequence x f s := fun _ => rfl
  constructor
  · intro s n hbudget
    have hspent := hx.spent s n hbudget
    rw [hlog, Logged.sequence]
    rcases hrun : x s with ⟨e | ⟨a, s'⟩, entries⟩
    · rw [hrun] at hspent
      exact hspent
    · obtain ⟨m, hm, hle⟩ := hx.left s n a s' hbudget (congrArg Prod.fst hrun)
      rw [hrun] at hle
      have hrest := (hf a).spent s' m hm
      rw [total_append]
      dsimp only at hle ⊢
      omega
  · intro s n b s'' hbudget hend
    rw [Logged.run_bind] at hend
    obtain ⟨a, s', hrun, hrest⟩ := bind_eq_ok.mp hend
    obtain ⟨m, hm, hle⟩ := hx.left s n a s' hbudget hrun
    obtain ⟨k, hk, hle'⟩ := (hf a).left s' m b s'' hm hrest
    refine ⟨k, hk, ?_⟩
    have hpair : x s = (.ok (a, s'), (x s).2) := Prod.ext hrun rfl
    rw [hlog, Logged.sequence, hpair]
    dsimp only
    rw [total_append]
    omega

/-- Nothing the computation logs costs anything. -/
def Costless (cost : ω → Nat) (x : Logged σ ε ω α) : Prop := ∀ s, total cost (x s).2 = 0

theorem Costless.pure (a : α) : Costless cost (Pure.pure a : Logged σ ε ω α) := fun _ => rfl

theorem Costless.quiet (x : StateT σ (Except ε) α) :
    Costless cost (Logged.quiet x : Logged σ ε ω α) := fun _ => rfl

theorem Costless.asked {entry : σ → ω} (hcost : ∀ s, cost (entry s) = 0)
    (x : StateT σ (Except ε) α) : Costless cost (Logged.asked entry x) := fun s => by
  simp [Logged.asked, hcost s]

theorem Costless.bind {x : Logged σ ε ω α} {f : α → Logged σ ε ω β} (hx : Costless cost x)
    (hf : ∀ a, Costless cost (f a)) : Costless cost (x >>= f) := by
  intro s
  show total cost (Logged.sequence x f s).2 = 0
  have hlog := hx s
  unfold Logged.sequence
  rcases hrun : x s with ⟨e | ⟨a, s'⟩, entries⟩
  · rw [hrun] at hlog
    exact hlog
  · rw [hrun] at hlog
    dsimp only at hlog ⊢
    rw [total_append, hlog, hf a s']

/-- What a computation logs may be paid for by a second one that is free itself. -/
theorem Within.settle {x : Logged σ ε ω α} {f : α → Logged σ ε ω β}
    (hspent : ∀ s n, budget s = some n → total cost (x s).2 ≤ n)
    (hcostless : ∀ a, Costless cost (f a))
    (hleft : ∀ s n a s' b s'', budget s = some n → x.run s = .ok (a, s') →
      (f a).run s' = .ok (b, s'') →
        ∃ m, budget s'' = some m ∧ total cost (x s).2 + m ≤ n) :
    Within cost budget (x >>= f) := by
  have hlog : ∀ s, total cost ((x >>= f) s).2 = total cost (x s).2 := by
    intro s
    show total cost (Logged.sequence x f s).2 = _
    unfold Logged.sequence
    rcases x s with ⟨e | ⟨a, s'⟩, entries⟩
    · rfl
    · dsimp only
      rw [total_append, hcostless a s', Nat.add_zero]
  constructor
  · intro s n hbudget
    rw [hlog]
    exact hspent s n hbudget
  · intro s n b s'' hbudget hend
    rw [Logged.run_bind] at hend
    obtain ⟨a, s', hrun, hrest⟩ := bind_eq_ok.mp hend
    rw [hlog]
    exact hleft s n a s' b s'' hbudget hrun hrest

end Within

/-! ## Following a budget -/

/-- A result leaves the budget where the log does, taken entry by entry. -/
def Follows (pay : Nat → ω → Nat) (budget : σ → Option Nat) (x : Logged σ ε ω α) : Prop :=
  ∀ s n a s', budget s = some n → x.run s = .ok (a, s') →
    budget s' = some ((x s).2.foldl pay n)

section Follows

variable {pay : Nat → ω → Nat} {budget : σ → Option Nat}

theorem Follows.pure (a : α) : Follows pay budget (Pure.pure a : Logged σ ε ω α) := by
  intro s n b s' hbudget hrun
  cases hrun
  exact hbudget

theorem Follows.quiet {x : StateT σ (Except ε) α}
    (h : Guarantee (fun s s' => budget s' = budget s) x) :
    Follows pay budget (Logged.quiet x : Logged σ ε ω α) := by
  intro s n a s' hbudget hrun
  exact (h s a s' hrun).trans hbudget

/-- Entries that are free. -/
theorem Follows.asked {entry : σ → ω} {x : StateT σ (Except ε) α}
    (hfree : ∀ s n, pay n (entry s) = n) (h : Guarantee (fun s s' => budget s' = budget s) x) :
    Follows pay budget (Logged.asked entry x) := by
  intro s n a s' hbudget hrun
  show budget s' = some (pay n (entry s))
  rw [hfree, h s a s' hrun, hbudget]

theorem Follows.bind {x : Logged σ ε ω α} {f : α → Logged σ ε ω β}
    (hx : Follows pay budget x) (hf : ∀ a, Follows pay budget (f a)) :
    Follows pay budget (x >>= f) := by
  intro s n b s'' hbudget hrun
  rw [Logged.run_bind] at hrun
  obtain ⟨a, s', hfirst, hrest⟩ := bind_eq_ok.mp hrun
  rw [Logged.log_bind hfirst, List.foldl_append]
  exact hf a s' _ b s'' (hx s n a s' hbudget hfirst) hrest

end Follows

section Spends

variable {cost : ω → Nat}

/-- What a computation without a state logs costs no more than the given amount. -/
def Spends (cost : ω → Nat) (amount : Nat) (x : Logged Unit ε ω α) : Prop :=
  total cost (x ()).2 ≤ amount

theorem Spends.pure (a : α) : Spends cost 0 (Pure.pure a : Logged Unit ε ω α) :=
  Nat.le_refl 0

theorem Spends.asked {entry : Unit → ω} {x : StateT Unit (Except ε) α}
    (hcost : cost (entry ()) = 0) : Spends cost 0 (Logged.asked entry x) := by
  simp [Spends, Logged.asked, hcost]

theorem Spends.startedOn {s : σ} {x : Logged σ ε ω α} {amount : Nat}
    (h : total cost (x s).2 ≤ amount) : Spends cost amount (Logged.startedOn s x) := h

theorem Spends.bind {x : Logged Unit ε ω α} {f : α → Logged Unit ε ω β} {n m : Nat}
    (hx : Spends cost n x) (hf : ∀ a, Spends cost m (f a)) :
    Spends cost (n + m) (x >>= f) := by
  show total cost (Logged.sequence x f ()).2 ≤ n + m
  unfold Spends at hx hf
  unfold Logged.sequence
  rcases hrun : x () with ⟨e | ⟨a, s'⟩, entries⟩
  · rw [hrun] at hx
    exact Nat.le_add_right_of_le hx
  · rw [hrun] at hx
    dsimp only at hx ⊢
    rw [total_append]
    exact Nat.add_le_add hx (hf a)

end Spends

/-! ## Stopping at an entry that is not met -/

/-- Started in `s`, the computation has a result exactly if every entry of its log is
met. -/
def DecidesAt (met : ω → Prop) (x : Logged σ ε ω α) (s : σ) : Prop :=
  (∃ r, (x s).1 = .ok r) ↔ ∀ entry ∈ (x s).2, met entry

/-- So it is wherever it starts. -/
def Decides (met : ω → Prop) (x : Logged σ ε ω α) : Prop := ∀ s, DecidesAt met x s

section Decides

variable {met : ω → Prop}

theorem Decides.pure (a : α) : Decides met (Pure.pure a : Logged σ ε ω α) := fun s =>
  ⟨fun _ _ hentry => absurd hentry List.not_mem_nil, fun _ => ⟨(a, s), rfl⟩⟩

/-- A computation that cannot stop need not log anything. -/
theorem Decides.quiet {x : StateT σ (Except ε) α} (h : ∀ s, ∃ r, x s = .ok r) :
    Decides met (Logged.quiet x : Logged σ ε ω α) := fun s =>
  ⟨fun _ _ hentry => absurd hentry List.not_mem_nil, fun _ => h s⟩

theorem Decides.asked {entry : σ → ω} {x : StateT σ (Except ε) α}
    (h : ∀ s, (∃ r, x s = .ok r) ↔ met (entry s)) : Decides met (Logged.asked entry x) := by
  intro s
  show (∃ r, x s = .ok r) ↔ ∀ e ∈ [entry s], met e
  rw [h s, List.forall_mem_singleton]

theorem Decides.lift {entry : ω} {x : Except ε α} (h : (∃ a, x = .ok a) ↔ met entry) :
    Decides met (Logged.asked (fun _ => entry) (liftM x) : Logged σ ε ω α) :=
  Decides.asked fun _ => exists_lift_eq_ok.trans h

theorem Decides.note {entry : ω} (h : met entry) :
    Decides met (Logged.note entry : Logged σ ε ω Unit) := by
  intro s
  show (∃ r, Except.ok ((), s) = .ok r) ↔ ∀ e ∈ [entry], met e
  rw [List.forall_mem_singleton]
  exact ⟨fun _ => h, fun _ => ⟨_, rfl⟩⟩

/-- The second computation is asked only for the states that the first leads to. -/
theorem DecidesAt.bind {x : Logged σ ε ω α} {f : α → Logged σ ε ω β} {s : σ}
    (hx : DecidesAt met x s)
    (hf : ∀ a s', x.run s = .ok (a, s') → DecidesAt met (f a) s') :
    DecidesAt met (x >>= f) s := by
  show (∃ r, (Logged.sequence x f s).1 = .ok r) ↔ ∀ e ∈ (Logged.sequence x f s).2, met e
  unfold DecidesAt at hx
  unfold Logged.sequence
  rcases hrun : x s with ⟨e | ⟨a, s'⟩, entries⟩
  · rw [hrun] at hx
    refine Iff.trans ⟨?_, ?_⟩ hx
    · rintro ⟨r, hr⟩
      cases hr
    · rintro ⟨r, hr⟩
      cases hr
  · rw [hrun] at hx
    have hfirst := hx.mp ⟨_, rfl⟩
    have hsecond := hf a s' (congrArg Prod.fst hrun)
    dsimp only
    rw [List.forall_mem_append, and_iff_right hfirst]
    exact hsecond

theorem Decides.bind {x : Logged σ ε ω α} {f : α → Logged σ ε ω β} (hx : Decides met x)
    (hf : ∀ a, Decides met (f a)) : Decides met (x >>= f) := fun s =>
  (hx s).bind fun a s' _ => hf a s'

theorem DecidesAt.startedOn {s : σ} {x : Logged σ ε ω α} (h : DecidesAt met x s) :
    DecidesAt met (Logged.startedOn s x) () := by
  have hresult : (∃ r, (Logged.startedOn s x ()).1 = .ok r) ↔ ∃ r, (x s).1 = .ok r := by
    show (∃ r, (x s).1.map _ = .ok r) ↔ _
    cases (x s).1 <;> simp [Except.map]
  exact hresult.trans h

end Decides

/-! ## Good entries under an invariant -/

/-- Started under the invariant, the computation logs good entries only, and ends under
the invariant if it ends. -/
def Observes (inv : σ → Prop) (good : ω → Prop) (x : Logged σ ε ω α) : Prop :=
  ∀ s, inv s → (∀ entry ∈ (x s).2, good entry) ∧ ∀ a s', x.run s = .ok (a, s') → inv s'

section Observes

variable {inv : σ → Prop} {good : ω → Prop}

theorem Observes.quiet {x : StateT σ (Except ε) α}
    (h : Guarantee (fun s s' => inv s → inv s') x) :
    Observes inv good (Logged.quiet x : Logged σ ε ω α) := fun s hs =>
  ⟨fun _ hentry => absurd hentry List.not_mem_nil, fun a s' hrun => h s a s' hrun hs⟩

theorem Observes.pure (a : α) : Observes inv good (Pure.pure a : Logged σ ε ω α) :=
  Observes.quiet (Guarantee.pure (fun _ => id) a)

theorem Observes.asked {entry : σ → ω} {x : StateT σ (Except ε) α}
    (hentry : ∀ s, inv s → good (entry s)) (h : Guarantee (fun s s' => inv s → inv s') x) :
    Observes inv good (Logged.asked entry x) := by
  intro s hs
  refine ⟨fun e he => ?_, fun a s' hrun => h s a s' hrun hs⟩
  rw [List.mem_singleton.mp he]
  exact hentry s hs

theorem Observes.bind {x : Logged σ ε ω α} {f : α → Logged σ ε ω β}
    (hx : Observes inv good x) (hf : ∀ a, Observes inv good (f a)) :
    Observes inv good (x >>= f) := by
  intro s hs
  obtain ⟨hgood, hkept⟩ := hx s hs
  show (∀ e ∈ (Logged.sequence x f s).2, good e) ∧
    ∀ b s', (Logged.sequence x f s).1 = .ok (b, s') → inv s'
  unfold Logged.sequence
  rcases hrun : x s with ⟨e | ⟨a, s'⟩, entries⟩
  · rw [hrun] at hgood
    exact ⟨hgood, nofun⟩
  · rw [hrun] at hgood
    obtain ⟨hrest, hend⟩ := hf a s' (hkept a s' (congrArg Prod.fst hrun))
    exact ⟨List.forall_mem_append.mpr ⟨hgood, hrest⟩, hend⟩

/-- A computation on a state of its own. -/
theorem Observes.startedOn {s : σ} {x : Logged σ ε ω α}
    (h : ∀ entry ∈ (x s).2, good entry) :
    Observes (fun _ => True) good (Logged.startedOn s x) :=
  fun _ _ => ⟨h, fun _ _ _ => trivial⟩

end Observes

end Ellipticoind.Verified.Account
