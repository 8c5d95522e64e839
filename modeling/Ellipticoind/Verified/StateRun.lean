import Mathlib.Logic.Basic

/-!
# Two logics for stateful computations that may stop

A computation is a `StateT σ (Except ε)`; the facts below concern the runs that
end with a result.

* `Guarantee R x` — every such run of `x` goes from its start to its end by the
  relation `R`.  The rules need `R` reflexive and transitive, as the relations
  are that say how a state may have grown.
* `Simulates R good x y` — every such run of `x` that ends in a `good` state is
  matched by a run of `y` with the same result, from any start related by `R`
  to related ends.  The rules need `good` to be inherited by the states before:
  a run that has gone bad stays bad.

Both are closed under sequencing, so that a computation built from parts needs
one line for each part.

`Agree R x y` is the third, for two computations without a state: each has a result
exactly if the other has, and then the two are related.  Its rule of sequencing
says what the two parts have to agree on.
-/

namespace Ellipticoind.Verified.StateRun

variable {σ τ ε α β : Type}

/-- A sequenced run that ends is a run of the first part and one of the
second. -/
theorem bind_eq_ok {x : StateT σ (Except ε) α} {f : α → StateT σ (Except ε) β}
    {s : σ} {r : β × σ} :
    (x >>= f) s = .ok r ↔ ∃ a s', x s = .ok (a, s') ∧ f a s' = .ok r := by
  show Except.bind (x s) (fun p => f p.1 p.2) = .ok r ↔ _
  cases hx : x s with
  | error e => simp [Except.bind]
  | ok p =>
      obtain ⟨a, s'⟩ := p
      constructor
      · exact fun h => ⟨a, s', rfl, h⟩
      · rintro ⟨_, _, heq, h⟩
        cases heq
        exact h

/-- A first part that is known to end leaves the second one. -/
theorem bind_of_ok {x : StateT σ (Except ε) α} {f : α → StateT σ (Except ε) β} {s s' : σ}
    {a : α} (h : x s = .ok (a, s')) : (x >>= f) s = f a s' := by
  show Except.bind (x s) (fun p => f p.1 p.2) = _
  rw [h]
  rfl

/-- A first part that stops stops all. -/
theorem bind_of_error {x : StateT σ (Except ε) α} {f : α → StateT σ (Except ε) β} {s : σ}
    {e : ε} (h : x s = .error e) : (x >>= f) s = .error e := by
  show Except.bind (x s) (fun p => f p.1 p.2) = _
  rw [h]
  rfl

/-- The same for a computation without a state. -/
theorem except_bind_eq_ok {x : Except ε α} {f : α → Except ε β} {b : β} :
    (x >>= f) = .ok b ↔ ∃ a, x = .ok a ∧ f a = .ok b := by
  show Except.bind x f = .ok b ↔ _
  cases x with
  | error e => simp [Except.bind]
  | ok a => simp [Except.bind]

/-- A computation known by what a function makes of its result has one. -/
theorem exists_ok_of_map {x : Except ε α} {f : α → β} {b : β}
    (h : x.toOption.map f = some b) : ∃ a, x = .ok a ∧ f a = b := by
  cases x with
  | error e => cases h
  | ok a => exact ⟨a, rfl, Option.some.inj h⟩

theorem pure_eq_ok {a : α} {s : σ} {r : α × σ} :
    (pure a : StateT σ (Except ε) α) s = .ok r ↔ r = (a, s) := by
  show Except.ok (a, s) = .ok r ↔ _
  rw [Except.ok.injEq, eq_comm]

theorem lift_eq_ok {x : Except ε α} {a : α} {s s' : σ} :
    (liftM x : StateT σ (Except ε) α) s = .ok (a, s') ↔ x = .ok a ∧ s' = s := by
  show Except.bind x (fun a => .ok (a, s)) = .ok (a, s') ↔ _
  cases x with
  | error e => simp [Except.bind]
  | ok b => simp [Except.bind, eq_comm]

theorem exists_lift_eq_ok {x : Except ε α} {s : σ} :
    (∃ r, (liftM x : StateT σ (Except ε) α) s = .ok r) ↔ ∃ a, x = .ok a := by
  constructor
  · rintro ⟨⟨a, s'⟩, hrun⟩
    exact ⟨a, (lift_eq_ok.mp hrun).1⟩
  · rintro ⟨a, ha⟩
    exact ⟨(a, s), lift_eq_ok.mpr ⟨ha, rfl⟩⟩

theorem throw_ne_ok {e : ε} {s : σ} {r : α × σ} :
    (throw e : StateT σ (Except ε) α) s ≠ .ok r := nofun

theorem modify_eq_ok {f : σ → σ} {s : σ} {r : PUnit × σ} :
    (modify f : StateT σ (Except ε) PUnit) s = .ok r ↔ r = (⟨⟩, f s) := by
  show Except.ok (PUnit.unit, f s) = .ok r ↔ _
  rw [Except.ok.injEq, eq_comm]

/-! ## One run -/

/-- Every run with a result goes from its start to its end by `R`. -/
def Guarantee (R : σ → σ → Prop) (x : StateT σ (Except ε) α) : Prop :=
  ∀ s a s', x s = .ok (a, s') → R s s'

section Guarantee

variable {R : σ → σ → Prop}

theorem Guarantee.bind {x : StateT σ (Except ε) α} {f : α → StateT σ (Except ε) β}
    (trans : ∀ {a b c}, R a b → R b c → R a c)
    (hx : Guarantee R x) (hf : ∀ a, Guarantee R (f a)) : Guarantee R (x >>= f) := by
  intro s b s'' h
  obtain ⟨a, s', hxs, hfs⟩ := bind_eq_ok.mp h
  exact trans (hx s a s' hxs) (hf a s' b s'' hfs)

theorem Guarantee.pure (refl : ∀ s, R s s) (a : α) :
    Guarantee R (Pure.pure a : StateT σ (Except ε) α) := by
  intro s b s' h
  cases pure_eq_ok.mp h
  exact refl _

theorem Guarantee.lift (refl : ∀ s, R s s) (x : Except ε α) :
    Guarantee R (liftM x : StateT σ (Except ε) α) := by
  intro s a s' h
  obtain ⟨_, rfl⟩ := lift_eq_ok.mp h
  exact refl _

theorem Guarantee.modify {f : σ → σ} (h : ∀ s, R s (f s)) :
    Guarantee R (modify f : StateT σ (Except ε) PUnit) := by
  intro s a s' hs
  cases modify_eq_ok.mp hs
  exact h _

theorem Guarantee.throw (e : ε) :
    Guarantee R (MonadExcept.throw e : StateT σ (Except ε) α) :=
  fun _ _ _ h => absurd h throw_ne_ok

end Guarantee

/-! ## Two runs -/

/-- Every run of `x` that ends well is matched by one of `y`, and starts
well. -/
structure Simulates (R : σ → τ → Prop) (good : σ → Prop)
    (x : StateT σ (Except ε) α) (y : StateT τ (Except ε) α) : Prop where
  inherited : Guarantee (fun s s' => good s' → good s) x
  matched : ∀ s t a s', R s t → x s = .ok (a, s') → good s' →
    ∃ t', y t = .ok (a, t') ∧ R s' t'

section Simulates

variable {R : σ → τ → Prop} {good : σ → Prop}

theorem Simulates.bind {x : StateT σ (Except ε) α} {f : α → StateT σ (Except ε) β}
    {y : StateT τ (Except ε) α} {g : α → StateT τ (Except ε) β}
    (hx : Simulates R good x y) (hf : ∀ a, Simulates R good (f a) (g a)) :
    Simulates R good (x >>= f) (y >>= g) where
  inherited := hx.inherited.bind (fun h₁ h₂ h => h₁ (h₂ h)) fun a => (hf a).inherited
  matched := by
    intro s t b s'' hR h hgood
    obtain ⟨a, s', hxs, hfs⟩ := bind_eq_ok.mp h
    have hmid : good s' := (hf a).inherited s' b s'' hfs hgood
    obtain ⟨t', hyt, hR'⟩ := hx.matched s t a s' hR hxs hmid
    obtain ⟨t'', hgt, hR''⟩ := (hf a).matched s' t' b s'' hR' hfs hgood
    exact ⟨t'', bind_eq_ok.mpr ⟨a, t', hyt, hgt⟩, hR''⟩

theorem Simulates.pure (a : α) :
    Simulates R good (Pure.pure a : StateT σ (Except ε) α) (Pure.pure a) where
  inherited := Guarantee.pure (fun _ h => h) a
  matched := by
    intro s t b s' hR h _
    cases pure_eq_ok.mp h
    exact ⟨t, rfl, hR⟩

/-- The second has the result of the first, if that has one. -/
theorem Simulates.lift_of_imp {x y : Except ε α} (hxy : ∀ a, x = .ok a → y = .ok a) :
    Simulates R good (liftM x : StateT σ (Except ε) α) (liftM y) where
  inherited := Guarantee.lift (fun _ h => h) x
  matched := by
    intro s t a s' hR h _
    obtain ⟨hx, rfl⟩ := lift_eq_ok.mp h
    exact ⟨t, lift_eq_ok.mpr ⟨hxy a hx, rfl⟩, hR⟩

theorem Simulates.lift (x : Except ε α) :
    Simulates R good (liftM x : StateT σ (Except ε) α) (liftM x) :=
  Simulates.lift_of_imp fun _ hx => hx

theorem Simulates.throw (e : ε) (y : StateT τ (Except ε) α) :
    Simulates R good (MonadExcept.throw e : StateT σ (Except ε) α) y where
  inherited := Guarantee.throw e
  matched := fun _ _ _ _ _ h => absurd h throw_ne_ok

theorem Simulates.modify {f : σ → σ} {g : τ → τ}
    (hgood : ∀ s, good (f s) → good s)
    (h : ∀ s t, R s t → good (f s) → R (f s) (g t)) :
    Simulates R good (modify f : StateT σ (Except ε) PUnit) (modify g) where
  inherited := Guarantee.modify hgood
  matched := by
    intro s t a s' hR hs hend
    cases modify_eq_ok.mp hs
    exact ⟨g t, rfl, h s t hR hend⟩

end Simulates

/-! ## Two results -/

/-- Each of the two has a result if the other has, and the results are related. -/
def Agree (R : α → β → Prop) (x : Except ε α) (y : Except ε β) : Prop :=
  (∀ a, x = .ok a → ∃ b, y = .ok b ∧ R a b) ∧ ∀ b, y = .ok b → ∃ a, x = .ok a ∧ R a b

section Agree

variable {γ δ : Type} {R : α → β → Prop} {S : γ → δ → Prop}

theorem Agree.of_eq {x y : Except ε α} (h : x = y) : Agree Eq x y := by
  subst h
  exact ⟨fun a ha => ⟨a, ha, rfl⟩, fun a ha => ⟨a, ha, rfl⟩⟩

theorem Agree.ok {a : α} {b : β} (h : R a b) :
    Agree R (.ok a : Except ε α) (.ok b) := by
  constructor
  · rintro _ ⟨⟩
    exact ⟨b, rfl, h⟩
  · rintro _ ⟨⟩
    exact ⟨a, rfl, h⟩

/-- The second parts have to agree on the results that the first parts have. -/
theorem Agree.bind {x : Except ε α} {y : Except ε β} {f : α → Except ε γ}
    {g : β → Except ε δ} (hx : Agree R x y)
    (hf : ∀ a b, x = .ok a → y = .ok b → R a b → Agree S (f a) (g b)) :
    Agree S (x >>= f) (y >>= g) := by
  constructor
  · intro c hc
    obtain ⟨a, ha, hfa⟩ := except_bind_eq_ok.mp hc
    obtain ⟨b, hb, hR⟩ := hx.1 a ha
    obtain ⟨d, hd, hS⟩ := (hf a b ha hb hR).1 c hfa
    exact ⟨d, except_bind_eq_ok.mpr ⟨b, hb, hd⟩, hS⟩
  · intro d hd
    obtain ⟨b, hb, hgb⟩ := except_bind_eq_ok.mp hd
    obtain ⟨a, ha, hR⟩ := hx.2 b hb
    obtain ⟨c, hc, hS⟩ := (hf a b ha hb hR).2 d hgb
    exact ⟨c, except_bind_eq_ok.mpr ⟨a, ha, hc⟩, hS⟩

end Agree

end Ellipticoind.Verified.StateRun
