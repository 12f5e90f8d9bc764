/-!
# Computations that can fail

When the parts of a computation that can fail succeed, and which of them fails. Readers and edits
are taken apart with these, so that no proof about them opens the monad again.
-/

namespace Statewright.Fallible

variable {ε ε' α β : Type}

theorem bind_eq_ok_iff {x : Except ε α} {f : α → Except ε β} {b : β} :
    x >>= f = .ok b ↔ ∃ a, x = .ok a ∧ f a = .ok b := by
  cases x with
  | error e => simp [bind, Except.bind]
  | ok a => simp [bind, Except.bind]

theorem ok_bind {a : α} {f : α → Except ε β} : Except.ok a >>= f = f a :=
  rfl

theorem throw_bind {e : ε} {f : α → Except ε β} : (throw e >>= f) = throw e :=
  rfl

theorem pure_eq_ok_iff {a b : α} : (pure a : Except ε α) = .ok b ↔ a = b :=
  Except.ok.injEq a b ▸ Iff.rfl

theorem map_eq_ok_iff {x : Except ε α} {f : α → β} {b : β} :
    x.map f = .ok b ↔ ∃ a, x = .ok a ∧ f a = b := by
  cases x with
  | error e => simp [Except.map]
  | ok a => simp [Except.map]

theorem mapError_eq_ok_iff {x : Except ε α} {f : ε → ε'} {a : α} :
    x.mapError f = .ok a ↔ x = .ok a := by
  cases x with
  | error e =>
    show Except.error (f e) = Except.ok a ↔ Except.error e = Except.ok a
    simp only [reduceCtorEq]
  | ok b =>
    show Except.ok b = Except.ok a ↔ Except.ok b = Except.ok a
    simp only [Except.ok.injEq]

theorem toOption_eq_some_iff {x : Except ε α} {a : α} : x.toOption = some a ↔ x = .ok a := by
  cases x with
  | error e => simp [Except.toOption]
  | ok b => simp [Except.toOption]

-- A check that throws lets only the rest succeed.
theorem ite_throw_eq_ok_iff {p : Prop} [Decidable p] {e : ε} {x : Except ε α} {a : α} :
    (if p then throw e else x) = .ok a ↔ ¬ p ∧ x = .ok a := by
  by_cases hp : p
  · rw [if_pos hp]
    constructor
    · intro h
      cases h
    · intro h
      exact absurd hp h.1
  · rw [if_neg hp]
    exact ⟨fun h => ⟨hp, h⟩, fun h => h.2⟩

/-! ## Failures -/

theorem bind_eq_error_iff {x : Except ε α} {f : α → Except ε β} {e : ε} :
    x >>= f = .error e ↔ x = .error e ∨ ∃ a, x = .ok a ∧ f a = .error e := by
  cases x with
  | error e => simp [bind, Except.bind]
  | ok a => simp [bind, Except.bind]

theorem map_eq_error_iff {x : Except ε α} {f : α → β} {e : ε} :
    x.map f = .error e ↔ x = .error e := by
  cases x with
  | error e => simp [Except.map]
  | ok a => simp [Except.map]

theorem mapError_eq_error_iff {x : Except ε α} {f : ε → ε'} {e' : ε'} :
    x.mapError f = .error e' ↔ ∃ e, x = .error e ∧ f e = e' := by
  cases x with
  | error e =>
    show Except.error (f e) = Except.error e' ↔
      ∃ e'', Except.error e = Except.error e'' ∧ f e'' = e'
    simp only [Except.error.injEq, exists_eq_left']
  | ok a =>
    show Except.ok a = Except.error e' ↔ ∃ e'', Except.ok a = Except.error e'' ∧ f e'' = e'
    simp only [reduceCtorEq, false_and, exists_false]

-- Two computations that come to the same, up to what is told of failures.
theorem mapError_eq_mapError {f : ε → ε'} {x y : Except ε α}
    (h : x.mapError f = y.mapError f) :
    (∃ a, x = .ok a ∧ y = .ok a) ∨ ∃ e e', x = .error e ∧ y = .error e' ∧ f e = f e' := by
  cases x with
  | error e =>
    cases y with
    | error e' => exact .inr ⟨e, e', rfl, rfl, Except.error.inj h⟩
    | ok b => cases h
  | ok a =>
    cases y with
    | error e' => cases h
    | ok b =>
      cases h
      exact .inl ⟨a, rfl, rfl⟩

theorem same_of_images {f : α → β} {g : ε → ε'} {x y : Except ε α}
    (h : (x.map f).mapError g = (y.map f).mapError g) :
    (∃ a b, x = .ok a ∧ y = .ok b ∧ f a = f b) ∨
      ∃ e e', x = .error e ∧ y = .error e' ∧ g e = g e' := by
  rcases mapError_eq_mapError h with ⟨c, hx, hy⟩ | ⟨e, e', hx, hy, he⟩
  · obtain ⟨a, ha, rfl⟩ := map_eq_ok_iff.mp hx
    obtain ⟨b, hb, hab⟩ := map_eq_ok_iff.mp hy
    exact .inl ⟨a, b, ha, hb, hab.symm⟩
  · exact .inr ⟨e, e', map_eq_error_iff.mp hx, map_eq_error_iff.mp hy, he⟩

theorem pure_ne_error {a : α} {e : ε} : (pure a : Except ε α) = .error e ↔ False := by
  simp only [pure, Except.pure, reduceCtorEq]

theorem ite_throw_eq_error_iff {p : Prop} [Decidable p] {e e' : ε} {x : Except ε α} :
    (if p then throw e else x) = .error e' ↔ (p ∧ e = e') ∨ (¬ p ∧ x = .error e') := by
  by_cases hp : p
  · rw [if_pos hp]
    show Except.error e = Except.error e' ↔ _
    simp only [Except.error.injEq, hp, true_and, not_true, false_and, or_false]
  · rw [if_neg hp]
    simp only [hp, false_and, not_false_eq_true, true_and, false_or]

/-! ## Lists -/

theorem exists_of_mapM_eq_ok {f : α → Except ε β} {as : List α} {bs : List β}
    (h : as.mapM f = .ok bs) {b : β} (hb : b ∈ bs) : ∃ a ∈ as, f a = .ok b := by
  induction as generalizing bs with
  | nil =>
    cases h
    cases hb
  | cons a as ih =>
    rw [List.mapM_cons, bind_eq_ok_iff] at h
    obtain ⟨first, hfirst, h⟩ := h
    obtain ⟨rest, hrest, h⟩ := bind_eq_ok_iff.mp h
    cases h
    rcases List.mem_cons.mp hb with rfl | hb
    · exact ⟨a, List.mem_cons_self, hfirst⟩
    · obtain ⟨a', hmem, ha'⟩ := ih hrest hb
      exact ⟨a', List.mem_cons_of_mem a hmem, ha'⟩

theorem exists_of_mapM_eq_error {f : α → Except ε β} {as : List α} {e : ε}
    (h : as.mapM f = .error e) : ∃ a ∈ as, f a = .error e := by
  induction as with
  | nil => cases h
  | cons a as ih =>
    rw [List.mapM_cons, bind_eq_error_iff] at h
    rcases h with h | ⟨b, -, h⟩
    · exact ⟨a, List.mem_cons_self, h⟩
    · rcases bind_eq_error_iff.mp h with h | ⟨bs, -, h⟩
      · obtain ⟨a', hmem, ha'⟩ := ih h
        exact ⟨a', List.mem_cons_of_mem a hmem, ha'⟩
      · cases h

/-! ## What failures have in common -/

/-- Whatever a computation fails with is such an error. -/
def FailsWith (P : ε → Prop) (x : Except ε α) : Prop :=
  ∀ e, x = .error e → P e

variable {P Q : ε → Prop}

theorem failsWith_ok {a : α} : FailsWith P (.ok a) := by
  intro e h
  cases h

theorem failsWith_error {e : ε} (h : P e) : FailsWith P (.error e : Except ε α) := by
  intro e' he
  cases he
  exact h

theorem FailsWith.mono {x : Except ε α} (h : FailsWith P x) (hPQ : ∀ e, P e → Q e) :
    FailsWith Q x :=
  fun e he => hPQ e (h e he)

theorem FailsWith.bind {x : Except ε α} {f : α → Except ε β} (h : FailsWith P x)
    (hf : ∀ a, FailsWith P (f a)) : FailsWith P (x >>= f) := by
  intro e he
  rcases bind_eq_error_iff.mp he with he | ⟨a, -, he⟩
  · exact h e he
  · exact hf a e he

theorem FailsWith.map {x : Except ε α} (h : FailsWith P x) (f : α → β) : FailsWith P (x.map f) :=
  fun e he => h e (map_eq_error_iff.mp he)

theorem failsWith_mapError {P : ε' → Prop} {x : Except ε α} {f : ε → ε'}
    (h : FailsWith (fun e => P (f e)) x) : FailsWith P (x.mapError f) := by
  intro e' he'
  obtain ⟨e, he, rfl⟩ := mapError_eq_error_iff.mp he'
  exact h e he

/-! ## Readers -/

-- A reader that succeeds hands on what it left.
theorem read_bind {σ : Type} {x : StateT σ (Except ε) α} {f : α → StateT σ (Except ε) β} {s t : σ}
    {a : α} (h : x s = .ok (a, t)) : (x >>= f) s = f a t := by
  show (x s >>= fun p => f p.1 p.2) = f a t
  rw [h]
  rfl

theorem read_bind_eq_ok_iff {σ : Type} {x : StateT σ (Except ε) α} {f : α → StateT σ (Except ε) β}
    {s t : σ} {b : β} :
    (x >>= f) s = .ok (b, t) ↔ ∃ a u, x s = .ok (a, u) ∧ f a u = .ok (b, t) := by
  show (x s >>= fun p => f p.1 p.2) = .ok (b, t) ↔ _
  rw [bind_eq_ok_iff]
  constructor
  · rintro ⟨⟨a, u⟩, hx, hf⟩
    exact ⟨a, u, hx, hf⟩
  · rintro ⟨a, u, hx, hf⟩
    exact ⟨(a, u), hx, hf⟩

end Statewright.Fallible
