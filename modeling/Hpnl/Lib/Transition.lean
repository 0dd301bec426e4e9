import Mathlib

/-!
# Runs of a partial step function

A system is a step function `step : σ → ι → Option σ`: `none` is a step that
cannot be taken in that state.  A run is a list of inputs.

* `run` — the state a list of inputs leads to; `restrict` — a system whose users
  keep to a rule.
* `Always` — a predicate holds in every state a run passes through, the first
  and the last included; `Meets` — every step a run takes satisfies a guard in
  the state it is taken in.
* `always_of_meets` — **the guarded invariant rule**: an invariant kept by the
  steps that meet the guard holds along every run whose steps all meet it.
* `meets_of_always`, `always_iff_meets` — **the guard is exact**: when a step that breaks the guard
  breaks the property at once, the two are equivalent for every run.
* `meets_of_meets`, `meets_iff_meets` — the same rules for properties of steps
  rather than of states.
* `good_or_damaged` — the guard read off the last state, when a step that breaks it
  does damage that stays.
* `of_update` — what a component is after a step that changes one of them.
-/

namespace Transition

variable {σ ι : Type*} {step : σ → ι → Option σ}

/-! ## Runs -/

/-- The state reached by taking the steps of a list one after the other;
`none` as soon as one cannot be taken. -/
def run (step : σ → ι → Option σ) : σ → List ι → Option σ
  | s, [] => some s
  | s, i :: is => (step s i).bind fun t => run step t is

@[simp] theorem run_nil (s : σ) : run step s [] = some s := rfl

theorem run_cons (s : σ) (i : ι) (is : List ι) :
    run step s (i :: is) = (step s i).bind fun t => run step t is := rfl

/-- A first step, and then a run. -/
theorem run_step {s t u : σ} {i : ι} {is : List ι} (hs : step s i = some t)
    (ht : run step t is = some u) : run step s (i :: is) = some u := by
  rw [run_cons, hs, Option.bind_some, ht]

/-- One step. -/
theorem run_one {s t : σ} {i : ι} (hs : step s i = some t) : run step s [i] = some t :=
  run_step hs (run_nil t)

theorem run_append (s : σ) (is js : List ι) :
    run step s (is ++ js) = (run step s is).bind fun t => run step t js := by
  induction is generalizing s with
  | nil => rfl
  | cons i is ih =>
    rw [List.cons_append, run_cons, run_cons, Option.bind_assoc]
    congr 1
    funext t
    exact ih t

/-- Two runs, one after the other. -/
theorem run_trans {s t u : σ} {is js : List ι} (hs : run step s is = some t)
    (ht : run step t js = some u) : run step s (is ++ js) = some u := by
  rw [run_append, hs, Option.bind_some, ht]

/-- The steps of a system that its users are allowed to take. -/
def restrict (step : σ → ι → Option σ) (A : σ → ι → Prop) [∀ s i, Decidable (A s i)] (s : σ)
    (i : ι) : Option σ :=
  if A s i then step s i else none

theorem restrict_eq_some {A : σ → ι → Prop} [∀ s i, Decidable (A s i)] {s t : σ} {i : ι} :
    restrict step A s i = some t ↔ A s i ∧ step s i = some t := by
  unfold restrict
  split
  · rename_i h
    exact ⟨fun ht => ⟨h, ht⟩, fun ht => ht.2⟩
  · rename_i h
    exact ⟨fun ht => absurd ht (by simp), fun ht => absurd ht.1 h⟩

/-! ## Properties of a run -/

/-- `P` holds in every state the run passes through. -/
def Always (step : σ → ι → Option σ) (P : σ → Prop) : σ → List ι → Prop
  | s, [] => P s
  | s, i :: is => P s ∧ ∀ t, step s i = some t → Always step P t is

/-- Every step the run takes satisfies `G` in the state it is taken in. -/
def Meets (step : σ → ι → Option σ) (G : σ → ι → Prop) : σ → List ι → Prop
  | _, [] => True
  | s, i :: is => ∀ t, step s i = some t → G s i ∧ Meets step G t is

/-- Whether a run meets a decidable guard can be computed by taking it. -/
instance decidableMeets {G : σ → ι → Prop} [∀ s i, Decidable (G s i)] :
    (s : σ) → (is : List ι) → Decidable (Meets step G s is)
  | _, [] => isTrue trivial
  | s, i :: is =>
    match h : step s i with
    | none => isTrue fun t ht => absurd (h.symm.trans ht) (by simp)
    | some t =>
      have := decidableMeets (G := G) t is
      decidable_of_iff (G s i ∧ Meets step G t is)
        ⟨fun hg u hu => (Option.some.inj (h.symm.trans hu)) ▸ hg, fun hg => hg t h⟩

theorem meets_true (s : σ) (is : List ι) : Meets step (fun _ _ => True) s is := by
  induction is generalizing s with
  | nil => trivial
  | cons i is ih => exact fun t _ => ⟨trivial, ih t⟩

/-- A guard that some inputs meet in every state. -/
theorem meets_of_forall {G : σ → ι → Prop} : ∀ {is : List ι} {s : σ},
    (∀ i ∈ is, ∀ s, G s i) → Meets step G s is := by
  intro is
  induction is with
  | nil => intro s _; trivial
  | cons i is ih =>
    intro s h t _
    exact ⟨h i List.mem_cons_self s, ih fun j hj => h j (List.mem_cons_of_mem i hj)⟩

theorem Meets.and {G H : σ → ι → Prop} : ∀ {is : List ι} {s : σ}, Meets step G s is →
    Meets step H s is → Meets step (fun s i => G s i ∧ H s i) s is := by
  intro is
  induction is with
  | nil => intro s _ _; trivial
  | cons i is ih =>
    intro s hG hH t ht
    exact ⟨⟨(hG t ht).1, (hH t ht).1⟩, ih (hG t ht).2 (hH t ht).2⟩

/-- A run that meets a guard, and then another. -/
theorem Meets.append {G : σ → ι → Prop} {js : List ι} : ∀ {is : List ι} {s : σ},
    Meets step G s is → (∀ t, run step s is = some t → Meets step G t js) →
      Meets step G s (is ++ js) := by
  intro is
  induction is with
  | nil => intro s _ h; exact h s rfl
  | cons i is ih =>
    intro s hs h t ht
    exact ⟨(hs t ht).1, ih (hs t ht).2 fun u hu => h u (run_step ht hu)⟩

/-- What a run meets, read off at one of its steps. -/
theorem Meets.at_step {G : σ → ι → Prop} {i : ι} {t u : σ} : ∀ {is : List ι} {s : σ},
    Meets step G s (is ++ [i]) → run step s is = some t → step t i = some u → G t i := by
  intro is
  induction is with
  | nil =>
    intro s h hrun hstep
    cases hrun
    exact (h u hstep).1
  | cons j is ih =>
    intro s h hrun hstep
    obtain ⟨v, hv, hrun⟩ := Option.bind_eq_some_iff.mp (run_cons s j is ▸ hrun)
    exact ih (h v hv).2 hrun hstep

theorem Always.head {P : σ → Prop} {s : σ} {is : List ι} (h : Always step P s is) : P s := by
  cases is with
  | nil => exact h
  | cons i is => exact h.1

/-- `Always` speaks of the state after every prefix of the run. -/
theorem always_iff_prefix {P : σ → Prop} {s : σ} {is : List ι} :
    Always step P s is ↔ ∀ pre t, pre <+: is → run step s pre = some t → P t := by
  induction is generalizing s with
  | nil =>
    constructor
    · intro h pre t hpre hrun
      rw [List.prefix_nil.mp hpre, run_nil, Option.some.injEq] at hrun
      exact hrun ▸ h
    · intro h
      exact h [] s List.nil_prefix rfl
  | cons i is ih =>
    constructor
    · rintro ⟨hs, hrest⟩ pre t hpre hrun
      cases pre with
      | nil => cases hrun; exact hs
      | cons j pre =>
        obtain ⟨rfl, hpre'⟩ := List.cons_prefix_cons.mp hpre
        rw [run_cons] at hrun
        obtain ⟨u, hu, hrun⟩ := Option.bind_eq_some_iff.mp hrun
        exact ih.mp (hrest u hu) pre t hpre' hrun
    · intro h
      refine ⟨h [] s List.nil_prefix rfl, fun t ht => ih.mpr fun pre u hpre hrun => ?_⟩
      exact h (i :: pre) u (List.cons_prefix_cons.mpr ⟨rfl, hpre⟩) (run_step ht hrun)

/-- A property of all states of a run is one of the state it ends in. -/
theorem Always.last {P : σ → Prop} {s t : σ} {is : List ι} (h : Always step P s is)
    (hrun : run step s is = some t) : P t :=
  always_iff_prefix.mp h is t List.prefix_rfl hrun

/-! ## The guarded invariant rules -/

/-- An invariant kept by the steps that meet the guard holds along every run
whose steps all meet it. -/
theorem always_of_meets {Inv : σ → Prop} {G : σ → ι → Prop}
    (keep : ∀ s i t, Inv s → G s i → step s i = some t → Inv t) :
    ∀ {is : List ι} {s : σ}, Inv s → Meets step G s is → Always step Inv s is := by
  intro is
  induction is with
  | nil => intro s hs _; exact hs
  | cons i is ih =>
    intro s hs hmeets
    refine ⟨hs, fun t ht => ?_⟩
    obtain ⟨hg, hrest⟩ := hmeets t ht
    exact ih (keep s i t hs hg ht) hrest

theorem Always.mono {P Q : σ → Prop} (hPQ : ∀ s, P s → Q s) :
    ∀ {is : List ι} {s : σ}, Always step P s is → Always step Q s is := by
  intro is
  induction is with
  | nil => intro s h; exact hPQ s h
  | cons i is ih => intro s h; exact ⟨hPQ s h.1, fun t ht => ih (h.2 t ht)⟩

/-- A run with the property throughout has met the guard at every step, when a step
that breaks the guard breaks the property at once; `A` is what the run is known to
meet besides. -/
theorem meets_of_always {Inv P : σ → Prop} {A G : σ → ι → Prop}
    (keep : ∀ s i t, Inv s → A s i → G s i → step s i = some t → Inv t)
    (sharp : ∀ s i t, Inv s → A s i → step s i = some t → P t → G s i) :
    ∀ {is : List ι} {s : σ}, Inv s → Meets step A s is → Always step P s is →
      Meets step G s is := by
  intro is
  induction is with
  | nil => intro s _ _ _; trivial
  | cons i is ih =>
    intro s hs hA h t ht
    obtain ⟨ha, hrest⟩ := hA t ht
    have hg : G s i := sharp s i t hs ha ht (h.2 t ht).head
    exact ⟨hg, ih (keep s i t hs ha hg ht) hrest (h.2 t ht)⟩

/-- **The guard is exact.**  If the invariant gives the property, is kept by
every step that meets the guard, and a step into a state with the property
must have met the guard, then a run has the property throughout exactly when
all of its steps meet the guard. -/
theorem always_iff_meets {Inv P : σ → Prop} {G : σ → ι → Prop}
    (sound : ∀ s, Inv s → P s)
    (keep : ∀ s i t, Inv s → G s i → step s i = some t → Inv t)
    (sharp : ∀ s i t, Inv s → step s i = some t → P t → G s i)
    {s : σ} (hs : Inv s) (is : List ι) :
    Always step P s is ↔ Meets step G s is := by
  constructor
  · exact meets_of_always (fun s i t hs _ hg => keep s i t hs hg)
      (fun s i t hs _ => sharp s i t hs) hs (meets_true s is)
  · exact fun h => (always_of_meets keep hs h).mono sound

/-- Along a run whose steps meet the guard, every step has whatever the
invariant and the guard give it. -/
theorem meets_of_meets {Inv : σ → Prop} {G Q : σ → ι → Prop}
    (keep : ∀ s i t, Inv s → G s i → step s i = some t → Inv t)
    (good : ∀ s i t, Inv s → G s i → step s i = some t → Q s i)
    {s : σ} (hs : Inv s) (is : List ι) (h : Meets step G s is) : Meets step Q s is := by
  induction is generalizing s with
  | nil => trivial
  | cons i is ih =>
    intro t ht
    obtain ⟨hg, hrest⟩ := h t ht
    exact ⟨good s i t hs hg ht, ih (keep s i t hs hg ht) hrest⟩

/-- A guard that is, state by state, equivalent to the property of a step is
equivalent to it along every run, when either keeps the invariant. -/
theorem meets_iff_meets {Inv : σ → Prop} {G Q : σ → ι → Prop}
    (keep : ∀ s i t, Inv s → G s i → step s i = some t → Inv t)
    (exact' : ∀ s i t, Inv s → step s i = some t → (Q s i ↔ G s i))
    {s : σ} (hs : Inv s) (is : List ι) : Meets step Q s is ↔ Meets step G s is := by
  constructor
  · intro h
    exact meets_of_meets (fun s i t hi hq ht => keep s i t hi ((exact' s i t hi ht).mp hq) ht)
      (fun s i t hi hq ht => (exact' s i t hi ht).mp hq) hs is h
  · intro h
    exact meets_of_meets keep (fun s i t hi hg ht => (exact' s i t hi ht).mpr hg) hs is h

/-- It is then equivalent to the property together with whatever the invariant says of
the states. -/
theorem always_and_meets_iff {Inv Φ : σ → Prop} {G Q : σ → ι → Prop}
    (keep : ∀ s i t, Inv s → G s i → step s i = some t → Inv t)
    (exact' : ∀ s i t, Inv s → step s i = some t → (Q s i ↔ G s i))
    (sound : ∀ s, Inv s → Φ s) {s : σ} (hs : Inv s) (is : List ι) :
    Always step Φ s is ∧ Meets step Q s is ↔ Meets step G s is := by
  have hiff : Meets step Q s is ↔ Meets step G s is := meets_iff_meets keep exact' hs is
  constructor
  · exact fun h => hiff.mp h.2
  · exact fun h => ⟨(always_of_meets keep hs h).mono sound, hiff.mpr h⟩

/-- What a kept invariant says of the state a run ends in. -/
theorem inv_last {Inv : σ → Prop} (keep : ∀ s i t, Inv s → step s i = some t → Inv t)
    {s t : σ} {is : List ι} (hs : Inv s) (hrun : run step s is = some t) : Inv t :=
  (always_of_meets (fun s i t h _ => keep s i t h) hs (meets_true s is)).last hrun

/-- **The guard read off the last state**: when a step from a good state leads to a good one if it
meets the guard, and does damage that stays if it does not, a run that starts well ends well
exactly when it has met the guard at every step. -/
theorem good_or_damaged {Good Damaged : σ → Prop} {G : σ → ι → Prop}
    (good : ∀ s i t, Good s → G s i → step s i = some t → Good t)
    (damage : ∀ s i t, Good s → ¬ G s i → step s i = some t → Damaged t)
    (stays : ∀ s i t, Damaged s → step s i = some t → Damaged t) :
    ∀ {is : List ι} {s t : σ}, Good s → run step s is = some t →
      Meets step G s is ∧ Good t ∨ ¬ Meets step G s is ∧ Damaged t := by
  intro is
  induction is with
  | nil =>
    intro s t hs hrun
    cases hrun
    exact Or.inl ⟨trivial, hs⟩
  | cons i is ih =>
    intro s t hs hrun
    obtain ⟨u, hu, hrest⟩ := Option.bind_eq_some_iff.mp hrun
    by_cases hg : G s i
    · obtain ⟨hmeets, ht⟩ | ⟨hnot, ht⟩ := ih (good s i u hs hg hu) hrest
      · refine Or.inl ⟨fun v hv => ⟨hg, ?_⟩, ht⟩
        rwa [← Option.some.inj (hu.symm.trans hv)]
      · exact Or.inr ⟨fun hmeets => hnot (hmeets u hu).2, ht⟩
    · refine Or.inr ⟨fun hmeets => hg (hmeets u hu).1, ?_⟩
      exact inv_last stays (damage s i u hs hg hu) hrest

/-! ## States with a component for each key -/

/-- After one component has been changed, a component is the new value or an old one. -/
theorem of_update {κ β : Type*} [DecidableEq κ] {f : κ → β} {k l : κ} {v y : β}
    (h : Function.update f k v l = y) : l = k ∧ v = y ∨ l ≠ k ∧ f l = y := by
  by_cases hl : l = k
  · rw [hl, Function.update_self] at h
    exact Or.inl ⟨hl, h⟩
  · rw [Function.update_of_ne hl] at h
    exact Or.inr ⟨hl, h⟩

end Transition
