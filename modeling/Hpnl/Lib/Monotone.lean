import Hpnl.Lib.Transition

/-!
# Quantities that never decrease along a run

* `NonDecreasing` — what is read off a later state of a run is never less than what is
  read off an earlier one.
* `nonDecreasing_iff_meets` — **it is a property of single steps**: it holds along a run
  exactly when no step of the run decreases the quantity.
-/

namespace Transition

variable {σ ι α : Type*} [Preorder α] {step : σ → ι → Option σ} {f : σ → α}

/-- Between any two states of a run, `f` does not decrease. -/
def NonDecreasing (step : σ → ι → Option σ) (f : σ → α) (s : σ) (is : List ι) : Prop :=
  ∀ pre mid t u, pre ++ mid <+: is → run step s pre = some t → run step t mid = some u → f t ≤ f u

/-- A step that does not decrease `f`. -/
def Climbs (step : σ → ι → Option σ) (f : σ → α) (s : σ) (i : ι) : Prop :=
  ∀ t, step s i = some t → f s ≤ f t

/-- What a run meets is met after a part of it has been taken. -/
theorem Meets.after {G : σ → ι → Prop} : ∀ {pre is : List ι} {s t : σ},
    Meets step G s (pre ++ is) → run step s pre = some t → Meets step G t is := by
  intro pre is
  induction pre with
  | nil =>
    intro s t h hrun
    cases hrun
    exact h
  | cons i pre ih =>
    intro s t h hrun
    obtain ⟨v, hv, hrun⟩ := Option.bind_eq_some_iff.mp (run_cons s i pre ▸ hrun)
    exact ih (h v hv).2 hrun

/-- Steps that climb lead to where `f` is at least what it was. -/
theorem le_of_climbs : ∀ {mid is : List ι} {t u : σ}, Meets step (Climbs step f) t (mid ++ is) →
    run step t mid = some u → f t ≤ f u := by
  intro mid is
  induction mid with
  | nil =>
    intro t u _ hrun
    cases hrun
    exact le_refl _
  | cons i mid ih =>
    intro t u h hrun
    obtain ⟨v, hv, hrun⟩ := Option.bind_eq_some_iff.mp (run_cons t i mid ▸ hrun)
    exact ((h v hv).1 v hv).trans (ih (h v hv).2 hrun)

/-- **No step decreases it.**  A quantity never decreases along a run exactly when none of
the steps that the run takes decreases it. -/
theorem nonDecreasing_iff_meets {s : σ} {is : List ι} :
    NonDecreasing step f s is ↔ Meets step (Climbs step f) s is := by
  constructor
  · induction is generalizing s with
    | nil => exact fun _ => trivial
    | cons i is ih =>
      refine fun h t ht => ⟨fun u hu => ?_, ih fun pre mid u v hpre hu hv => ?_⟩
      · exact h [] [i] s u (List.prefix_append [i] is) rfl (run_one hu)
      · exact h (i :: pre) mid u v (List.cons_prefix_cons.mpr ⟨rfl, hpre⟩) (run_step ht hu) hv
  · rintro h pre mid t u ⟨rest, rfl⟩ ht hu
    rw [List.append_assoc] at h
    exact le_of_climbs (h.after ht) hu

end Transition
