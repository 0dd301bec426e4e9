import Hpnl.Lib.Transition

/-!
# What a system can still reach

* `Reaches` — some run leads from a state to one with a property.
* `reaches_of_rank` — **the rank rule**: a property is reached when in every state of the
  invariant without it some step keeps the invariant and lowers the rank.
-/

namespace Transition

variable {σ ι : Type*} {step : σ → ι → Option σ} {P Q : σ → Prop}

/-- Some run from the state ends in one with the property. -/
def Reaches (step : σ → ι → Option σ) (P : σ → Prop) (s : σ) : Prop :=
  ∃ is t, run step s is = some t ∧ P t

theorem Reaches.of_holds {s : σ} (h : P s) : Reaches step P s := ⟨[], s, rfl, h⟩

/-- A first step, and then a run. -/
theorem Reaches.of_step {s t : σ} {i : ι} (hs : step s i = some t) (h : Reaches step P t) :
    Reaches step P s := by
  obtain ⟨is, u, hrun, hu⟩ := h
  exact ⟨i :: is, u, run_step hs hrun, hu⟩

/-- Every state of the invariant that is not yet there has a step that lowers the rank. -/
theorem reaches_of_rank {Inv : σ → Prop} (rank : σ → ℕ)
    (progress : ∀ s, Inv s → ¬ P s → ∃ i t, step s i = some t ∧ Inv t ∧ rank t < rank s) :
    ∀ {s}, Inv s → Reaches step P s := by
  suffices h : ∀ n s, rank s < n → Inv s → Reaches step P s from
    fun {s} hs => h (rank s + 1) s (Nat.lt_succ_self _) hs
  intro n
  induction n with
  | zero => exact fun s hlt _ => absurd hlt (Nat.not_lt_zero _)
  | succ n ih =>
    intro s hlt hs
    by_cases hP : P s
    · exact .of_holds hP
    · obtain ⟨i, t, hstep, ht, hrank⟩ := progress s hs hP
      exact .of_step hstep (ih t (by omega) ht)

end Transition
