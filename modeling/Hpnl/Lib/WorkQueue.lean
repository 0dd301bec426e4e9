import Mathlib

/-!
# Work that waits in queues

Items wait in queues, one queue to a worker, and are moved to a common log when they
are done.  Every item has a home, the queue it may wait in.

* `InOrder` — what is in the log, followed by what waits in any one of the queues, is
  in order for a relation `R`; items with different homes are in order either way.
* `InOrder.enqueue`, `InOrder.drop`, `InOrder.log_append` — waiting, leaving the head of a
  queue, and being done.
-/

namespace WorkQueue

variable {α : Type*} {R : α → α → Prop} {home : α → ℕ} {log : List α} {queue : ℕ → List α}

/-- Everything waits at home, and the log followed by any one queue is in order. -/
structure InOrder (R : α → α → Prop) (home : α → ℕ) (log : List α) (queue : ℕ → List α) :
    Prop where
  placed : ∀ i, ∀ x ∈ queue i, home x = i
  ordered : ∀ i, (log ++ queue i).Pairwise R

namespace InOrder

theorem nil (R : α → α → Prop) (home : α → ℕ) : InOrder R home [] fun _ => [] :=
  ⟨fun _ _ h => absurd h List.not_mem_nil, fun _ => List.Pairwise.nil⟩

theorem log_pairwise (h : InOrder R home log queue) : log.Pairwise R :=
  (List.pairwise_append.mp (h.ordered 0)).1

/-- Only the homes of what waits matter. -/
theorem congr_home (h : InOrder R home log queue) {home' : α → ℕ}
    (heq : ∀ i, ∀ x ∈ queue i, home' x = home x) : InOrder R home' log queue :=
  ⟨fun i x hx => (heq i x hx).trans (h.placed i x hx), h.ordered⟩

/-- An item joins the end of its queue. -/
theorem enqueue (h : InOrder R home log queue) {a : α} {i : ℕ} (hi : home a = i)
    (hlast : ∀ x ∈ log ++ queue i, R x a) :
    InOrder R home log (Function.update queue i (queue i ++ [a])) := by
  constructor
  · intro j x hx
    by_cases hj : j = i
    · subst hj
      rw [Function.update_self, List.mem_append, List.mem_singleton] at hx
      rcases hx with hx | rfl
      · exact h.placed j x hx
      · exact hi
    · rw [Function.update_of_ne hj] at hx
      exact h.placed j x hx
  · intro j
    by_cases hj : j = i
    · subst hj
      rw [Function.update_self, ← List.append_assoc]
      refine List.pairwise_append.mpr ⟨h.ordered j, List.pairwise_singleton R a, ?_⟩
      intro x hx y hy
      rw [List.mem_singleton.mp hy]
      exact hlast x hx
    · rw [Function.update_of_ne hj]
      exact h.ordered j

/-- The head of a queue is given up. -/
theorem drop (h : InOrder R home log queue) {a : α} {i : ℕ} {rest : List α}
    (hq : queue i = a :: rest) : InOrder R home log (Function.update queue i rest) := by
  constructor
  · intro j x hx
    by_cases hj : j = i
    · subst hj
      rw [Function.update_self] at hx
      exact h.placed j x (hq ▸ List.mem_cons_of_mem a hx)
    · rw [Function.update_of_ne hj] at hx
      exact h.placed j x hx
  · intro j
    by_cases hj : j = i
    · subst hj
      rw [Function.update_self]
      have hord := h.ordered j
      rw [hq] at hord
      exact hord.sublist ((List.sublist_cons_self a rest).append_left log)
    · rw [Function.update_of_ne hj]
      exact h.ordered j

/-- An item is done without having waited. -/
theorem log_append (h : InOrder R home log queue) {a : α}
    (apart : ∀ x y, home x ≠ home y → R x y) (hlog : ∀ x ∈ log, R x a)
    (hqueue : ∀ y ∈ queue (home a), R a y) : InOrder R home (log ++ [a]) queue := by
  refine ⟨h.placed, fun j => ?_⟩
  obtain ⟨hpre, hpost, hcross⟩ := List.pairwise_append.mp (h.ordered j)
  rw [List.append_assoc, List.singleton_append]
  refine List.pairwise_append.mpr ⟨hpre, List.pairwise_cons.mpr ⟨fun y hy => ?_, hpost⟩, ?_⟩
  · by_cases hj : home a = j
    · exact hqueue y (hj.symm ▸ hy)
    · exact apart a y fun heq => hj (heq.trans (h.placed j y hy))
  · intro x hx y hy
    rcases List.mem_cons.mp hy with rfl | hy
    · exact hlog x hx
    · exact hcross x hx y hy

end InOrder

end WorkQueue
