import Hpnl.Lib.Transition

/-!
# The completion threads of the Java service

All `CqThread`s of a `CqService` wait in one native `ExternalCqService`, and each of them
calls `CqService.free` when its own loop has ended.

* `CqThreadsWorld` — the threads, with the flag and the position of each, and the
  native object.
* `Safe` — no thread waits in the native object once it has been deleted, and it is
  deleted exactly once.
* `safe_of_lastOut` — it is enough that the thread that deletes the object is the last one
  to leave its loop.
* `safe_iff` — **every interleaving is safe if and only if there is one worker**.
-/

namespace Hpnl

open Transition

/-- Where a `CqThread` is in `run`. -/
inductive CqThreadStep where
  /-- `running.get()`. -/
  | check
  /-- `wait_event`, before the native call. -/
  | enter
  /-- `service->wait_cq_event`. -/
  | waiting
  /-- The native wait has returned, with an error or without: the callbacks of the event
  and the external handlers run, or the thread stops itself. -/
  | handling (error : Bool)
  /-- `cqService.free()`, after the loop. -/
  | free
  | done
  deriving DecidableEq, Repr

/-- The loop of the thread has ended. -/
def CqThreadStep.left : CqThreadStep → Bool
  | free | done => true
  | check | enter | waiting | handling _ => false

/-- A `CqService` with `n` workers.  `nativeHandle` is whether that field is not null,
`stopping` the index that `CqService.shutdown` has reached, when it has been called, and
`deletions` counts the executions of `delete service`. -/
structure CqThreadsWorld (n : ℕ) where
  running : Fin n → Bool
  thread : Fin n → CqThreadStep
  nativeHandle : Bool
  stopping : Option ℕ
  deletions : ℕ

/-- A step of a thread. -/
inductive CqThreadsOp (n : ℕ) where
  | check (i : Fin n)
  /-- The native call is made, with what `nativeHandle` holds. -/
  | enter (i : Fin n)
  /-- `service->wait_cq_event` returns. -/
  | leave (i : Fin n) (error : Bool)
  /-- The body of the loop is done. -/
  | handled (i : Fin n)
  /-- `CqService.free()`, under the lock. -/
  | free (i : Fin n)
  /-- Some thread calls `CqService.shutdown()`. -/
  | shutdown
  /-- It stops the next worker, under the lock. -/
  | shutdownNext
  deriving DecidableEq, Repr

namespace CqThreadsWorld

variable {n : ℕ}

/-- The started threads. -/
def init (n : ℕ) : CqThreadsWorld n :=
  { running := fun _ => true
    thread := fun _ => .check
    nativeHandle := true
    stopping := none
    deletions := 0 }

/-- A thread goes on. -/
def goTo (w : CqThreadsWorld n) (i : Fin n) (p : CqThreadStep) : CqThreadsWorld n :=
  { w with thread := Function.update w.thread i p }

/-- `CqThread.shutdown()`. -/
def stop (w : CqThreadsWorld n) (i : Fin n) : CqThreadsWorld n :=
  { w with running := Function.update w.running i false }

/-- The native `free`, with what `nativeHandle` holds: a null pointer is not deleted. -/
def free (w : CqThreadsWorld n) : CqThreadsWorld n :=
  if w.nativeHandle then { w with nativeHandle := false, deletions := w.deletions + 1 } else w

/-- One step. -/
def step (w : CqThreadsWorld n) : CqThreadsOp n → Option (CqThreadsWorld n)
  | .check i =>
      if w.thread i = .check then some (w.goTo i (if w.running i then .enter else .free)) else none
  | .enter i => if w.thread i = .enter then some (w.goTo i .waiting) else none
  | .leave i error => if w.thread i = .waiting then some (w.goTo i (.handling error)) else none
  | .handled i =>
      match w.thread i with
      | .handling error => some ((if error then w.stop i else w).goTo i .check)
      | _ => none
  | .free i => if w.thread i = .free then some (w.free.goTo i .done) else none
  | .shutdown =>
      match w.stopping with
      | none => some { w with stopping := some 0 }
      | some k => if k < n then none else some { w with stopping := some 0 }
  | .shutdownNext =>
      match w.stopping with
      | none => none
      | some k =>
          if h : k < n then some { w.stop ⟨k, h⟩ with stopping := some (k + 1) } else none

/-- No thread is in the native wait once the object has been deleted; it is deleted at most
once, and has been when a thread has finished. -/
structure Safe (w : CqThreadsWorld n) : Prop where
  waiting : 0 < w.deletions → ∀ i, w.thread i ≠ .waiting
  atMostOnce : w.deletions ≤ 1
  deleted : ∀ i, w.thread i = .done → w.deletions = 1

/-- The thread that deletes the object is the last one that is still in its loop. -/
def LastOut (w : CqThreadsWorld n) : CqThreadsOp n → Prop
  | .free i => w.nativeHandle = true → ∀ j, j ≠ i → (w.thread j).left = true
  | .check _ | .enter _ | .leave _ _ | .handled _ | .shutdown | .shutdownNext => True

/-- The object is deleted when the field is set to null, and not before; then every thread
has left its loop. -/
structure Inv (w : CqThreadsWorld n) : Prop where
  deletions : w.deletions = if w.nativeHandle then 0 else 1
  left : w.nativeHandle = false → ∀ i, (w.thread i).left = true
  done : ∀ i, w.thread i = .done → w.nativeHandle = false

theorem inv_init (n : ℕ) : (init n).Inv where
  deletions := rfl
  left := by simp [init]
  done := by simp [init]

theorem Inv.safe {w : CqThreadsWorld n} (h : w.Inv) : w.Safe := by
  constructor
  · intro hpos i hi
    have hnull : w.nativeHandle = false := by
      cases hhandle : w.nativeHandle with
      | false => rfl
      | true =>
        have hzero := h.deletions
        rw [hhandle, if_pos rfl] at hzero
        omega
    have hleft := h.left hnull i
    rw [hi] at hleft
    exact absurd hleft (by decide)
  · rw [h.deletions]
    split <;> omega
  · intro i hi
    rw [h.deletions, h.done i hi]
    rfl

/-- A thread that goes on, and is not done: the object and the others stay as they are. -/
theorem Inv.goTo {w : CqThreadsWorld n} (h : w.Inv) {i : Fin n} {p : CqThreadStep}
    (hin : (w.thread i).left = false) (hp : p ≠ .done) : (w.goTo i p).Inv := by
  have hhandle : w.nativeHandle = true := by
    by_contra hnull
    rw [h.left (Bool.not_eq_true _ ▸ hnull) i] at hin
    exact absurd hin (by decide)
  refine ⟨h.deletions, fun hnull => absurd (hhandle.symm.trans hnull) (by decide), ?_⟩
  intro j hj
  obtain ⟨-, hpd⟩ | ⟨-, hold⟩ := of_update hj
  · exact absurd hpd hp
  · exact h.done j hold

/-- Stopping a worker changes its flag only. -/
theorem Inv.congr {w w' : CqThreadsWorld n} (h : w.Inv) (hthread : w'.thread = w.thread)
    (hhandle : w'.nativeHandle = w.nativeHandle) (hdeletions : w'.deletions = w.deletions) :
    w'.Inv := by
  refine ⟨?_, ?_, ?_⟩
  · rw [hdeletions, hhandle]
    exact h.deletions
  · rw [hthread, hhandle]
    exact h.left
  · rw [hthread, hhandle]
    exact h.done

/-- A thread that finishes, when the others have left their loops or the object is gone. -/
theorem Inv.free {w : CqThreadsWorld n} (h : w.Inv) {i : Fin n}
    (hlast : w.nativeHandle = true → ∀ j, j ≠ i → (w.thread j).left = true) :
    (w.free.goTo i .done).Inv := by
  have hothers : ∀ j, j ≠ i → (w.thread j).left = true := by
    cases hhandle : w.nativeHandle with
    | false => exact fun j _ => h.left hhandle j
    | true => exact hlast hhandle
  have hthread : w.free.thread = w.thread := by
    unfold CqThreadsWorld.free
    split <;> rfl
  have hnull : w.free.nativeHandle = false := by
    unfold CqThreadsWorld.free
    split
    · rfl
    · rename_i hnot
      exact Bool.not_eq_true _ ▸ hnot
  refine ⟨?_, ?_, fun _ _ => hnull⟩
  · show w.free.deletions = if w.free.nativeHandle then 0 else 1
    have hold := h.deletions
    rw [hnull]
    unfold CqThreadsWorld.free
    split
    · rename_i hset
      rw [hset, if_pos rfl] at hold
      simp [hold]
    · rename_i hnot
      rw [if_neg hnot] at hold
      simp [hold]
  · intro _ j
    show (Function.update w.free.thread i .done j).left = true
    rw [hthread]
    by_cases hj : j = i
    · rw [hj, Function.update_self]
      rfl
    · rw [Function.update_of_ne hj]
      exact hothers j hj

theorem inv_step {w w' : CqThreadsWorld n} {op : CqThreadsOp n} (h : w.Inv) (hlast : w.LastOut op)
    (hstep : w.step op = some w') : w'.Inv := by
  cases op with
  | check i =>
    simp only [step, Option.ite_none_right_eq_some, Option.some.injEq] at hstep
    obtain ⟨hi, rfl⟩ := hstep
    refine h.goTo (by rw [hi]; rfl) ?_
    split <;> decide
  | enter i =>
    simp only [step, Option.ite_none_right_eq_some, Option.some.injEq] at hstep
    obtain ⟨hi, rfl⟩ := hstep
    exact h.goTo (by rw [hi]; rfl) (by decide)
  | leave i error =>
    simp only [step, Option.ite_none_right_eq_some, Option.some.injEq] at hstep
    obtain ⟨hi, rfl⟩ := hstep
    exact h.goTo (by rw [hi]; rfl) (by simp)
  | handled i =>
    simp only [step] at hstep
    split at hstep
    · rename_i error hi
      cases hstep
      have hstop : (if error then w.stop i else w).Inv := by
        split
        · exact h.congr rfl rfl rfl
        · exact h
      refine hstop.goTo ?_ (by decide)
      have hsame : (if error then w.stop i else w).thread i = .handling error := by
        split <;> exact hi
      rw [hsame]
      rfl
    · cases hstep
  | free i =>
    simp only [step, Option.ite_none_right_eq_some, Option.some.injEq] at hstep
    obtain ⟨hi, rfl⟩ := hstep
    exact h.free hlast
  | shutdown =>
    simp only [step] at hstep
    split at hstep
    · cases hstep
      exact h.congr rfl rfl rfl
    · split at hstep
      · cases hstep
      · cases hstep
        exact h.congr rfl rfl rfl
  | shutdownNext =>
    simp only [step] at hstep
    split at hstep
    · cases hstep
    · split at hstep
      · cases hstep
        exact h.congr rfl rfl rfl
      · cases hstep

/-- A run in which the object is deleted by the last thread is safe. -/
theorem safe_of_lastOut {ops : List (CqThreadsOp n)} (h : Meets step LastOut (init n) ops) :
    Always step Safe (init n) ops :=
  (always_of_meets (fun _ _ _ h hlast hstep => inv_step h hlast hstep) (inv_init n) h).mono
    fun _ h => h.safe

/-- With a second worker: it waits, the service is shut down, and the first worker leaves
its loop and deletes the object. -/
def overtaking (h : 2 ≤ n) : List (CqThreadsOp n) :=
  [.check ⟨1, h⟩, .enter ⟨1, h⟩, .shutdown, .shutdownNext, .check ⟨0, by omega⟩,
    .free ⟨0, by omega⟩]

theorem run_overtaking (h : 2 ≤ n) : ∃ w, run step (init n) (overtaking h) = some w ∧
    w.deletions = 1 ∧ w.thread ⟨1, h⟩ = .waiting := by
  have h0 : 0 < n := by omega
  simp [overtaking, run, step, init, goTo, stop, free, Function.update, h0]

/-- **Every interleaving is safe exactly when there is one worker**; with more of them, those
in which the last thread to leave its loop deletes the object are. -/
theorem safe_iff (n : ℕ) :
    ((∀ ops, Always step Safe (init n) ops) ↔ n ≤ 1) ∧
      ∀ ops, Meets step LastOut (init n) ops → Always step Safe (init n) ops := by
  refine ⟨⟨?_, ?_⟩, fun ops => safe_of_lastOut⟩
  · intro hall
    by_contra hn
    have htwo : 2 ≤ n := by omega
    obtain ⟨w, hrun, hdeleted, hwaits⟩ := run_overtaking htwo
    have hsafe := (hall (overtaking htwo)).last hrun
    exact hsafe.waiting (by omega) _ hwaits
  · intro hn ops
    refine safe_of_lastOut (meets_of_forall ?_)
    intro op _ w
    cases op with
    | free i =>
      intro _ j hj
      exact absurd (Fin.ext (by omega)) hj
    | _ => trivial

/-- Two workers: the second one waits in the object that the first one deletes. -/
theorem not_safe_two : ¬ Always step Safe (init 2) (overtaking le_rfl) := by
  intro halways
  obtain ⟨w, hrun, hdeleted, hwaits⟩ := run_overtaking (n := 2) le_rfl
  exact (halways.last hrun).waiting (by omega) _ hwaits

end CqThreadsWorld

end Hpnl
