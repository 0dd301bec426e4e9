import Hpnl.Java.SendOrder

/-!
# The free of a connection

`delCon` leaves the free of the native connection in the queue of its completion
thread.  A `send` that is called later, or that has to wait again, comes behind it, and
the `Connection` keeps the handle of what has been freed.

* `FreedLast` — no send of a connection after its free.
* `no_send_after_free` — **the native send is never executed after the free, as long
  as** no send is called, and none waits again, behind the free.
-/

namespace Hpnl

open Transition

namespace SendWorld

/-- The second handler is no send of a connection that the first one frees. -/
def FreedLast : ExternalHandler → ExternalHandler → Prop
  | .free c, .send m => m.con ≠ c
  | _, _ => True

instance : DecidableRel FreedLast
  | .free c, .send m => inferInstanceAs (Decidable (m.con ≠ c))
  | .send _, .send _ | .send _, .free _ | .free _, .free _ => isTrue trivial

theorem freedLast_apart (x y : ExternalHandler) (h : x.con ≠ y.con) : FreedLast x y := by
  cases x with
  | send m => trivial
  | free c =>
    cases y with
    | send m => exact Ne.symm h
    | free d => trivial

theorem freedLast_of_ne {x : ExternalHandler} {m : Message} (h : x ≠ .free m.con) :
    FreedLast x (.send m) := by
  cases x with
  | send m' => trivial
  | free c => exact fun heq => h (congrArg ExternalHandler.free heq.symm)

/-- The native send of a connection has not been executed after its free. -/
def NoSendAfterFree (w : SendWorld) : Prop := w.history.Pairwise FreedLast

instance (w : SendWorld) : Decidable w.NoSendAfterFree :=
  inferInstanceAs (Decidable (w.history.Pairwise FreedLast))

/-- `send` is not called on a connection that has been freed, nor, when it has to wait,
on one whose free waits already; and no send waits again behind the free. -/
def NoneBehindFree (w : SendWorld) : SendOp → Prop
  | .send thread c _ _ _ _ => ∀ k ∈ w.con c, .free c ∉ w.history ∧
      (thread = some k.index ∧ k.sendBufferList ≠ [] ∨ .free c ∉ w.externalHandlers k.index)
  | .waitExternalEvent index _ => ∀ p ∈ w.waitsAgain index, .free p.1.con ∉ p.2
  | _ => True

instance (w : SendWorld) : DecidablePred w.NoneBehindFree
  | .send .. | .waitExternalEvent .. => by unfold NoneBehindFree; infer_instance
  | .establishConnection .. | .sendCompleted .. | .sendFailed .. | .delCon .. | .conMapRemove ..
  | .get .. | .activate_recv_chunk .. | .received .. => isTrue trivial

theorem fits_of_noneBehindFree {w : SendWorld} {op : SendOp} (h : NoneBehindFree w op) :
    Fits FreedLast w op := by
  cases op with
  | send thread c buffer b seq reply =>
    intro k hk
    obtain ⟨hfreed, hwaits⟩ := h k hk
    have hlog : ∀ x ∈ w.history, FreedLast x (.send (w.message c k buffer b seq)) :=
      fun x hx => freedLast_of_ne fun heq => hfreed (heq ▸ hx)
    split
    · exact ⟨hlog, fun y _ => by cases y <;> trivial⟩
    · rename_i hnow
      have hqueue := hwaits.resolve_left hnow
      intro x hx
      rcases List.mem_append.mp hx with hx | hx
      · exact hlog x hx
      · exact freedLast_of_ne fun heq => hqueue (heq ▸ hx)
  | waitExternalEvent index reply =>
    intro p hp x hx
    exact freedLast_of_ne fun heq => h p hp (heq ▸ hx)
  | delCon c =>
    intro k hk x hx
    cases x <;> trivial
  | _ => trivial

/-- **No send after the free.**  In a run in which no send is put behind the free of its
connection, no completion thread executes the native send of a connection after the
free of its handle. -/
theorem no_send_after_free (buffer : BufferId → HpnlBuffer) (ops : List SendOp)
    (h : Meets step NoneBehindFree (init buffer) ops) :
    Always step NoSendAfterFree (init buffer) ops := by
  have hkeep : ∀ w op w', Ordered FreedLast w → NoneBehindFree w op →
      step w op = some w' → Ordered FreedLast w' := fun w op w' hord hnone hstep =>
    ordered_step freedLast_apart hord (fits_of_noneBehindFree hnone) hstep
  exact (always_of_meets hkeep (ordered_init buffer) h).mono
    fun w hw => hw.inOrder.log_pairwise

/-- A message, the close of its connection and the free. -/
theorem no_send_after_free_closed : Always step NoSendAfterFree (init smallBuffers)
    [.establishConnection 0 0 [7, 8], .send none 0 (oneByte 1) 0 1 0, .delCon 0,
      .waitExternalEvent 0 0, .waitExternalEvent 0 0] :=
  no_send_after_free smallBuffers _ (by decide +kernel)

/-- A thread sends after the peer has closed the connection, whose free waits. -/
def lateRun : List SendOp :=
  [.establishConnection 0 0 [7, 8], .delCon 0, .conMapRemove 0, .send none 0 (oneByte 1) 0 1 0,
    .waitExternalEvent 0 0, .waitExternalEvent 0 0]

theorem send_after_free : ¬ Always step NoSendAfterFree (init smallBuffers) lateRun := by
  intro h
  have hrun : (run step (init smallBuffers) lateRun).map (fun w => decide w.NoSendAfterFree) =
      some false := by
    decide +kernel
  obtain ⟨w, hw, hfalse⟩ := Option.map_eq_some_iff.mp hrun
  exact of_decide_eq_false hfalse (h.last hw)

end SendWorld

end Hpnl
