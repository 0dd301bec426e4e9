import Hpnl.Demultiplexer.EqHandler
import Hpnl.Java.EqService

/-!
# What the statuses of a connection are for

The statuses order what happens to a connection, in the C++ service and in the Java
service.

* `status_never_decreases` — **the status never decreases** in the C++ service; in the Java
  service it never does **exactly when** `CONNECTED` is not written, after the connected
  callback, to a connection that has been shut down meanwhile.
* `recv_after_setUp` — **a receive is passed to the application only after the set-up** of
  the connection, however early the data arrives, in both services.
-/

namespace Hpnl

open Transition

namespace Lifecycle

/-! ## The order of the statuses -/

/-- **The status never decreases.**  In no run of the C++ service does the status of a
connection decrease.  In a run of the Java service it never does exactly when the event
thread writes `CONNECTED` only to connections that have not been shut down. -/
theorem status_never_decreases (accepting : Bool) (handler : CallbackKind → Option Callback)
    (send_chunks : List ℕ) (ops : List EqHandlerOp) (javaOps : List EqServiceOp) :
    NonDecreasing EqHandlerWorld.step (fun w => w.status)
        (EqHandlerWorld.init accepting handler) ops ∧
      (NonDecreasing EqServiceWorld.step (fun w => w.status)
          (EqServiceWorld.init accepting send_chunks handler) javaOps ↔
        Meets EqServiceWorld.step EqServiceWorld.NotShutDown
          (EqServiceWorld.init accepting send_chunks handler) javaOps) := by
  constructor
  · have keep : ∀ w op w', EqHandlerWorld.StatusInv w → True →
        EqHandlerWorld.step w op = some w' → w'.StatusInv :=
      fun _ _ _ h _ hstep => EqHandlerWorld.statusInv_step h hstep
    refine nonDecreasing_iff_meets.mpr (meets_of_meets keep ?_
      (EqHandlerWorld.statusInv_init accepting handler) ops (meets_true _ _))
    exact fun _ _ _ h _ _ => EqHandlerWorld.climbs h
  · have keep : ∀ w op w', EqServiceWorld.StatusInv w → w.NotShutDown op →
        EqServiceWorld.step w op = some w' → w'.StatusInv :=
      fun _ _ _ h _ hstep => EqServiceWorld.statusInv_step h hstep
    refine nonDecreasing_iff_meets.trans (meets_iff_meets keep ?_
      (EqServiceWorld.statusInv_init accepting send_chunks handler) javaOps)
    exact fun _ _ _ h hstep => EqServiceWorld.climbs_iff h hstep

/-- A server with one send buffer accepts a connection, and its connected callback shuts the
connection down. -/
def shutdownInCallback : List EqServiceOp :=
  [List.replicate 3 .make, [.connectedEvent], List.replicate 9 .advanceEq, [.shutdown .eq],
    List.replicate 2 (.advance .eq)].flatten

/-- The shutdown returns, and then the callback. -/
def callbackReturns : List EqServiceOp :=
  [List.replicate 3 (.advance .eq), List.replicate 2 .advanceEq].flatten

theorem status_decreases :
    ¬ NonDecreasing EqServiceWorld.step (fun w => w.status)
      (EqServiceWorld.init true [0] fun _ => some 0) (shutdownInCallback ++ callbackReturns) := by
  intro h
  have hrun : ((run EqServiceWorld.step (EqServiceWorld.init true [0] fun _ => some 0)
      shutdownInCallback).bind fun t => (run EqServiceWorld.step t callbackReturns).map fun u =>
        (t.status, u.status)) = some (.down, .connected) := by
    decide +kernel
  obtain ⟨t, ht, hrest⟩ := Option.bind_eq_some_iff.mp hrun
  obtain ⟨u, hu, hstatus⟩ := Option.map_eq_some_iff.mp hrest
  obtain ⟨hdown, hconnected⟩ := Prod.mk.inj hstatus
  have hle : t.status ≤ u.status := h _ _ t u List.prefix_rfl ht hu
  rw [hdown, hconnected] at hle
  exact absurd hle (by decide)

/-! ## The set-up -/

/-- **Receives come after the set-up.**  In every run in which the fabric reports CONNECTED
before SHUTDOWN, and in the Java service the application shuts down only connections it has
learnt of, each receive that is passed to the application is passed after the set-up. -/
theorem recv_after_setUp (accepting : Bool) (handler : CallbackKind → Option Callback)
    (send_chunks : List ℕ) (ops : List EqHandlerOp) (javaOps : List EqServiceOp) :
    (Meets EqHandlerWorld.step EqHandlerWorld.InOrder (EqHandlerWorld.init accepting handler) ops →
      Meets EqHandlerWorld.step EqHandlerWorld.AfterSetUp
        (EqHandlerWorld.init accepting handler) ops) ∧
    (Meets EqServiceWorld.step EqServiceWorld.InOrder
        (EqServiceWorld.init accepting send_chunks handler) javaOps →
      Meets EqServiceWorld.step EqServiceWorld.AfterSetUp
        (EqServiceWorld.init accepting send_chunks handler) javaOps) := by
  constructor
  · have keep : ∀ w op w', EqHandlerWorld.SetUpInv w → w.InOrder op →
        EqHandlerWorld.step w op = some w' → w'.SetUpInv :=
      fun _ _ _ h horder hstep => EqHandlerWorld.setUpInv_step h horder hstep
    refine meets_of_meets keep ?_ (EqHandlerWorld.setUpInv_init accepting handler) ops
    exact fun _ _ _ h _ _ => EqHandlerWorld.after_setUp h
  · have keep : ∀ w op w', EqServiceWorld.StatusInv w ∧ w.SetUpInv → w.InOrder op →
        EqServiceWorld.step w op = some w' → w'.StatusInv ∧ w'.SetUpInv :=
      fun _ _ _ h horder hstep => ⟨EqServiceWorld.statusInv_step h.1 hstep,
        EqServiceWorld.setUpInv_step h.1.fresh h.2 horder hstep⟩
    refine meets_of_meets keep ?_ ⟨EqServiceWorld.statusInv_init accepting send_chunks handler,
      EqServiceWorld.setUpInv_init accepting send_chunks handler⟩ javaOps
    exact fun _ _ _ h _ _ => EqServiceWorld.after_setUp h.2

/-- A receive that is read before the CONNECTED event, and waits for the set-up. -/
def earlyRecv : List EqHandlerOp :=
  [List.replicate 3 .make, [.recv, .advanceCq, .connectedEvent], List.replicate 6 .advanceEq,
    [.advanceCq, .advanceCq, .advanceEq]].flatten

/-- The same in the Java service. -/
def earlyRecvJava : List EqServiceOp :=
  [List.replicate 3 .make, [.recv, .advanceCq, .connectedEvent], List.replicate 11 .advanceEq,
    [.advanceCq, .advanceCq]].flatten

theorem recv_after_setUp_early :
    Meets EqHandlerWorld.step EqHandlerWorld.AfterSetUp
        (EqHandlerWorld.init true fun _ => some 0) earlyRecv ∧
      Meets EqServiceWorld.step EqServiceWorld.AfterSetUp
        (EqServiceWorld.init true [0] fun _ => some 0) earlyRecvJava :=
  ⟨(recv_after_setUp true _ [0] earlyRecv earlyRecvJava).1 (by decide +kernel),
    (recv_after_setUp true _ [0] earlyRecv earlyRecvJava).2 (by decide +kernel)⟩

/-- With its last step the run passes the receive on. -/
example : (run EqServiceWorld.step (EqServiceWorld.init true [0] fun _ => some 0)
    earlyRecvJava.dropLast).map (fun w => (w.cqThread, w.conMap.bind fun c => c.callbacks .recv)) =
      some (.deliver, some (some 0)) := by
  decide +kernel

end Lifecycle

end Hpnl
