import Hpnl.Connection.Basic
import Hpnl.Lib.Flight
import Hpnl.Lib.Transition

/-!
# Setting a connection up while the completion thread runs

`RdmConnection::init` posts the receives, and `RdmStack::bind` and `get_con` return the
connection.  Only then do `Service::listen` and `Service::get_con` set its receive callback, and
the Java `listen` and `get_con` call `establishConnection`, which puts it into `conMap`.  The
completion thread of the service may be running all the time.  `RdmCqDemultiplexer::wait_event`
calls no callback when there is none; `RdmService.handleCallback` throws when `conMap` has no
connection, which ends the thread.

* `SetUpWorld` — connections, each at some point of its set-up, the receives, and the messages
  that have arrived on them.
* `DeliveredOnce` — every message that was handled after it arrived on a receive of `init` has
  been delivered once.
* `Guard` — such a message is handled when the connection has been set up.
* `delivered_once_iff` — **the two are equivalent**, for every interleaving.
-/

namespace Hpnl

open Transition

/-- Which service it is: `Service` with an `RdmCqThread`, or `RdmService` with an `RdmThread`. -/
inductive RdmServiceKind where
  | cpp
  | java
  deriving DecidableEq, Repr

/-- How far the set-up of a connection is. -/
inductive SetUpPhase where
  /-- In the loop of `init`; the rounds that are left. -/
  | posting (rounds : ℕ)
  /-- `init` has returned; what it returns is not looked at. -/
  | initialized
  /-- The receive callback is set, or `conMap` has the connection. -/
  | ready
  deriving DecidableEq, Repr

/-- How a round of `init` goes: `free_size()` is 0, `fi_recv` accepts, or it does not. -/
inductive RoundReply where
  | full
  | posted
  | failed
  deriving DecidableEq, Repr

/-- A receive that has been posted, by `init` or by `activate_recv_chunk`. -/
structure RdmReceive where
  con : ConId
  by_init : Bool
  deriving DecidableEq, Repr

/-- A service with a receive callback.  The receives are numbered; a receive that has completed
holds the message that arrived on it, and `delivered` counts the calls of the callback for it.
`running` is the completion thread. -/
structure SetUpWorld extends Flight RdmReceive Unit where
  phase : ConId → Option SetUpPhase
  delivered : ℕ → ℕ
  running : Bool

/-- A step of a set-up, of the fabric, or of the completion thread. -/
inductive SetUpOp where
  /-- `new RdmConnection`, and `init` as far as the loop. -/
  | construct (con : ConId) (buffer_num : ℕ)
  /-- A round of the loop. -/
  | round (con : ConId) (r : RoundReply)
  /-- The loop ends. -/
  | init_return (con : ConId)
  /-- `set_recv_callback`, or `establishConnection`. -/
  | establish (con : ConId)
  /-- A message arrives on receive `n`. -/
  | arrive (n : ℕ)
  /-- `wait_event`, as far as one message; whether `activate_recv_chunk` posts a receive. -/
  | wait_event (activated : Bool)
  deriving DecidableEq, Repr

namespace SetUpWorld

/-- A service without connections, whose completion thread has been started. -/
def init : SetUpWorld :=
  { Flight.empty with
    phase := fun _ => none
    delivered := fun _ => 0
    running := true }

def goto (w : SetUpWorld) (con : ConId) (p : SetUpPhase) : SetUpWorld :=
  { w with phase := Function.update w.phase con (some p) }

/-- A receive is posted. -/
def post (w : SetUpWorld) (o : RdmReceive) : SetUpWorld :=
  { w with toFlight := w.toFlight.post o }

/-- A round of the loop of `RdmConnection::init`. -/
def round (w : SetUpWorld) (con : ConId) (n : ℕ) : RoundReply → SetUpWorld
  | .full => w.goto con (.posting n)
  | .posted => (w.post ⟨con, true⟩).goto con (.posting n)
  | .failed => w.goto con .initialized

/-- The callback is called for the message on receive `n`, if there is one to call. -/
def call (w : SetUpWorld) (n : ℕ) (ready : Bool) : SetUpWorld :=
  { w with delivered := Function.update w.delivered n (w.delivered n + ready.toNat) }

/-- `activate_recv_chunk`. -/
def activate_recv_chunk (w : SetUpWorld) (con : ConId) (activated : Bool) : SetUpWorld :=
  if activated then w.post ⟨con, false⟩ else w

/-- The message on receive `n` of connection `con` is handled: by `RdmCqDemultiplexer`, or by
`RdmService`, where the exception of `handleCallback` is pending until the native method
returns, and then leaves the loop of `RdmThread`. -/
def handle (w : SetUpWorld) (k : RdmServiceKind) (n : ℕ) (con : ConId) (activated : Bool) :
    SetUpWorld :=
  let ready := w.phase con = some .ready
  let w' := (w.call n (decide ready)).activate_recv_chunk con activated
  match k with
  | .cpp => w'
  | .java => { w' with running := decide ready }

/-- One step. -/
def step (k : RdmServiceKind) (w : SetUpWorld) : SetUpOp → Option SetUpWorld
  | .construct con buffer_num =>
      if w.phase con = none then some (w.goto con (.posting buffer_num)) else none
  | .round con r =>
      match w.phase con with
      | some (.posting (n + 1)) => some (w.round con n r)
      | _ => none
  | .init_return con =>
      if w.phase con = some (.posting 0) then some (w.goto con .initialized) else none
  | .establish con =>
      if w.phase con = some .initialized then some (w.goto con .ready) else none
  | .arrive n =>
      if n ∈ w.inFlight then some { w with toFlight := w.toFlight.complete n () } else none
  | .wait_event activated =>
      if w.running then
        match w.queue with
        | [] => some w
        | (n, _) :: rest =>
            (w.operations[n]?).map fun o =>
              { w with toFlight := w.read rest }.handle k n o.con activated
      else none

/-! ## What is to hold, and when it does -/

/-- The receive was posted by `init`. -/
def ByInit (o : RdmReceive) : Prop := o.by_init

/-- **Delivered once.**  A message that arrived on a receive of `init` and has been handled has
been passed to the callback once, and no message is passed twice. -/
def DeliveredOnce (w : SetUpWorld) : Prop := w.Once w.delivered ByInit

/-- **The condition.**  A message on a receive of `init` is handled when its connection has been
set up. -/
def Guard (w : SetUpWorld) : SetUpOp → Prop
  | .wait_event _ =>
      match w.queue with
      | [] => True
      | (n, _) :: _ => ∀ o ∈ w.operations[n]?, o.by_init → w.phase o.con = some .ready
  | _ => True

/-! ## The invariant -/

/-- The deliveries are accounted for. -/
def Inv (w : SetUpWorld) : Prop := w.toFlight.Accounted w.delivered ByInit

theorem inv_init : init.Inv := Flight.accounted_empty

section

variable {k : RdmServiceKind} {w w' : SetUpWorld} {con : ConId} {n : ℕ} {b : Unit}
  {rest : List (ℕ × Unit)} {activated : Bool}

/-- A receive is posted after the callback, or none is. -/
theorem flight_handle : (w.handle k n con activated).toFlight = w.toFlight ∨
    ∃ p, (w.handle k n con activated).toFlight = w.toFlight.post p := by
  cases activated with
  | false => cases k <;> exact Or.inl rfl
  | true => cases k <;> exact Or.inr ⟨⟨con, false⟩, rfl⟩

/-- The message is delivered when the connection has been set up. -/
theorem delivered_handle : (w.handle k n con activated).delivered =
    Function.update w.delivered n
      (w.delivered n + (decide (w.phase con = some .ready)).toNat) := by
  cases activated <;> cases k <;> rfl

theorem inv_round {m : ℕ} (h : w.Inv) (r : RoundReply) : (w.round con m r).Inv := by
  cases r with
  | full => exact h
  | posted => exact Flight.Accounted.post h ⟨con, true⟩
  | failed => exact h

/-- **A message is handled.** -/
theorem inv_handle {o : RdmReceive} (h : w.Inv) (hqueue : w.queue = (n, b) :: rest)
    (ho : w.operations[n]? = some o) (hready : o.by_init → w.phase o.con = some .ready) :
    Inv ({ w with toFlight := w.read rest }.handle k n o.con activated) := by
  have hzero : w.delivered n = 0 := h.staying n (Flight.mem_pending hqueue)
  have hread : (w.read rest).Accounted
      (Function.update w.delivered n
        (w.delivered n + (decide (w.phase o.con = some .ready)).toNat)) ByInit := by
    refine Flight.Accounted.read h hqueue ?_ fun p hp hinit => ?_
    · rw [hzero, Nat.zero_add]
      exact Bool.toNat_le _
    · obtain rfl : o = p := Option.some.inj (ho.symm.trans hp)
      rw [hzero, decide_eq_true (hready hinit)]
      rfl
  have hflight :
      ({ w with toFlight := w.read rest }.handle k n o.con activated).toFlight = w.read rest ∨
        ∃ p, ({ w with toFlight := w.read rest }.handle k n o.con activated).toFlight =
          (w.read rest).post p := flight_handle
  unfold Inv
  rw [delivered_handle]
  rcases hflight with hsame | ⟨p, hpost⟩
  · rw [hsame]
    exact hread
  · rw [hpost]
    exact hread.post p

/-- What a step of the completion thread has done. -/
theorem wait_event_cases (hqueue : w.queue = (n, b) :: rest)
    (hstep : step k w (.wait_event activated) = some w') : ∃ o, w.operations[n]? = some o ∧
      w' = { w with toFlight := w.read rest }.handle k n o.con activated := by
  unfold step at hstep
  rw [hqueue] at hstep
  simp only at hstep
  split at hstep
  · obtain ⟨o, ho, rfl⟩ := Option.map_eq_some_iff.mp hstep
    exact ⟨o, ho, rfl⟩
  · cases hstep

/-- **Every step that meets the guard keeps the invariant.** -/
theorem inv_step {op : SetUpOp} (h : w.Inv) (hguard : w.Guard op)
    (hstep : step k w op = some w') : w'.Inv := by
  cases op with
  | construct con buffer_num =>
    simp only [step] at hstep
    split at hstep
    · cases hstep
      exact h
    · cases hstep
  | round con r =>
    simp only [step] at hstep
    split at hstep
    · cases hstep
      exact inv_round h r
    · cases hstep
  | init_return con =>
    simp only [step] at hstep
    split at hstep
    · cases hstep
      exact h
    · cases hstep
  | establish con =>
    simp only [step] at hstep
    split at hstep
    · cases hstep
      exact h
    · cases hstep
  | arrive n =>
    simp only [step] at hstep
    split at hstep
    · rename_i hn
      cases hstep
      exact Flight.Accounted.complete h hn ()
    · cases hstep
  | wait_event activated =>
    cases hqueue : w.queue with
    | nil =>
      unfold step at hstep
      rw [hqueue] at hstep
      simp only at hstep
      split at hstep
      · cases hstep
        exact h
      · cases hstep
    | cons e rest =>
      obtain ⟨n, b⟩ := e
      obtain ⟨o, ho, rfl⟩ := wait_event_cases hqueue hstep
      simp only [Guard, hqueue] at hguard
      exact inv_handle h hqueue ho (hguard o ho)

/-- **A message that is handled too early is lost.** -/
theorem guard_of_deliveredOnce {op : SetUpOp} (h : w.Inv) (hstep : step k w op = some w')
    (hgood : w'.DeliveredOnce) : w.Guard op := by
  cases op with
  | wait_event activated =>
    cases hqueue : w.queue with
    | nil => simp only [Guard, hqueue]
    | cons e rest =>
      obtain ⟨n, b⟩ := e
      simp only [Guard, hqueue]
      intro o ho hinit
      obtain ⟨p, hp, rfl⟩ := wait_event_cases hqueue hstep
      obtain rfl : o = p := Option.some.inj (ho.symm.trans hp)
      have hzero : w.delivered n = 0 := h.staying n (Flight.mem_pending hqueue)
      have hone := h.counted hqueue ho hgood hinit flight_handle
      rw [delivered_handle, Function.update_self] at hone
      by_contra hready
      have hcount : w.delivered n + (decide (w.phase o.con = some .ready)).toNat = 1 := hone
      rw [hzero, decide_eq_false hready] at hcount
      cases hcount
  | _ => trivial

end

/-! ## Runs -/

/-- **Messages are delivered once exactly when no set-up is overtaken.**  In every run of either
service, with the completion thread taking its steps at any time, the messages that arrive on
the receives of `init` and are handled are delivered once each, throughout, exactly when each of
them is handled after its connection has been set up. -/
theorem delivered_once_iff (k : RdmServiceKind) (ops : List SetUpOp) :
    Always (step k) DeliveredOnce init ops ↔ Meets (step k) Guard init ops := by
  have keep : ∀ w op w', Inv w → w.Guard op → step k w op = some w' → Inv w' :=
    fun _ _ _ h hg hstep => inv_step h hg hstep
  exact always_iff_meets (fun _ h => h.once) keep
    (fun _ _ _ h hstep hgood => guard_of_deliveredOnce h hstep hgood) inv_init ops

/-- `get_con` has posted a receive, and its message is handled before the callback is set. -/
def overtaken : List SetUpOp :=
  [.construct 1 1, .round 1 .posted, .arrive 0, .wait_event true, .init_return 1, .establish 1]

/-- The message is delivered to nobody. -/
theorem message_dropped : ¬ Always (step .cpp) DeliveredOnce init overtaken := by
  intro h
  have hrun : (run (step .cpp) init overtaken).map
      (fun w => (w.operations[0]?, w.pending, w.delivered 0)) =
        some (some ⟨1, true⟩, [1], 0) := by
    decide +kernel
  obtain ⟨w, hw, hfields⟩ := Option.map_eq_some_iff.mp hrun
  simp only [Prod.mk.injEq] at hfields
  obtain ⟨hop, hpending, hdelivered⟩ := hfields
  have hone : w.delivered 0 = 1 := (h.last hw).2 0 _ hop rfl (by simp [hpending])
  omega

end SetUpWorld

end Hpnl
