import Hpnl.Connection.Status

/-!
# The events of a connection in the Java service

`wait_eq_event1` sets a connection up in Java and calls the connected callback before it
writes `CONNECTED`; `shutdown1` and the SHUTDOWN event write `DOWN`.

* `EqServiceWorld` — one connection, with the event thread, its completion thread, and every
  thread that is shutting it down.
* `climbs_iff` — **a step decreases the status exactly when** it writes `CONNECTED` to a
  connection that the connected callback, or a thread that has got it from there, has shut
  down.
* `after_setUp` — a receive is passed to the application only when the connection is set up.
-/

namespace Hpnl

open Transition

/-- A thread that may shut a connection down. -/
inductive Closer where
  | eq
  | other (n : ℕ)
  deriving DecidableEq, Repr

/-- Where a thread is in `Connection.shutdown`. -/
inductive ShutdownStep where
  /-- `if (con->status < DOWN)` in `shutdown1`, which has found the connection. -/
  | check
  /-- `con->status = DOWN`. -/
  | down
  | reap
  /-- `delete_eq_event`. -/
  | deleteEvent
  | closeConnection
  deriving DecidableEq, Repr

/-- The thread has found the native connection, and is not done with it. -/
def ShutdownStep.found : ShutdownStep → Bool
  | .check | .down | .reap => true
  | .deleteEvent | .closeConnection => false

/-- Where the event thread is in `wait_eq_event1`, for an event of the connection. -/
inductive EventStep where
  | idle
  | establishConnection
  /-- These send buffers are still to be pushed. -/
  | pushSendBuffer (todo : List ℕ)
  /-- These setters are still to be called by `handleEqCallback`. -/
  | setCallbacks (todo : List CallbackKind)
  | connectedCallback
  /-- `con->status = CONNECTED`. -/
  | connected
  /-- SHUTDOWN. -/
  | reap
  | closeConnection
  deriving DecidableEq, Repr

/-- The event thread is setting the connection up. -/
def EventStep.setsUp : EventStep → Bool
  | .establishConnection | .pushSendBuffer _ | .setCallbacks _ => true
  | .idle | .connectedCallback | .connected | .reap | .closeConnection => false

/-- A `Connection` as the event thread sets it up: the send buffers that have been pushed,
and what each setter that has been called has stored. -/
structure EqConnection where
  pushed : List ℕ
  callbacks : CallbackKind → Option (Option Callback)

namespace EqConnection

/-- The setters that `handleEqCallback` calls, in this order. -/
def setters : List CallbackKind := [.connected, .recv, .send, .read, .shutdown]

def new : EqConnection := { pushed := [], callbacks := fun _ => none }

def pushSendBuffer (c : EqConnection) (buffer_id : ℕ) : EqConnection :=
  { c with pushed := c.pushed ++ [buffer_id] }

def setCallback (c : EqConnection) (k : CallbackKind) (f : Option Callback) : EqConnection :=
  { c with callbacks := Function.update c.callbacks k (some f) }

/-- Every send buffer has been pushed, and every setter called. -/
def SetUp (c : EqConnection) (send_chunks : List ℕ) : Prop :=
  c.pushed = send_chunks ∧ ∀ k ∈ setters, (c.callbacks k).isSome

/-- The setters that are left have not been called. -/
theorem isSome_setCallback {c : EqConnection} {k l : CallbackKind} (f : Option Callback)
    (h : l = k ∨ (c.callbacks l).isSome) : ((c.setCallback k f).callbacks l).isSome := by
  show (Function.update c.callbacks k (some f) l).isSome = true
  by_cases hl : l = k
  · subst hl
    rw [Function.update_self]
    rfl
  · rw [Function.update_of_ne hl]
    exact h.resolve_left hl

end EqConnection

/-- A connection.  `handlers` are the callbacks of the `EqService`, `conMap` is what its map
has for the event queue, `closing` where each thread is that shuts the connection down, and
`reapCons` whether it waits to be shut down by the event thread.  That its CONNECTED event
has been read, and that the connected callback has been reached, is recorded. -/
structure EqServiceWorld extends NativeConnection where
  send_chunks : List ℕ
  handlers : CallbackKind → Option Callback
  conMap : Option EqConnection
  closing : Closer → Option ShutdownStep
  reapCons : Bool
  connectedRead : Bool
  announced : Bool
  eqThread : EventStep
  cqThread : RecvStep

/-- A step of a thread. -/
inductive EqServiceOp where
  /-- The thread that makes the connection goes on. -/
  | make
  /-- `setRecvCallback` of the service, and the others. -/
  | setHandler (k : CallbackKind) (f : Option Callback)
  | connectedEvent
  | shutdownEvent
  /-- The event thread goes on with the event. -/
  | advanceEq
  /-- A thread calls `Connection.shutdown()`. -/
  | shutdown (t : Closer)
  /-- It goes on with it. -/
  | advance (t : Closer)
  /-- `EqService.shutdown()`. -/
  | shutdownService
  | pendingReap
  /-- The completion thread reads a receive of the connection. -/
  | recv
  /-- The completion thread goes on with it. -/
  | advanceCq
  deriving DecidableEq, Repr

namespace EqServiceWorld

/-- A new connection. -/
def init (accepting : Bool) (send_chunks : List ℕ) (handlers : CallbackKind → Option Callback) :
    EqServiceWorld :=
  { NativeConnection.init accepting with
    send_chunks := send_chunks
    handlers := handlers
    conMap := none
    closing := fun _ => none
    reapCons := false
    connectedRead := false
    announced := false
    eqThread := .idle
    cqThread := .idle }

/-- The event thread can read an event of the connection. -/
def Reads (w : EqServiceWorld) : Prop :=
  w.eqThread = .idle ∧ w.closing .eq = none ∧ w.registered = true

instance (w : EqServiceWorld) : Decidable w.Reads :=
  inferInstanceAs (Decidable (_ ∧ _ ∧ _))

def setClosing (w : EqServiceWorld) (t : Closer) (k : Option ShutdownStep) : EqServiceWorld :=
  { w with closing := Function.update w.closing t k }

/-- `shutdown1` up to `get_connection`. -/
def beginShutdown (w : EqServiceWorld) (t : Closer) : EqServiceWorld :=
  w.setClosing t (some (if w.inMap then .check else .deleteEvent))

/-- The next step of a thread in `Connection.shutdown`. -/
def advance (w : EqServiceWorld) (t : Closer) : ShutdownStep → EqServiceWorld
  | .check => w.setClosing t (some (if w.status < .down then .down else .deleteEvent))
  | .down => { w with status := .down }.setClosing t (some .reap)
  | .reap => { w with inMap := false }.setClosing t (some .deleteEvent)
  | .deleteEvent => { w with registered := false }.setClosing t (some .closeConnection)
  | .closeConnection => { w with conMap := none }.setClosing t none

/-- The next step of the event thread.  Where `handleEqCallback` does not find the connection
it throws, and the status is written all the same. -/
def advanceEq (w : EqServiceWorld) : Option EqServiceWorld :=
  match w.eqThread with
  | .idle => none
  | .establishConnection =>
      some { w with conMap := some .new, eqThread := .pushSendBuffer w.send_chunks }
  | .pushSendBuffer (b :: todo) =>
      some { w with
        conMap := w.conMap.map fun c => c.pushSendBuffer b
        eqThread := .pushSendBuffer todo }
  | .pushSendBuffer [] =>
      some { w with
        eqThread := if w.conMap.isSome then .setCallbacks EqConnection.setters else .connected }
  | .setCallbacks (k :: todo) =>
      some { w with
        conMap := w.conMap.map fun c => c.setCallback k (w.handlers k)
        eqThread := .setCallbacks todo }
  | .setCallbacks [] => some { w with announced := true, eqThread := .connectedCallback }
  | .connectedCallback => some { w with eqThread := .connected }
  | .connected => some { w with status := .connected, eqThread := .idle }
  | .reap => some { w with inMap := false, eqThread := .closeConnection }
  | .closeConnection => some { w with conMap := none, eqThread := .idle }

/-- One step.  On the event thread the application runs in the connected callback. -/
def step (w : EqServiceWorld) : EqServiceOp → Option EqServiceWorld
  | .make => w.advanceMake.map fun n => { w with toNativeConnection := n }
  | .setHandler k f => some { w with handlers := Function.update w.handlers k f }
  | .connectedEvent =>
      if w.Reads then
        some { w with
          connectedRead := true
          eqThread := if w.inMap then .establishConnection else .idle }
      else none
  | .shutdownEvent =>
      if w.Reads then
        if w.inMap then
          some { w with registered := false, status := .down, eqThread := .reap }
        else some { w with registered := false, eqThread := .closeConnection }
      else none
  | .advanceEq => if w.closing .eq = none then w.advanceEq else none
  | .shutdown t =>
      if w.closing t = none ∧ (t = .eq → w.eqThread = .connectedCallback) then
        some (w.beginShutdown t)
      else none
  | .advance t => (w.closing t).map fun k => w.advance t k
  | .shutdownService => some { w with reapCons := w.reapCons || w.conMap.isSome }
  | .pendingReap =>
      if w.eqThread = .idle ∧ w.closing .eq = none ∧ w.reapCons then
        some ({ w with reapCons := false }.beginShutdown .eq)
      else none
  | .recv => if w.cqThread = .idle then some { w with cqThread := .check } else none
  | .advanceCq => (w.cqThread.next w.status).map fun next => { w with cqThread := next }

/-- The connection has been established, its send buffers pushed and its callbacks set. -/
def SetUp (w : EqServiceWorld) : Prop := ∃ c, w.conMap = some c ∧ c.SetUp w.send_chunks

/-- The step calls the receive callback of the connection. -/
def PassesRecv (w : EqServiceWorld) (op : EqServiceOp) : Prop :=
  op = .advanceCq ∧ w.cqThread = .deliver ∧
    ∃ c, w.conMap = some c ∧ ∃ f, c.callbacks .recv = some (some f)

/-- What is passed to the application is passed after the set-up. -/
def AfterSetUp (w : EqServiceWorld) (op : EqServiceOp) : Prop := w.PassesRecv op → w.SetUp

/-- The fabric reports CONNECTED, once, and SHUTDOWN after it; the application learns of the
connection in the connected callback. -/
def InOrder (w : EqServiceWorld) : EqServiceOp → Prop
  | .connectedEvent => w.connectedRead = false
  | .shutdownEvent => w.connectedRead = true
  | .shutdown _ => w.announced = true
  | _ => True

instance (w : EqServiceWorld) : DecidablePred w.InOrder
  | .connectedEvent | .shutdownEvent | .shutdown _ => by unfold InOrder; infer_instance
  | .make | .setHandler .. | .advanceEq | .advance _ | .shutdownService | .pendingReap | .recv
  | .advanceCq => isTrue trivial

/-- `CONNECTED` is not written to a connection that has been shut down. -/
def NotShutDown (w : EqServiceWorld) : EqServiceOp → Prop
  | .advanceEq => w.eqThread = .connected → w.status ≠ .down
  | _ => True

variable {w w' : EqServiceWorld}

/-! ## The status -/

/-- A connection whose status has not been written is out of the reach of the event thread
and of every thread that shuts it down; the Java service does not use `SHUTDOWN_REQ`. -/
structure StatusInv (w : EqServiceWorld) : Prop where
  fresh : w.Fresh
  made : w.eqThread ≠ .idle → w.make = .made
  closing : ∀ t k, w.closing t = some k → k.found = true → w.make ≠ .status
  status : w.status ≠ .shutdownReq

theorem statusInv_init (accepting : Bool) (send_chunks : List ℕ)
    (handlers : CallbackKind → Option Callback) :
    (init accepting send_chunks handlers).StatusInv where
  fresh := NativeConnection.fresh_init accepting
  made h := absurd rfl h
  closing _ _ h := absurd h (by simp [init])
  status h := by cases h

theorem statusInv_setClosing (h : w.StatusInv) (t : Closer) {new : Option ShutdownStep}
    (hnew : ∀ k, new = some k → k.found = true → w.make ≠ .status) :
    (w.setClosing t new).StatusInv := by
  refine ⟨h.fresh, h.made, fun u k hk hfound => ?_, h.status⟩
  rcases of_update hk with ⟨-, hk⟩ | ⟨-, hk⟩
  · exact hnew k hk hfound
  · exact h.closing u k hk hfound

theorem statusInv_beginShutdown (h : w.StatusInv) (t : Closer) : (w.beginShutdown t).StatusInv := by
  refine statusInv_setClosing h t fun k hk hfound hmake => ?_
  have hout := (h.fresh.status hmake).2
  rw [hout] at hk
  cases hk
  cases hfound

theorem statusInv_advance (h : w.StatusInv) {t : Closer} {k : ShutdownStep}
    (hk : w.closing t = some k) : (w.advance t k).StatusInv := by
  have hmake := h.closing t k hk
  cases k with
  | check => exact statusInv_setClosing h t fun _ _ _ => hmake rfl
  | down =>
    have hdown : { w with status := ConStatus.down }.StatusInv :=
      ⟨⟨fun hs => absurd hs (hmake rfl), h.fresh.registered⟩, h.made, h.closing,
        fun hs => by cases hs⟩
    exact statusInv_setClosing hdown t fun _ _ _ => hmake rfl
  | reap =>
    have hreap : { w with inMap := false }.StatusInv :=
      ⟨⟨fun hs => ⟨(h.fresh.status hs).1, rfl⟩, h.fresh.registered⟩, h.made, h.closing, h.status⟩
    exact statusInv_setClosing hreap t fun _ hj hfound => by cases hj; cases hfound
  | deleteEvent =>
    have hdelete : { w with registered := false }.StatusInv :=
      ⟨⟨h.fresh.status, fun hreg => absurd hreg (by simp)⟩, h.made, h.closing, h.status⟩
    exact statusInv_setClosing hdelete t fun _ hj hfound => by cases hj; cases hfound
  | closeConnection =>
    have hclose : { w with conMap := none }.StatusInv := ⟨h.fresh, h.made, h.closing, h.status⟩
    exact statusInv_setClosing hclose t fun _ hj => by cases hj

/-- What the event thread does to the native connection. -/
theorem advanceEq_native (h : w.advanceEq = some w') :
    w.eqThread ≠ .idle ∧ w'.closing = w.closing ∧
      (w'.toNativeConnection = w.toNativeConnection ∧ w.eqThread ≠ .connected ∨
        w.eqThread = .connected ∧
          w'.toNativeConnection = { w.toNativeConnection with status := .connected } ∨
        w.eqThread = .reap ∧
          w'.toNativeConnection = { w.toNativeConnection with inMap := false }) := by
  unfold advanceEq at h
  split at h <;> cases h <;> simp_all

theorem statusInv_advanceEq (h : w.StatusInv) (hstep : w.advanceEq = some w') :
    w'.StatusInv := by
  obtain ⟨hbusy, hclosing, hnative⟩ := advanceEq_native hstep
  have hmade := h.made hbusy
  have hstatus : w.make ≠ .status := fun hs => absurd (hmade.symm.trans hs) (by simp)
  have hold : ∀ t k, w'.closing t = some k → k.found = true → w.make ≠ .status :=
    fun _ _ _ _ => hstatus
  rcases hnative with ⟨hn, -⟩ | ⟨-, hn⟩ | ⟨-, hn⟩
  all_goals have hmake := congrArg NativeConnection.make hn
  all_goals refine ⟨?_, fun _ => hmake.trans hmade,
    fun t k hk hf hs => hold t k hk hf (hmake.symm.trans hs), ?_⟩
  · rw [hn]; exact h.fresh
  · rw [hn]; exact h.status
  · rw [hn]; exact ⟨fun hs => absurd hs hstatus, h.fresh.registered⟩
  · rw [hn]; simp
  · rw [hn]; exact ⟨fun hs => absurd hs hstatus, h.fresh.registered⟩
  · rw [hn]; exact h.status

theorem statusInv_make (h : w.StatusInv) {n : NativeConnection} (hn : w.advanceMake = some n) :
    { w with toNativeConnection := n }.StatusInv := by
  have hunmade := NativeConnection.unmade_of_advanceMake hn
  refine ⟨NativeConnection.fresh_advanceMake h.fresh hn, fun hbusy => ?_, fun t k hk hf => ?_,
    fun hs => ?_⟩
  · exact absurd (h.made hbusy) hunmade
  · exact NativeConnection.make_advanceMake hn
  · rcases NativeConnection.status_advanceMake hn with heq | hlt
    · exact h.status (heq.symm.trans hs)
    · change n.status = .shutdownReq at hs
      rw [hs] at hlt
      exact absurd hlt (by decide)

theorem statusInv_step {op : EqServiceOp} (h : w.StatusInv) (hstep : step w op = some w') :
    w'.StatusInv := by
  cases op with
  | make =>
    obtain ⟨n, hn, rfl⟩ := Option.map_eq_some_iff.mp hstep
    exact statusInv_make h hn
  | setHandler k f =>
    cases hstep
    exact ⟨h.fresh, h.made, h.closing, h.status⟩
  | connectedEvent =>
    obtain ⟨⟨-, -, hreg⟩, hw⟩ := Option.ite_none_right_eq_some.mp hstep
    cases hw
    exact ⟨h.fresh, fun _ => h.fresh.registered hreg, h.closing, h.status⟩
  | shutdownEvent =>
    obtain ⟨⟨-, -, hreg⟩, hw⟩ := Option.ite_none_right_eq_some.mp hstep
    have hmade := h.fresh.registered hreg
    have hstatus : w.make = .status → False := fun hs => absurd (hmade.symm.trans hs) (by simp)
    split at hw
    · cases hw
      exact ⟨⟨fun hs => (hstatus hs).elim, fun _ => hmade⟩, fun _ => hmade, h.closing,
        fun hs => by cases hs⟩
    · cases hw
      exact ⟨⟨h.fresh.status, fun _ => hmade⟩, fun _ => hmade, h.closing, h.status⟩
  | advanceEq => exact statusInv_advanceEq h (Option.ite_none_right_eq_some.mp hstep).2
  | shutdown t =>
    obtain ⟨-, hw⟩ := Option.ite_none_right_eq_some.mp hstep
    cases hw
    exact statusInv_beginShutdown h t
  | advance t =>
    obtain ⟨k, hk, rfl⟩ := Option.map_eq_some_iff.mp hstep
    exact statusInv_advance h hk
  | shutdownService =>
    cases hstep
    exact ⟨h.fresh, h.made, h.closing, h.status⟩
  | pendingReap =>
    obtain ⟨-, hw⟩ := Option.ite_none_right_eq_some.mp hstep
    cases hw
    have hpolled : { w with reapCons := false }.StatusInv := ⟨h.fresh, h.made, h.closing, h.status⟩
    exact statusInv_beginShutdown hpolled .eq
  | recv =>
    obtain ⟨-, hw⟩ := Option.ite_none_right_eq_some.mp hstep
    cases hw
    exact ⟨h.fresh, h.made, h.closing, h.status⟩
  | advanceCq =>
    obtain ⟨next, -, rfl⟩ := Option.map_eq_some_iff.mp hstep
    exact ⟨h.fresh, h.made, h.closing, h.status⟩

theorem le_advance (w : EqServiceWorld) (t : Closer) (k : ShutdownStep) :
    w.status ≤ (w.advance t k).status := by
  cases k with
  | down => exact ConStatus.le_down _
  | check => exact le_refl _
  | reap => exact le_refl _
  | deleteEvent => exact le_refl _
  | closeConnection => exact le_refl _

/-- The event thread decreases the status only of a connection that has been shut down. -/
theorem le_advanceEq_iff (h : w.StatusInv) (hstep : w.advanceEq = some w') :
    w.status ≤ w'.status ↔ (w.eqThread = .connected → w.status ≠ .down) := by
  obtain ⟨-, -, hnative⟩ := advanceEq_native hstep
  rcases hnative with ⟨hn, hne⟩ | ⟨hat, hn⟩ | ⟨hat, hn⟩
  all_goals rw [show w'.status = _ from congrArg NativeConnection.status hn]
  · exact ⟨fun _ hat => absurd hat hne, fun _ => le_refl _⟩
  · constructor
    · exact fun hle _ => (ConStatus.le_connected_iff.mp hle).2
    · exact fun hdown => ConStatus.le_connected_iff.mpr ⟨h.status, hdown hat⟩
  · exact ⟨fun _ hconn => absurd (hat.symm.trans hconn) (by simp), fun _ => le_refl _⟩

/-- **The only step that decreases the status.**  A step of the Java service decreases the
status exactly when it writes `CONNECTED` to a connection that has been shut down. -/
theorem climbs_iff {op : EqServiceOp} (h : w.StatusInv) (hstep : step w op = some w') :
    Climbs step (fun w => w.status) w op ↔ w.NotShutDown op := by
  have hthis : Climbs step (fun w => w.status) w op ↔ w.status ≤ w'.status := by
    constructor
    · exact fun hclimbs => hclimbs w' hstep
    · intro hle u hu
      exact Option.some.inj (hstep.symm.trans hu) ▸ hle
  rw [hthis]
  cases op with
  | make =>
    obtain ⟨n, hn, rfl⟩ := Option.map_eq_some_iff.mp hstep
    exact iff_of_true (NativeConnection.le_advanceMake h.fresh hn) trivial
  | setHandler k f =>
    cases hstep
    exact iff_of_true (le_refl _) trivial
  | connectedEvent =>
    obtain ⟨-, hw⟩ := Option.ite_none_right_eq_some.mp hstep
    cases hw
    exact iff_of_true (le_refl _) trivial
  | shutdownEvent =>
    obtain ⟨-, hw⟩ := Option.ite_none_right_eq_some.mp hstep
    split at hw
    · cases hw
      exact iff_of_true (ConStatus.le_down _) trivial
    · cases hw
      exact iff_of_true (le_refl _) trivial
  | advanceEq => exact le_advanceEq_iff h (Option.ite_none_right_eq_some.mp hstep).2
  | shutdown t =>
    obtain ⟨-, hw⟩ := Option.ite_none_right_eq_some.mp hstep
    cases hw
    exact iff_of_true (le_refl _) trivial
  | advance t =>
    obtain ⟨k, -, rfl⟩ := Option.map_eq_some_iff.mp hstep
    exact iff_of_true (le_advance w t k) trivial
  | shutdownService =>
    cases hstep
    exact iff_of_true (le_refl _) trivial
  | pendingReap =>
    obtain ⟨-, hw⟩ := Option.ite_none_right_eq_some.mp hstep
    cases hw
    exact iff_of_true (le_refl _) trivial
  | recv =>
    obtain ⟨-, hw⟩ := Option.ite_none_right_eq_some.mp hstep
    cases hw
    exact iff_of_true (le_refl _) trivial
  | advanceCq =>
    obtain ⟨next, -, rfl⟩ := Option.map_eq_some_iff.mp hstep
    exact iff_of_true (le_refl _) trivial

/-! ## The set-up -/

/-- How far the set-up has got. -/
def Place (w : EqServiceWorld) : Prop :=
  match w.eqThread with
  | .establishConnection => w.announced = false
  | .pushSendBuffer todo => w.announced = false ∧
      ∃ c, w.conMap = some c ∧ c.pushed ++ todo = w.send_chunks
  | .setCallbacks todo => w.announced = false ∧ ∃ c, w.conMap = some c ∧
      c.pushed = w.send_chunks ∧ ∀ k ∈ EqConnection.setters, k ∈ todo ∨ (c.callbacks k).isSome
  | .idle | .connectedCallback | .connected | .reap | .closeConnection =>
      w.connectedRead = true → w.announced = true

/-- Before the application has learnt of the connection nobody shuts it down, and its status
is below `CONNECTED`; from then on the `Connection` that is found is set up. -/
structure SetUpInv (w : EqServiceWorld) : Prop where
  mapped : w.make = .register ∨ w.make = .made → w.connectedRead = false → w.inMap = true
  unread : w.connectedRead = false →
    w.conMap = none ∧ w.eqThread = .idle ∧ w.announced = false ∧ w.reapCons = false
  quiet : w.announced = false → w.status < .connected ∧ ∀ t, w.closing t = none
  ready : w.announced = true → ∀ c, w.conMap = some c → c.SetUp w.send_chunks
  place : w.Place
  deliver : w.cqThread = .deliver → w.announced = true

theorem setUpInv_init (accepting : Bool) (send_chunks : List ℕ)
    (handlers : CallbackKind → Option Callback) :
    (init accepting send_chunks handlers).SetUpInv where
  mapped h := absurd h (by simp [init, NativeConnection.init])
  unread _ := ⟨rfl, rfl, rfl, rfl⟩
  quiet _ := ⟨show ConStatus.idle < .connected by decide, fun _ => rfl⟩
  ready h := absurd h (by simp [init])
  place h := absurd h (by simp [init])
  deliver h := absurd h (by simp [init])

theorem SetUpInv.connectedRead (h : w.SetUpInv) (ha : w.announced = true) :
    w.connectedRead = true := by
  by_contra hread
  have hunread := (h.unread (Bool.eq_false_of_not_eq_true hread)).2.2.1
  exact absurd (ha.symm.trans hunread) (by simp)

/-- While the connection is being set up the application has not learnt of it. -/
theorem SetUpInv.setsUp (h : w.SetUpInv) (ha : w.announced = true) :
    w.eqThread.setsUp = false := by
  have hplace := h.place
  unfold Place at hplace
  split at hplace
  · exact absurd (ha.symm.trans hplace) (by simp)
  · exact absurd (ha.symm.trans hplace.1) (by simp)
  · exact absurd (ha.symm.trans hplace.1) (by simp)
  all_goals rename_i hat; rw [hat]; rfl

theorem SetUpInv.announced_of_closing (h : w.SetUpInv) {t : Closer} {k : ShutdownStep}
    (hk : w.closing t = some k) : w.announced = true := by
  by_contra ha
  have hnone := (h.quiet (Bool.eq_false_of_not_eq_true ha)).2 t
  exact absurd (hk.symm.trans hnone) (by simp)

theorem SetUpInv.announced_of_connected (h : w.SetUpInv) (hle : .connected ≤ w.status) :
    w.announced = true := by
  by_contra ha
  exact absurd (h.quiet (Bool.eq_false_of_not_eq_true ha)).1 hle.not_gt

/-- Once the application has learnt of the connection, only what is found in the map counts. -/
theorem setUpInv_announced (hread : w.connectedRead = true) (ha : w.announced = true)
    (hat : w.eqThread.setsUp = false)
    (hready : ∀ c, w.conMap = some c → c.SetUp w.send_chunks) : w.SetUpInv := by
  refine ⟨fun _ hr => absurd (hread.symm.trans hr) (by simp),
    fun hr => absurd (hread.symm.trans hr) (by simp),
    fun hn => absurd (ha.symm.trans hn) (by simp), fun _ => hready, ?_, fun _ => ha⟩
  unfold Place
  split
  all_goals first
    | exact fun _ => ha
    | (rename_i heq; rw [heq] at hat; exact absurd hat (by simp [EventStep.setsUp]))

/-- While the connection is being set up only the place matters. -/
theorem setUpInv_settingUp (h : w.SetUpInv) (ha : w.announced = false)
    (hnative : w'.status = w.status) (hclosing : w'.closing = w.closing)
    (hcq : w'.cqThread = w.cqThread) (hread : w'.connectedRead = true)
    (ha' : w'.announced = false) (hplace : w'.Place) : w'.SetUpInv := by
  obtain ⟨hstatus, hnone⟩ := h.quiet ha
  refine ⟨fun _ hr => absurd (hread.symm.trans hr) (by simp),
    fun hr => absurd (hread.symm.trans hr) (by simp),
    fun _ => ⟨hnative ▸ hstatus, fun t => (congrFun hclosing t).trans (hnone t)⟩,
    fun hann => absurd (ha'.symm.trans hann) (by simp), hplace, fun hd => ?_⟩
  exact absurd (ha.symm.trans (h.deliver (hcq.symm.trans hd))) (by simp)

theorem setUpInv_beginShutdown (h : w.SetUpInv) (ha : w.announced = true) (t : Closer) :
    (w.beginShutdown t).SetUpInv :=
  setUpInv_announced (w := w.beginShutdown t) (h.connectedRead ha) ha (h.setsUp ha) (h.ready ha)

theorem setUpInv_advance (h : w.SetUpInv) {t : Closer} {k : ShutdownStep}
    (hk : w.closing t = some k) : (w.advance t k).SetUpInv := by
  have ha := h.announced_of_closing hk
  have hread := h.connectedRead ha
  cases k with
  | check => exact setUpInv_announced (w := w.advance t .check) hread ha (h.setsUp ha) (h.ready ha)
  | down => exact setUpInv_announced (w := w.advance t .down) hread ha (h.setsUp ha) (h.ready ha)
  | reap => exact setUpInv_announced (w := w.advance t .reap) hread ha (h.setsUp ha) (h.ready ha)
  | deleteEvent =>
    exact setUpInv_announced (w := w.advance t .deleteEvent) hread ha (h.setsUp ha) (h.ready ha)
  | closeConnection =>
    exact setUpInv_announced (w := w.advance t .closeConnection) hread ha (h.setsUp ha)
      fun _ hc => absurd hc (by simp [advance, setClosing])

theorem setUpInv_advanceEq (h : w.SetUpInv) (hstep : w.advanceEq = some w') :
    w'.SetUpInv := by
  have hread : w.eqThread ≠ .idle → w.connectedRead = true := by
    intro hbusy
    by_contra hr
    exact hbusy (h.unread (Bool.eq_false_of_not_eq_true hr)).2.1
  have hplace := h.place
  unfold advanceEq at hstep
  unfold Place at hplace
  cases hat : w.eqThread with
  | idle => rw [hat] at hstep; cases hstep
  | establishConnection =>
    rw [hat] at hstep hplace
    cases hstep
    have hr := hread (by rw [hat]; simp)
    exact setUpInv_settingUp h hplace rfl rfl rfl hr hplace ⟨hplace, .new, rfl, List.nil_append _⟩
  | pushSendBuffer todo =>
    rw [hat] at hstep hplace
    obtain ⟨ha, c, hc, hpushed⟩ := hplace
    have hr := hread (by rw [hat]; simp)
    cases todo with
    | nil =>
      rw [hc] at hstep
      cases hstep
      refine setUpInv_settingUp h ha rfl rfl rfl hr ha ⟨ha, c, rfl, ?_, fun k hk => Or.inl hk⟩
      exact (List.append_nil _).symm.trans hpushed
    | cons b todo =>
      rw [hc] at hstep
      cases hstep
      refine setUpInv_settingUp h ha rfl rfl rfl hr ha ⟨ha, c.pushSendBuffer b, rfl, ?_⟩
      exact (List.append_assoc c.pushed [b] todo).trans hpushed
  | setCallbacks todo =>
    rw [hat] at hstep hplace
    obtain ⟨ha, c, hc, hpushed, hset⟩ := hplace
    have hr := hread (by rw [hat]; simp)
    cases todo with
    | nil =>
      cases hstep
      refine setUpInv_announced hr rfl rfl fun d hd => ?_
      cases hc.symm.trans hd
      exact ⟨hpushed, fun k hk => (hset k hk).resolve_left List.not_mem_nil⟩
    | cons k todo =>
      rw [hc] at hstep
      cases hstep
      refine setUpInv_settingUp h ha rfl rfl rfl hr ha
        ⟨ha, c.setCallback k (w.handlers k), rfl, hpushed, fun l hl => ?_⟩
      rcases hset l hl with hmem | hsome
      · rcases List.mem_cons.mp hmem with rfl | hmem
        · exact Or.inr (EqConnection.isSome_setCallback _ (Or.inl rfl))
        · exact Or.inl hmem
      · exact Or.inr (EqConnection.isSome_setCallback _ (Or.inr hsome))
  | connectedCallback =>
    rw [hat] at hstep hplace
    cases hstep
    have hr := hread (by rw [hat]; simp)
    exact setUpInv_announced hr (hplace hr) rfl (h.ready (hplace hr))
  | connected =>
    rw [hat] at hstep hplace
    cases hstep
    have hr := hread (by rw [hat]; simp)
    exact setUpInv_announced hr (hplace hr) rfl (h.ready (hplace hr))
  | reap =>
    rw [hat] at hstep hplace
    cases hstep
    have hr := hread (by rw [hat]; simp)
    exact setUpInv_announced hr (hplace hr) rfl (h.ready (hplace hr))
  | closeConnection =>
    rw [hat] at hstep hplace
    cases hstep
    have hr := hread (by rw [hat]; simp)
    exact setUpInv_announced hr (hplace hr) rfl fun _ hc => absurd hc (by simp)

/-- On an idle event thread an event that comes after CONNECTED finds the connection
announced. -/
theorem SetUpInv.announced_of_idle (h : w.SetUpInv) (hidle : w.eqThread = .idle)
    (hr : w.connectedRead = true) : w.announced = true := by
  have hplace := h.place
  unfold Place at hplace
  rw [hidle] at hplace
  exact hplace hr

theorem setUpInv_step {op : EqServiceOp} (hfresh : w.Fresh) (h : w.SetUpInv)
    (horder : w.InOrder op) (hstep : step w op = some w') : w'.SetUpInv := by
  cases op with
  | make =>
    obtain ⟨n, hn, rfl⟩ := Option.map_eq_some_iff.mp hstep
    refine ⟨fun hmake hr => ?_, h.unread, fun ha => ⟨?_, (h.quiet ha).2⟩, h.ready, h.place,
      h.deliver⟩
    · exact NativeConnection.inMap_advanceMake (fun hm => h.mapped hm hr) hn hmake
    · rcases NativeConnection.status_advanceMake hn with heq | hlt
      · exact heq.trans_lt (h.quiet ha).1
      · exact hlt
  | setHandler k f =>
    cases hstep
    exact ⟨h.mapped, h.unread, h.quiet, h.ready, h.place, h.deliver⟩
  | connectedEvent =>
    obtain ⟨⟨-, -, hreg⟩, hw⟩ := Option.ite_none_right_eq_some.mp hstep
    have hin := h.mapped (Or.inr (hfresh.registered hreg)) horder
    rw [hin] at hw
    cases hw
    have ha := (h.unread horder).2.2.1
    exact setUpInv_settingUp h ha rfl rfl rfl rfl ha ha
  | shutdownEvent =>
    obtain ⟨⟨hidle, -, -⟩, hw⟩ := Option.ite_none_right_eq_some.mp hstep
    have ha := h.announced_of_idle hidle horder
    split at hw
    · cases hw
      exact setUpInv_announced horder ha rfl (h.ready ha)
    · cases hw
      exact setUpInv_announced horder ha rfl (h.ready ha)
  | advanceEq => exact setUpInv_advanceEq h (Option.ite_none_right_eq_some.mp hstep).2
  | shutdown t =>
    obtain ⟨-, hw⟩ := Option.ite_none_right_eq_some.mp hstep
    cases hw
    exact setUpInv_beginShutdown h horder t
  | advance t =>
    obtain ⟨k, hk, rfl⟩ := Option.map_eq_some_iff.mp hstep
    exact setUpInv_advance h hk
  | shutdownService =>
    cases hstep
    refine ⟨h.mapped, fun hr => ?_, h.quiet, h.ready, h.place, h.deliver⟩
    obtain ⟨hmap, hidle, ha, hreap⟩ := h.unread hr
    refine ⟨hmap, hidle, ha, ?_⟩
    show (w.reapCons || w.conMap.isSome) = false
    rw [hmap, hreap]
    rfl
  | pendingReap =>
    obtain ⟨⟨hidle, -, hreap⟩, hw⟩ := Option.ite_none_right_eq_some.mp hstep
    cases hw
    have hr : w.connectedRead = true := by
      by_contra hr
      have hnot := (h.unread (Bool.eq_false_of_not_eq_true hr)).2.2.2
      exact absurd (hreap.symm.trans hnot) (by simp)
    have ha := h.announced_of_idle hidle hr
    have hpolled : { w with reapCons := false }.SetUpInv :=
      setUpInv_announced (w := { w with reapCons := false }) hr ha (h.setsUp ha) (h.ready ha)
    exact setUpInv_beginShutdown hpolled ha .eq
  | recv =>
    obtain ⟨-, hw⟩ := Option.ite_none_right_eq_some.mp hstep
    cases hw
    exact ⟨h.mapped, h.unread, h.quiet, h.ready, h.place, fun hd => absurd hd (by simp)⟩
  | advanceCq =>
    obtain ⟨next, hnext, rfl⟩ := Option.map_eq_some_iff.mp hstep
    refine ⟨h.mapped, h.unread, h.quiet, h.ready, h.place, fun hd => ?_⟩
    cases hd
    exact h.announced_of_connected (RecvStep.connected_of_next hnext)

/-- A receive is passed to the application through a `Connection` that is set up. -/
theorem after_setUp {op : EqServiceOp} (h : w.SetUpInv) : w.AfterSetUp op := by
  rintro ⟨-, hdeliver, c, hc, -⟩
  exact ⟨c, hc, h.ready (h.deliver hdeliver) c hc⟩

end EqServiceWorld

end Hpnl
