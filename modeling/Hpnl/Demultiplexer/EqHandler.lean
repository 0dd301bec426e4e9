import Hpnl.Connection.Status

/-!
# The events of a connection in the C++ service

`EqHandler::handle_event` writes the status on the event thread, `CqDemultiplexer` reads
it on a completion thread: data may arrive before the CONNECTED event is read.

* `EqHandlerWorld` — one connection, with its handler, the event thread and the completion
  thread.
* `climbs` — no step decreases the status.
* `after_setUp` — a receive is passed to the application only when the callbacks of the
  handler have been copied into the connection.
-/

namespace Hpnl

open Transition

/-- Where the event thread is in `EqHandler::handle_event`, for an event of the
connection. -/
inductive HandlerStep where
  | idle
  /-- CONNECTED; the callbacks of these kinds are still to be copied. -/
  | copy (todo : List CallbackKind)
  | connectedCallback
  /-- CLOSE. -/
  | shutdownCallback
  | removeHandler
  /-- `con->status = DOWN`. -/
  | down
  | reap
  deriving DecidableEq, Repr

/-- The event is CLOSE. -/
def HandlerStep.closes : HandlerStep → Bool
  | .shutdownCallback | .removeHandler | .down | .reap => true
  | .idle | .copy _ | .connectedCallback => false

/-- A connection; `handler` are the callbacks of its `EqHandler`, which are set before it is
registered, `callbacks` its own, and `connectedRead` records that its CONNECTED event has
been read.  One that `Service::shutdown(con)` deletes stays here as it was. -/
structure EqHandlerWorld extends NativeConnection where
  handler : CallbackKind → Option Callback
  callbacks : CallbackKind → Option Callback
  connectedRead : Bool
  eqThread : HandlerStep
  cqThread : RecvStep

/-- A step of a thread. -/
inductive EqHandlerOp where
  /-- The thread that makes the connection goes on. -/
  | make
  | connectedEvent
  | closeEvent
  /-- The event thread goes on with the event. -/
  | advanceEq
  /-- `proactor->remove_handler` in `Service::shutdown(con)`, on any thread. -/
  | removeHandler
  /-- `stack->reap` in `Service::shutdown(con)`. -/
  | reap
  /-- The completion thread reads a receive of the connection. -/
  | recv
  /-- The completion thread goes on with it. -/
  | advanceCq
  deriving DecidableEq, Repr

namespace EqHandlerWorld

/-- The callbacks that are copied, in this order. -/
def copied : List CallbackKind := [.recv, .shutdown, .send, .read, .write]

/-- A new connection. -/
def init (accepting : Bool) (handler : CallbackKind → Option Callback) : EqHandlerWorld :=
  { NativeConnection.init accepting with
    handler := handler
    callbacks := fun _ => none
    connectedRead := false
    eqThread := .idle
    cqThread := .idle }

/-- `if (recvCallback) con->set_recv_callback(recvCallback)`, and so on. -/
def copy (w : EqHandlerWorld) (k : CallbackKind) : EqHandlerWorld :=
  match w.handler k with
  | some f => { w with callbacks := Function.update w.callbacks k (some f) }
  | none => w

/-- The next step of the event thread. -/
def advanceEq (w : EqHandlerWorld) : Option EqHandlerWorld :=
  match w.eqThread with
  | .idle => none
  | .copy (k :: todo) => some { w.copy k with eqThread := .copy todo }
  | .copy [] => some { w with status := .connected, eqThread := .connectedCallback }
  | .connectedCallback => some { w with eqThread := .idle }
  | .shutdownCallback => some { w with eqThread := .removeHandler }
  | .removeHandler => some { w with registered := false, eqThread := .down }
  | .down => some { w with status := .down, eqThread := .reap }
  | .reap => some { w with inMap := false, eqThread := .idle }

/-- One step.  An event of a connection that is not in the map fails an assertion. -/
def step (w : EqHandlerWorld) : EqHandlerOp → Option EqHandlerWorld
  | .make => w.advanceMake.map fun n => { w with toNativeConnection := n }
  | .connectedEvent =>
      if w.eqThread = .idle ∧ w.registered ∧ w.inMap then
        some { w with connectedRead := true, eqThread := .copy copied }
      else none
  | .closeEvent =>
      if w.eqThread = .idle ∧ w.registered ∧ w.inMap then
        some { w with status := .shutdownReq, eqThread := .shutdownCallback }
      else none
  | .advanceEq => w.advanceEq
  | .removeHandler => some { w with registered := false }
  | .reap => some { w with inMap := false }
  | .recv => if w.cqThread = .idle then some { w with cqThread := .check } else none
  | .advanceCq => (w.cqThread.next w.status).map fun next => { w with cqThread := next }

/-- The connection has this callback of the handler. -/
def Copied (w : EqHandlerWorld) (k : CallbackKind) : Prop :=
  ∀ f, w.handler k = some f → w.callbacks k = some f

/-- The callbacks of the handler have been copied into the connection. -/
def SetUp (w : EqHandlerWorld) : Prop := ∀ k ∈ copied, w.Copied k

/-- The step calls the receive callback of the connection. -/
def PassesRecv (w : EqHandlerWorld) (op : EqHandlerOp) : Prop :=
  op = .advanceCq ∧ w.cqThread = .deliver ∧ w.callbacks .recv ≠ none

/-- What is passed to the application is passed after the set-up. -/
def AfterSetUp (w : EqHandlerWorld) (op : EqHandlerOp) : Prop := w.PassesRecv op → w.SetUp

/-- The fabric reports CONNECTED before SHUTDOWN. -/
def InOrder (w : EqHandlerWorld) (op : EqHandlerOp) : Prop :=
  op = .closeEvent → w.connectedRead = true

instance (w : EqHandlerWorld) : DecidablePred w.InOrder := fun op =>
  inferInstanceAs (Decidable (op = .closeEvent → w.connectedRead = true))

variable {w w' : EqHandlerWorld}

/-! ## The status -/

/-- Only a connection that is being closed, or has been taken out of the map, has a status
above `CONNECTED`. -/
structure StatusInv (w : EqHandlerWorld) : Prop where
  fresh : w.Fresh
  made : w.eqThread ≠ .idle → w.make = .made
  low : w.status ≤ .connected ∨ w.eqThread.closes = true ∨
    w.eqThread = .idle ∧ w.make = .made ∧ w.inMap = false

theorem statusInv_init (accepting : Bool) (handler : CallbackKind → Option Callback) :
    (init accepting handler).StatusInv where
  fresh := NativeConnection.fresh_init accepting
  made h := absurd rfl h
  low := Or.inl (ConStatus.idle_le _)

/-- A connection that is in the map and not being closed. -/
theorem StatusInv.low_idle (h : w.StatusInv) (hidle : w.eqThread = .idle) (hin : w.inMap = true) :
    w.status ≤ .connected := by
  rcases h.low with hlow | hcloses | ⟨-, -, hout⟩
  · exact hlow
  · rw [hidle] at hcloses
    exact absurd hcloses (by decide)
  · exact absurd (hin.symm.trans hout) (by simp)

/-- A connection whose CONNECTED event is handled. -/
theorem StatusInv.low_connecting (h : w.StatusInv) (hopen : w.eqThread.closes = false)
    (hbusy : w.eqThread ≠ .idle) : w.status ≤ .connected := by
  rcases h.low with hlow | hcloses | ⟨hidle, -, -⟩
  · exact hlow
  · exact absurd (hopen.symm.trans hcloses) (by simp)
  · exact absurd hidle hbusy

@[simp] theorem copy_toNativeConnection (w : EqHandlerWorld) (k : CallbackKind) :
    (w.copy k).toNativeConnection = w.toNativeConnection := by
  unfold copy
  split <;> rfl

/-- What the event thread does next. -/
theorem advanceEq_cases (h : w.advanceEq = some w') :
    (∃ k todo, w.eqThread = .copy (k :: todo) ∧ w' = { w.copy k with eqThread := .copy todo }) ∨
    (w.eqThread = .copy [] ∧
      w' = { w with status := .connected, eqThread := .connectedCallback }) ∨
    (w.eqThread = .connectedCallback ∧ w' = { w with eqThread := .idle }) ∨
    (w.eqThread = .shutdownCallback ∧ w' = { w with eqThread := .removeHandler }) ∨
    (w.eqThread = .removeHandler ∧ w' = { w with registered := false, eqThread := .down }) ∨
    (w.eqThread = .down ∧ w' = { w with status := .down, eqThread := .reap }) ∨
    (w.eqThread = .reap ∧ w' = { w with inMap := false, eqThread := .idle }) := by
  unfold advanceEq at h
  split at h <;> cases h <;> simp_all

theorem statusInv_advanceEq (h : w.StatusInv) (hstep : w.advanceEq = some w') :
    w'.StatusInv := by
  have hbusy : w.eqThread ≠ .idle := by
    intro hidle
    unfold advanceEq at hstep
    rw [hidle] at hstep
    cases hstep
  have hmade := h.made hbusy
  have hstatus : w.make = .status → False := fun hs => absurd (hmade.symm.trans hs) (by simp)
  rcases advanceEq_cases hstep with ⟨k, todo, hat, rfl⟩ | ⟨-, rfl⟩ | ⟨hat, rfl⟩ | ⟨-, rfl⟩ |
    ⟨-, rfl⟩ | ⟨-, rfl⟩ | ⟨-, rfl⟩
  · have hlow := h.low_connecting (by rw [hat]; rfl) hbusy
    refine ⟨?_, fun _ => ?_, Or.inl ?_⟩
    · show (w.copy k).toNativeConnection.Fresh
      rw [copy_toNativeConnection]
      exact h.fresh
    · exact (congrArg NativeConnection.make (copy_toNativeConnection w k)).trans hmade
    · exact (congrArg NativeConnection.status (copy_toNativeConnection w k)).trans_le hlow
  · exact ⟨⟨fun hs => (hstatus hs).elim, fun _ => hmade⟩, fun _ => hmade, Or.inl (le_refl _)⟩
  · exact ⟨h.fresh, fun _ => hmade, Or.inl (h.low_connecting (by rw [hat]; rfl) hbusy)⟩
  · exact ⟨h.fresh, fun _ => hmade, Or.inr (Or.inl rfl)⟩
  · exact ⟨⟨h.fresh.status, fun hreg => absurd hreg (by simp)⟩, fun _ => hmade,
      Or.inr (Or.inl rfl)⟩
  · exact ⟨⟨fun hs => (hstatus hs).elim, fun _ => hmade⟩, fun _ => hmade, Or.inr (Or.inl rfl)⟩
  · exact ⟨⟨fun hs => (hstatus hs).elim, h.fresh.registered⟩, fun _ => hmade,
      Or.inr (Or.inr ⟨rfl, hmade, rfl⟩)⟩

theorem statusInv_make (h : w.StatusInv) {n : NativeConnection} (hn : w.advanceMake = some n) :
    { w with toNativeConnection := n }.StatusInv := by
  have hunmade := NativeConnection.unmade_of_advanceMake hn
  have hlow : w.status ≤ .connected := by
    rcases h.low with hlow | hcloses | ⟨-, hmade, -⟩
    · exact hlow
    · exact absurd (h.made fun hidle => by rw [hidle] at hcloses; cases hcloses) hunmade
    · exact absurd hmade hunmade
  refine ⟨NativeConnection.fresh_advanceMake h.fresh hn, fun hbusy => ?_, Or.inl ?_⟩
  · exact absurd (h.made hbusy) hunmade
  · exact NativeConnection.le_connected_advanceMake hlow hn

theorem statusInv_step {op : EqHandlerOp} (h : w.StatusInv) (hstep : step w op = some w') :
    w'.StatusInv := by
  cases op with
  | make =>
    obtain ⟨n, hn, rfl⟩ := Option.map_eq_some_iff.mp hstep
    exact statusInv_make h hn
  | connectedEvent =>
    obtain ⟨⟨hidle, hreg, hin⟩, hw⟩ := Option.ite_none_right_eq_some.mp hstep
    cases hw
    exact ⟨h.fresh, fun _ => h.fresh.registered hreg, Or.inl (h.low_idle hidle hin)⟩
  | closeEvent =>
    obtain ⟨⟨-, hreg, -⟩, hw⟩ := Option.ite_none_right_eq_some.mp hstep
    cases hw
    have hmade := h.fresh.registered hreg
    refine ⟨⟨fun hs => ?_, fun _ => hmade⟩, fun _ => hmade, Or.inr (Or.inl rfl)⟩
    exact absurd (hmade.symm.trans hs) (by simp)
  | advanceEq => exact statusInv_advanceEq h hstep
  | removeHandler =>
    cases hstep
    exact ⟨⟨h.fresh.status, fun hreg => absurd hreg (by simp)⟩, h.made, h.low⟩
  | reap =>
    cases hstep
    refine ⟨⟨fun hs => ⟨(h.fresh.status hs).1, rfl⟩, h.fresh.registered⟩, h.made, ?_⟩
    exact h.low.imp_right fun h' => h'.imp_right fun ⟨hidle, hmade, _⟩ => ⟨hidle, hmade, rfl⟩
  | recv =>
    obtain ⟨-, hw⟩ := Option.ite_none_right_eq_some.mp hstep
    cases hw
    exact ⟨h.fresh, h.made, h.low⟩
  | advanceCq =>
    obtain ⟨next, -, rfl⟩ := Option.map_eq_some_iff.mp hstep
    exact ⟨h.fresh, h.made, h.low⟩

/-- No step of the C++ service decreases the status. -/
theorem climbs {op : EqHandlerOp} (h : w.StatusInv) :
    Climbs step (fun w => w.status) w op := by
  intro w' hstep
  show w.status ≤ w'.status
  cases op with
  | make =>
    obtain ⟨n, hn, rfl⟩ := Option.map_eq_some_iff.mp hstep
    exact NativeConnection.le_advanceMake h.fresh hn
  | connectedEvent =>
    obtain ⟨-, hw⟩ := Option.ite_none_right_eq_some.mp hstep
    cases hw
    exact le_refl _
  | closeEvent =>
    obtain ⟨⟨hidle, -, hin⟩, hw⟩ := Option.ite_none_right_eq_some.mp hstep
    cases hw
    exact (h.low_idle hidle hin).trans (show ConStatus.connected ≤ .shutdownReq by decide)
  | advanceEq =>
    rcases advanceEq_cases hstep with ⟨k, todo, -, rfl⟩ | ⟨hat, rfl⟩ | ⟨-, rfl⟩ | ⟨-, rfl⟩ |
      ⟨-, rfl⟩ | ⟨-, rfl⟩ | ⟨-, rfl⟩
    · exact (congrArg NativeConnection.status (copy_toNativeConnection w k)).ge
    · exact h.low_connecting (by rw [hat]; rfl) (by rw [hat]; simp)
    · exact le_refl _
    · exact le_refl _
    · exact le_refl _
    · exact ConStatus.le_down _
    · exact le_refl _
  | removeHandler => cases hstep; exact le_refl _
  | reap => cases hstep; exact le_refl _
  | recv =>
    obtain ⟨-, hw⟩ := Option.ite_none_right_eq_some.mp hstep
    cases hw
    exact le_refl _
  | advanceCq =>
    obtain ⟨next, -, rfl⟩ := Option.map_eq_some_iff.mp hstep
    exact le_refl _

/-! ## The set-up -/

/-- A connection whose status is `CONNECTED` or above, and so one whose receives are
handled or that is closed, is set up. -/
structure SetUpInv (w : EqHandlerWorld) : Prop where
  connected : .connected ≤ w.status → w.SetUp
  copy : ∀ todo, w.eqThread = .copy todo → ∀ k ∈ copied, k ∈ todo ∨ w.Copied k
  read : w.connectedRead = true → w.SetUp ∨ ∃ todo, w.eqThread = .copy todo
  closes : w.eqThread.closes = true → w.SetUp
  deliver : w.cqThread = .deliver → w.SetUp

theorem setUpInv_init (accepting : Bool) (handler : CallbackKind → Option Callback) :
    (init accepting handler).SetUpInv where
  connected h := absurd h (show ¬ ConStatus.connected ≤ .idle by decide)
  copy _ h := absurd h (by simp [init])
  read h := absurd h (by simp [init])
  closes h := absurd h (by simp [init, HandlerStep.closes])
  deliver h := absurd h (by simp [init])

/-- Copying one callback keeps those that have been copied. -/
theorem copied_copy {k l : CallbackKind} (h : l = k ∨ w.Copied l) : (w.copy k).Copied l := by
  unfold copy
  split
  · rename_i f hf
    intro g hg
    show Function.update w.callbacks k (some f) l = some g
    by_cases hl : l = k
    · subst hl
      rw [Function.update_self]
      exact hf.symm.trans hg
    · rw [Function.update_of_ne hl]
      exact h.resolve_left hl g hg
  · rename_i hnone
    rcases h with rfl | h
    · exact fun g hg => absurd (hnone.symm.trans hg) (by simp)
    · exact h

theorem setUp_copy (k : CallbackKind) (h : w.SetUp) : (w.copy k).SetUp :=
  fun l hl => copied_copy (Or.inr (h l hl))

theorem copy_cqThread (w : EqHandlerWorld) (k : CallbackKind) :
    (w.copy k).cqThread = w.cqThread := by
  unfold copy
  split <;> rfl

/-- The event thread has gone on with the callbacks of a connection as they were: it is not
copying, or has nothing left to copy. -/
theorem setUpInv_setUp (h : w.SetUp) (hcallbacks : ∀ k ∈ copied, w.Copied k → w'.Copied k)
    (hcopy : ∀ todo, w'.eqThread ≠ .copy todo) : w'.SetUpInv := by
  have hsetUp : w'.SetUp := fun k hk => hcallbacks k hk (h k hk)
  exact ⟨fun _ => hsetUp, fun todo hat => absurd hat (hcopy todo), fun _ => Or.inl hsetUp,
    fun _ => hsetUp, fun _ => hsetUp⟩

theorem setUpInv_advanceEq (h : w.SetUpInv) (hstep : w.advanceEq = some w') : w'.SetUpInv := by
  rcases advanceEq_cases hstep with ⟨k, todo, hat, rfl⟩ | ⟨hat, rfl⟩ | ⟨hat, rfl⟩ | ⟨hat, rfl⟩ |
    ⟨hat, rfl⟩ | ⟨hat, rfl⟩ | ⟨hat, rfl⟩
  · have hstatus := congrArg NativeConnection.status (copy_toNativeConnection w k)
    refine ⟨fun hle => ?_, fun todo' htodo l hl => ?_, fun _ => Or.inr ⟨todo, rfl⟩,
      fun hcloses => absurd hcloses (by simp [HandlerStep.closes]), fun hd => ?_⟩
    · exact setUp_copy k (h.connected (hle.trans_eq hstatus))
    · cases htodo
      rcases h.copy _ hat l hl with hmem | hcop
      · rcases List.mem_cons.mp hmem with rfl | hmem
        · exact Or.inr (copied_copy (Or.inl rfl))
        · exact Or.inl hmem
      · exact Or.inr (copied_copy (Or.inr hcop))
    · exact setUp_copy k (h.deliver ((copy_cqThread w k).symm.trans hd))
  · have hsetUp : w.SetUp := fun l hl => (h.copy _ hat l hl).resolve_left List.not_mem_nil
    exact setUpInv_setUp hsetUp (fun _ _ hc => hc) fun _ hcopy => by cases hcopy
  · refine ⟨h.connected, fun _ hcopy => absurd hcopy (by simp), fun hr => Or.inl ?_,
      fun hcloses => absurd hcloses (by simp [HandlerStep.closes]), h.deliver⟩
    exact (h.read hr).resolve_right fun ⟨_, hcopy⟩ => by rw [hat] at hcopy; cases hcopy
  all_goals have hsetUp := h.closes (by rw [hat]; rfl)
  all_goals exact setUpInv_setUp hsetUp (fun _ _ hc => hc) fun _ hcopy => by cases hcopy

theorem setUpInv_step {op : EqHandlerOp} (h : w.SetUpInv) (horder : w.InOrder op)
    (hstep : step w op = some w') : w'.SetUpInv := by
  cases op with
  | make =>
    obtain ⟨n, hn, rfl⟩ := Option.map_eq_some_iff.mp hstep
    refine ⟨fun hle => ?_, h.copy, h.read, h.closes, h.deliver⟩
    rcases NativeConnection.status_advanceMake hn with heq | hlt
    · exact h.connected (hle.trans_eq heq)
    · exact absurd hlt hle.not_gt
  | connectedEvent =>
    obtain ⟨-, hw⟩ := Option.ite_none_right_eq_some.mp hstep
    cases hw
    refine ⟨h.connected, fun todo htodo k hk => ?_, fun _ => Or.inr ⟨copied, rfl⟩,
      fun hcloses => absurd hcloses (by simp [HandlerStep.closes]), h.deliver⟩
    cases htodo
    exact Or.inl hk
  | closeEvent =>
    obtain ⟨⟨hidle, -, -⟩, hw⟩ := Option.ite_none_right_eq_some.mp hstep
    cases hw
    have hsetUp : w.SetUp := (h.read (horder rfl)).resolve_right fun ⟨_, hcopy⟩ => by
      rw [hidle] at hcopy
      cases hcopy
    exact setUpInv_setUp hsetUp (fun _ _ hc => hc) fun _ hcopy => by cases hcopy
  | advanceEq => exact setUpInv_advanceEq h hstep
  | removeHandler =>
    cases hstep
    exact ⟨h.connected, h.copy, h.read, h.closes, h.deliver⟩
  | reap =>
    cases hstep
    exact ⟨h.connected, h.copy, h.read, h.closes, h.deliver⟩
  | recv =>
    obtain ⟨-, hw⟩ := Option.ite_none_right_eq_some.mp hstep
    cases hw
    exact ⟨h.connected, h.copy, h.read, h.closes, fun hd => absurd hd (by simp)⟩
  | advanceCq =>
    obtain ⟨next, hnext, rfl⟩ := Option.map_eq_some_iff.mp hstep
    refine ⟨h.connected, h.copy, h.read, h.closes, fun hd => ?_⟩
    cases hd
    exact h.connected (RecvStep.connected_of_next hnext)

theorem after_setUp {op : EqHandlerOp} (h : w.SetUpInv) : w.AfterSetUp op :=
  fun hpasses => h.deliver hpasses.2.1

end EqHandlerWorld

end Hpnl
