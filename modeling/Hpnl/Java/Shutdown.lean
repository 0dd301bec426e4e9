import Hpnl.Chunk
import Hpnl.Java.SendWorld

/-!
# Shutting a Java service down

A native connection is in the map of the `MsgStack` until `reap` takes it out, and is
freed by a handler that `delCon` leaves to its completion thread; `~MsgStack` deletes
what is still in its map when the event thread ends, unless an exception ends it.
`Service.shutdown` stops and joins the completion threads first, and has the event thread
close the connections after that.

* `ShutdownWorld` — the two maps, the threads that close a connection, each somewhere in
  `Connection.shutdown` or `closeConnection`, the handlers that wait, and the phases of
  `Service.shutdown`.
* `Timely` — no connection is taken out of the map of the stack when its completion thread
  has exited, which does not exit before all that were taken out have been queued and freed;
  and one close queues the free.
* `places` — where a connection is on its way from the map of the stack to its free: the
  invariant is that it is at one place.
* `freed_once` — **when `Service.shutdown` returns, every established connection has been
  freed exactly once, if** all steps were timely.
-/

namespace Hpnl

open Transition

/-- The threads of a service and of its application. -/
inductive Thread where
  | eq
  | cq (index : ℕ)
  | app (n : ℕ)
  deriving DecidableEq, Repr

/-- Where a thread that closes a connection is. -/
inductive CloseStep where
  /-- `shutdown1`, or the SHUTDOWN branch of `wait_event`. -/
  | reap
  /-- `conMap.get(eq)`. -/
  | get
  /-- `con.delCon()`, with what `get` has found. -/
  | delCon (con : ConnectionId)
  /-- `conMap.remove(eq)`. -/
  | remove
  /-- The rest of `Connection.shutdown`. -/
  | finish
  deriving DecidableEq, Repr

/-- A close of the connection with this event queue, by the `shutdown` of a `Connection`
or for a SHUTDOWN event. -/
structure Closing where
  eq : Addr
  caller : Option ConnectionId
  at_ : CloseStep
  deriving DecidableEq, Repr

/-- How far `Service.shutdown` has got. -/
inductive ShutdownPhase where
  | serving
  /-- `cqService.shutdown()` has been called. -/
  | stopping
  /-- `cqService.join()` has returned. -/
  | joined
  /-- `eqService.shutdown()` has been called. -/
  | reaping
  /-- `eqService.join()` has returned. -/
  | returned
  deriving DecidableEq, Repr

/-- The event thread. -/
inductive EventThread where
  | running
  /-- Its flag is false. -/
  | stopped
  /-- It has ended with `eqService.free()`. -/
  | ended
  /-- An exception has ended it. -/
  | died
  deriving DecidableEq, Repr

/-- A service.  `native` is the map of the `MsgStack`, `conMap` the one of the
`EqService`, both by event queue; `connected` and `locked` are the field and the monitor
of the `Connection`s, `queue` the frees that wait for each completion thread.  It is recorded
which connections have been taken out of the map of the stack with no free queued since, and
how often a native connection has been freed. -/
structure ShutdownWorld where
  worker_num : ℕ
  established : Finset ConnectionId
  eq : ConnectionId → Addr
  index : ConnectionId → ℕ
  native : StdMap Addr ConnectionId
  taken : Finset ConnectionId
  conMap : StdMap Addr ConnectionId
  connected : Finset ConnectionId
  locked : Finset ConnectionId
  closing : Thread → Option Closing
  queue : ℕ → List ConnectionId
  exited : Finset ℕ
  eventThread : EventThread
  reapCons : List ConnectionId
  phase : ShutdownPhase
  freed : ConnectionId → ℕ

/-- A step of a thread. -/
inductive ShutdownOp where
  /-- `establishConnection`, for a connection that has been connected or accepted. -/
  | establishConnection (c : ConnectionId) (eq : Addr) (index : ℕ)
  /-- A thread calls `Connection.shutdown()`. -/
  | shutdown (t : Thread) (c : ConnectionId)
  /-- The event thread reads a SHUTDOWN event from an event queue. -/
  | shutdownEvent (eq : Addr)
  /-- A thread goes on with its close. -/
  | advance (t : Thread)
  /-- `waitExternalEvent(index)` runs the free at the head of its queue. -/
  | waitExternalEvent (index : ℕ)
  /-- A completion thread ends, because it has been told to, on an error or with an
  exception. -/
  | exitCq (index : ℕ)
  /-- `cqService.shutdown()`. -/
  | shutdownCq
  /-- `cqService.join()`. -/
  | joinCq
  /-- `eqService.shutdown()`. -/
  | shutdownEq
  /-- `pendingReap` takes a connection and calls its `shutdown()`. -/
  | pendingReap
  /-- `wait_eq_event` returns -1. -/
  | eqFailed
  /-- The event thread ends with `eqService.free()`, which deletes the stack. -/
  | exitEq
  /-- An exception ends the event thread, out of a callback. -/
  | throwEq
  /-- `eqService.join()`. -/
  | joinEq
  deriving DecidableEq, Repr

namespace ShutdownWorld

/-- A service without connections. -/
def init (worker_num : ℕ) : ShutdownWorld :=
  { worker_num := worker_num
    established := ∅
    eq := fun _ => nullptr
    index := fun _ => 0
    native := ∅
    taken := ∅
    conMap := ∅
    connected := ∅
    locked := ∅
    closing := fun _ => none
    queue := fun _ => []
    exited := ∅
    eventThread := .running
    reapCons := []
    phase := .serving
    freed := fun _ => 0 }

def setClosing (w : ShutdownWorld) (t : Thread) (k : Option Closing) : ShutdownWorld :=
  { w with closing := Function.update w.closing t k }

/-- Whether a native connection is in the map of the stack. -/
def InNative (w : ShutdownWorld) (c : ConnectionId) : Prop := w.native.find? (w.eq c) = some c

instance (w : ShutdownWorld) (c : ConnectionId) : Decidable (w.InNative c) :=
  inferInstanceAs (Decidable (_ = _))

/-- The event thread is in its loop. -/
def EqAlive (w : ShutdownWorld) : Prop := w.eventThread = .running ∨ w.eventThread = .stopped

instance (w : ShutdownWorld) : Decidable w.EqAlive := inferInstanceAs (Decidable (_ ∨ _))

/-- A thread that has not ended and is in no close. -/
def Free (w : ShutdownWorld) (t : Thread) : Prop :=
  w.closing t = none ∧
    match t with
    | .eq => w.EqAlive
    | .cq index => index ∉ w.exited
    | .app _ => True

instance (w : ShutdownWorld) (t : Thread) : Decidable (w.Free t) := by
  unfold Free
  cases t <;> infer_instance

/-- `Connection.shutdown()` up to the call of `shutdown1`: a connection that is closed is
left alone, and a thread waits for the monitor. -/
def beginShutdown (w : ShutdownWorld) (t : Thread) (c : ConnectionId) : Option ShutdownWorld :=
  if c ∉ w.connected then some w
  else if c ∈ w.locked then none
  else some ({ w with locked := insert c w.locked }.setClosing t (some ⟨w.eq c, some c, .reap⟩))

/-- The next step of a close. -/
def advance (w : ShutdownWorld) (t : Thread) (k : Closing) : ShutdownWorld :=
  match k.at_ with
  | .reap =>
      { w with
        native := w.native.remove k.eq
        taken := w.taken ∪ (w.native.find? k.eq).toFinset }.setClosing t
          (some { k with at_ := .get })
  | .get =>
      match w.conMap.find? k.eq with
      | some c => w.setClosing t (some { k with at_ := .delCon c })
      | none => w.setClosing t (some { k with at_ := .finish })
  | .delCon c =>
      { w with
        taken := w.taken.erase c
        queue := Function.update w.queue (w.index c) (w.queue (w.index c) ++ [c]) }.setClosing t
          (some { k with at_ := .remove })
  | .remove =>
      { w with conMap := w.conMap.remove k.eq }.setClosing t (some { k with at_ := .finish })
  | .finish =>
      { w with
        connected := w.connected \ k.caller.toFinset
        locked := w.locked \ k.caller.toFinset }.setClosing t none

/-- `~MsgStack`: every connection in the map is deleted. -/
def deleteStack (w : ShutdownWorld) : ShutdownWorld :=
  { w with
    native := ∅
    freed := fun c => if w.InNative c then w.freed c + 1 else w.freed c }

/-- A step, as long as `Service.shutdown` has not returned.  The event queue of a new
connection is none of a connection that has not been freed; `shutdown1` needs the native
service; the monitor of a `Connection` is free again when an exception ends its
`shutdown()`. -/
def step (w : ShutdownWorld) (op : ShutdownOp) : Option ShutdownWorld :=
  if w.phase = .returned then none
  else match op with
    | .establishConnection c eq index =>
        if w.Free .eq ∧ c ∉ w.established ∧ index < w.worker_num ∧
            ∀ d ∈ w.established, w.freed d = 0 → w.eq d ≠ eq then
          some { w with
            established := insert c w.established
            eq := Function.update w.eq c eq
            index := Function.update w.index c index
            native := w.native.insertNew eq c
            conMap := w.conMap.assign eq c
            connected := insert c w.connected }
        else none
    | .shutdown t c =>
        if w.Free t ∧ c ∈ w.established then w.beginShutdown t c else none
    | .shutdownEvent eq =>
        if w.Free .eq then some (w.setClosing .eq (some ⟨eq, none, .reap⟩)) else none
    | .advance t =>
        match w.closing t with
        | some k =>
            if k.at_ = .reap ∧ w.eventThread = .ended then none else some (w.advance t k)
        | none => none
    | .waitExternalEvent index =>
        if w.Free (.cq index) then
          match w.queue index with
          | c :: rest => some { w with
              queue := Function.update w.queue index rest
              freed := Function.update w.freed c (w.freed c + 1) }
          | [] => none
        else none
    | .exitCq index =>
        if w.Free (.cq index) then some { w with exited := insert index w.exited } else none
    | .shutdownCq => if w.phase = .serving then some { w with phase := .stopping } else none
    | .joinCq =>
        if w.phase = .stopping ∧ ∀ i < w.worker_num, i ∈ w.exited then
          some { w with phase := .joined }
        else none
    | .shutdownEq =>
        if w.phase = .joined then
          some { w with
            phase := .reaping
            reapCons := w.conMap.entries.map Prod.snd
            eventThread := if w.eventThread = .running then .stopped else w.eventThread }
        else none
    | .pendingReap =>
        match w.reapCons with
        | c :: rest =>
            if w.Free .eq then { w with reapCons := rest }.beginShutdown .eq c else none
        | [] => none
    | .eqFailed =>
        if w.Free .eq ∧ w.eventThread = .running then some { w with eventThread := .stopped }
        else none
    | .exitEq =>
        if w.Free .eq ∧ w.eventThread = .stopped ∧ w.reapCons = [] then
          some { w.deleteStack with eventThread := .ended }
        else none
    | .throwEq =>
        if w.Free .eq then some { w with eventThread := .died }
        else match w.closing .eq with
          | some ⟨_, some c, .finish⟩ => some ({ w with
              locked := w.locked.erase c
              eventThread := .died }.setClosing .eq none)
          | _ => none
    | .joinEq =>
        if w.phase = .reaping ∧ ¬ w.EqAlive then some { w with phase := .returned } else none

/-- A step of a close of this event queue.  The completion thread of a connection that is
taken out of the map of the stack has not exited; the close that queues the free of a
connection is the first since it was taken out. -/
def CloseOk (w : ShutdownWorld) (eq : Addr) : CloseStep → Prop
  | .reap => ∀ c ∈ w.native.find? eq, w.index c ∉ w.exited
  | .delCon c => c ∈ w.taken
  | .get | .remove | .finish => True

instance (w : ShutdownWorld) (eq : Addr) : DecidablePred (w.CloseOk eq)
  | .reap | .delCon _ => by unfold CloseOk; infer_instance
  | .get | .remove | .finish => isTrue trivial

/-- The closes are in order; a completion thread exits with an empty queue, when every
connection that has been taken out for it has been queued; and the map of the stack is empty
if an exception has ended the event thread. -/
def Timely (w : ShutdownWorld) : ShutdownOp → Prop
  | .advance t => ∀ k ∈ w.closing t, w.CloseOk k.eq k.at_
  | .exitCq index => w.queue index = [] ∧ ∀ c ∈ w.taken, w.index c ≠ index
  | .joinEq => w.eventThread = .died → ∀ c ∈ w.established, ¬ w.InNative c
  | _ => True

instance (w : ShutdownWorld) : DecidablePred w.Timely
  | .advance .. | .exitCq .. | .joinEq => by unfold Timely; infer_instance
  | .establishConnection .. | .shutdown .. | .shutdownEvent .. | .waitExternalEvent ..
  | .shutdownCq | .joinCq | .shutdownEq | .pendingReap | .eqFailed | .exitEq | .throwEq =>
    isTrue trivial

/-! ## On the way to the free -/

/-- At how many places a connection is: in the map of the stack, in the hands of the closes,
in the queue of its completion thread, or freed. -/
def places (w : ShutdownWorld) (c : ConnectionId) : ℕ :=
  (if w.InNative c then 1 else 0) + (if c ∈ w.taken then 1 else 0) +
    (w.queue (w.index c)).count c + w.freed c

variable {w w' : ShutdownWorld}

/-- Another connection is where it was. -/
theorem places_congr {c : ConnectionId} (hnative : w'.InNative c ↔ w.InNative c)
    (htaken : c ∈ w'.taken ↔ c ∈ w.taken)
    (hqueue : (w'.queue (w'.index c)).count c = (w.queue (w.index c)).count c)
    (hfreed : w'.freed c = w.freed c) : w'.places c = w.places c := by
  unfold places
  rw [hqueue, hfreed, if_congr hnative rfl rfl, if_congr htaken rfl rfl]

/-- A connection that is established at a free address leaves the others where they are. -/
theorem places_establish {c d : ConnectionId} {eq : Addr} {index : ℕ}
    (hnone : w.native.find? eq = none) (hd : d ≠ c) :
    { w with
      eq := Function.update w.eq c eq
      index := Function.update w.index c index
      native := w.native.insertNew eq c }.places d = w.places d := by
  refine places_congr ?_ Iff.rfl ?_ rfl
  · show (w.native.insertNew eq c).find? (Function.update w.eq c eq d) = some d ↔
      w.native.find? (w.eq d) = some d
    rw [Function.update_of_ne hd, StdMap.find?_insertNew_eq_some hnone]
    exact ⟨fun hfind => hfind.resolve_left fun hnew => hd hnew.2, Or.inr⟩
  · show (w.queue (Function.update w.index c index d)).count d = _
    rw [Function.update_of_ne hd]

/-- It is in the map of the stack, and nowhere else. -/
theorem places_established {c : ConnectionId} {eq : Addr} {index : ℕ}
    (hnone : w.native.find? eq = none) (htaken : c ∉ w.taken) (hqueue : ∀ i, c ∉ w.queue i)
    (hfreed : w.freed c = 0) :
    { w with
      eq := Function.update w.eq c eq
      index := Function.update w.index c index
      native := w.native.insertNew eq c }.places c = 1 := by
  have hin : (w.native.insertNew eq c).find? (Function.update w.eq c eq c) = some c := by
    rw [Function.update_self]
    exact (StdMap.find?_insertNew_eq_some hnone).mpr (Or.inl ⟨rfl, rfl⟩)
  show (if (w.native.insertNew eq c).find? (Function.update w.eq c eq c) = some c then 1
    else 0) + (if c ∈ w.taken then 1 else 0) +
      (w.queue (Function.update w.index c index c)).count c + w.freed c = 1
  rw [if_pos hin, if_neg htaken, List.count_eq_zero.mpr (hqueue _), hfreed]

/-- `reap` hands the connection it finds from the map of the stack to the closes. -/
theorem places_reap (a : Addr) {c : ConnectionId} (heq : w.InNative c → c ∉ w.taken)
    (hkey : ∀ d, w.native.find? a = some d → w.eq d = a) :
    { w with
      native := w.native.remove a
      taken := w.taken ∪ (w.native.find? a).toFinset }.places c = w.places c := by
  by_cases hc : w.native.find? a = some c
  · have hin : w.InNative c := by
      unfold InNative
      rw [hkey c hc]
      exact hc
    have hout : ¬ { w with
        native := w.native.remove a
        taken := w.taken ∪ (w.native.find? a).toFinset }.InNative c := by
      show (w.native.remove a).find? (w.eq c) ≠ some c
      rw [hkey c hc, StdMap.find?_remove_self]
      simp
    have hmem : c ∈ w.taken ∪ (w.native.find? a).toFinset := by
      rw [hc]
      simp
    simp only [places, if_pos hin, if_neg hout, if_neg (heq hin), if_pos hmem]
  · refine places_congr ?_ ?_ rfl rfl
    · show (w.native.remove a).find? (w.eq c) = some c ↔ w.native.find? (w.eq c) = some c
      refine ⟨fun h => (StdMap.find?_remove_eq_some.mp h).2, fun h => ?_⟩
      rw [StdMap.find?_remove_of_ne]
      · exact h
      · rintro rfl
        exact hc h
    · show c ∈ w.taken ∪ (w.native.find? a).toFinset ↔ c ∈ w.taken
      simp [hc]

/-- `delCon` hands the connection from the closes to its queue. -/
theorem places_delCon {d : ConnectionId} (hd : d ∈ w.taken) (c : ConnectionId) :
    { w with
      taken := w.taken.erase d
      queue := Function.update w.queue (w.index d) (w.queue (w.index d) ++ [d]) }.places c =
      w.places c := by
  by_cases hc : c = d
  · subst hc
    have hout : ¬ c ∈ w.taken.erase c := Finset.notMem_erase c _
    show (if w.InNative c then 1 else 0) + (if c ∈ w.taken.erase c then 1 else 0) +
      (Function.update w.queue (w.index c) _ (w.index c)).count c + w.freed c = _
    rw [Function.update_self, List.count_append, List.count_singleton_self, if_neg hout]
    unfold places
    rw [if_pos hd]
    omega
  · refine places_congr Iff.rfl (by simp [hc]) ?_ rfl
    show (Function.update w.queue (w.index d) _ (w.index c)).count c = _
    by_cases hi : w.index c = w.index d
    · rw [hi, Function.update_self, List.count_append, List.count_singleton, if_neg]
      · rfl
      · simpa using Ne.symm hc
    · rw [Function.update_of_ne hi]

/-- The handler frees the connection at the head of the queue. -/
theorem places_free {i : ℕ} {d : ConnectionId} {rest : List ConnectionId}
    (hq : w.queue i = d :: rest) (hd : w.index d = i) (c : ConnectionId) :
    { w with
      queue := Function.update w.queue i rest
      freed := Function.update w.freed d (w.freed d + 1) }.places c = w.places c := by
  by_cases hc : c = d
  · subst hc
    show (if w.InNative c then 1 else 0) + (if c ∈ w.taken then 1 else 0) +
      (Function.update w.queue i rest (w.index c)).count c +
        Function.update w.freed c (w.freed c + 1) c = _
    unfold places
    rw [hd, Function.update_self, Function.update_self, hq, List.count_cons_self]
    omega
  · refine places_congr Iff.rfl Iff.rfl ?_ (Function.update_of_ne hc ..)
    show (Function.update w.queue i rest (w.index c)).count c = _
    by_cases hi : w.index c = i
    · rw [hi, Function.update_self, hq, List.count_cons_of_ne (Ne.symm hc)]
    · rw [Function.update_of_ne hi]

/-! ## The invariant -/

/-- When `Service.shutdown` has returned, every native connection that was established
has been freed exactly once. -/
def FreedOnce (w : ShutdownWorld) : Prop :=
  w.phase = .returned → ∀ c ∈ w.established, w.freed c = 1

/-- Every connection is at one place, and nothing is on its way to a completion thread that
has exited; the maps have connections that were established, that of the stack under their
event queues. -/
structure Inv (w : ShutdownWorld) : Prop where
  native : ∀ a c, w.native.find? a = some c → c ∈ w.established ∧ w.eq c = a
  conMap : ∀ a c, w.conMap.find? a = some c → c ∈ w.established
  closing : ∀ t k c, w.closing t = some k → k.at_ = .delCon c → c ∈ w.established
  taken : ∀ c ∈ w.taken, c ∈ w.established
  queue : ∀ i, ∀ c ∈ w.queue i, c ∈ w.established ∧ w.index c = i
  freed : ∀ c, c ∉ w.established → w.freed c = 0
  index : ∀ c ∈ w.established, w.index c < w.worker_num
  places : ∀ c ∈ w.established, w.places c = 1
  exited : ∀ i ∈ w.exited, w.queue i = [] ∧ ∀ c ∈ w.taken, w.index c ≠ i
  joined : w.phase = .joined ∨ w.phase = .reaping → ∀ i < w.worker_num, i ∈ w.exited
  ended : w.eventThread = .ended → ∀ c, ¬ w.InNative c
  returned : w.FreedOnce

theorem inv_init (n : ℕ) : (init n).Inv where
  native a c h := absurd h StdMap.find?_empty_ne
  conMap a c h := absurd h StdMap.find?_empty_ne
  closing _ _ _ h := absurd h (by simp [init])
  taken _ h := absurd h (Finset.notMem_empty _)
  queue _ _ h := absurd h List.not_mem_nil
  freed _ _ := rfl
  index _ h := absurd h (Finset.notMem_empty _)
  places _ h := absurd h (Finset.notMem_empty _)
  exited _ h := absurd h (Finset.notMem_empty _)
  joined h := absurd h (by simp [init])
  ended h := absurd h (by simp [init])
  returned h := absurd h (by simp [init])

/-- A connection in the map of the stack is nowhere else. -/
theorem alone_of_inNative (h : w.Inv) {c : ConnectionId} (hin : w.InNative c) :
    c ∉ w.taken ∧ w.freed c = 0 := by
  have hone := h.places c (h.native _ c hin).1
  unfold ShutdownWorld.places at hone
  rw [if_pos hin] at hone
  refine ⟨fun htaken => ?_, by omega⟩
  rw [if_pos htaken] at hone
  omega

/-- A connection whose completion thread has exited has been freed, unless it is still in the
map of the stack. -/
theorem freed_of_exited (h : w.Inv) {c : ConnectionId} (hc : c ∈ w.established)
    (hexit : w.index c ∈ w.exited) (hin : ¬ w.InNative c) : w.freed c = 1 := by
  obtain ⟨hqueue, htaken⟩ := h.exited _ hexit
  have hone := h.places c hc
  unfold ShutdownWorld.places at hone
  rw [if_neg hin, if_neg fun hmem => htaken c hmem rfl, hqueue] at hone
  simpa using hone

/-- A step that concerns neither the connections nor the maps. -/
theorem Inv.congr (h : w.Inv)
    (hcons : w'.established = w.established ∧ w'.eq = w.eq ∧ w'.index = w.index ∧
      w'.worker_num = w.worker_num)
    (hmaps : w'.native = w.native ∧ w'.conMap = w.conMap)
    (hway : w'.taken = w.taken ∧ w'.queue = w.queue ∧ w'.freed = w.freed)
    (hclosing : ∀ t k c, w'.closing t = some k → k.at_ = .delCon c → c ∈ w.established)
    (hexited : ∀ i ∈ w'.exited, w.queue i = [] ∧ ∀ c ∈ w.taken, w.index c ≠ i)
    (hjoined : w'.phase = .joined ∨ w'.phase = .reaping → ∀ i < w.worker_num, i ∈ w'.exited)
    (hended : w'.eventThread = .ended → ∀ c, ¬ w.InNative c) (hreturned : w'.FreedOnce) :
    w'.Inv := by
  obtain ⟨hest, heq, hindex, hnum⟩ := hcons
  obtain ⟨hnative, hcon⟩ := hmaps
  obtain ⟨htaken, hqueue, hfreed⟩ := hway
  have hin : ∀ c, w'.InNative c ↔ w.InNative c := by
    intro c
    unfold InNative
    rw [hnative, heq]
  refine ⟨?_, ?_, ?_, ?_, ?_, ?_, ?_, fun c hc => ?_, ?_, ?_, fun he c hc => ?_, hreturned⟩
  · rw [hnative, hest, heq]
    exact h.native
  · rw [hcon, hest]
    exact h.conMap
  · rw [hest]
    exact hclosing
  · rw [htaken, hest]
    exact h.taken
  · rw [hqueue, hest, hindex]
    exact h.queue
  · rw [hest, hfreed]
    exact h.freed
  · rw [hest, hindex, hnum]
    exact h.index
  · rw [places_congr (hin c) (by rw [htaken]) (by rw [hqueue, hindex]) (by rw [hfreed])]
    exact h.places c (hest ▸ hc)
  · rw [hqueue, htaken, hindex]
    exact hexited
  · rw [hnum]
    exact hjoined
  · exact hended he c ((hin c).mp hc)

theorem inv_setClosing (h : w.Inv) (t : Thread) {new : Option Closing}
    (hnew : ∀ k c, new = some k → k.at_ = .delCon c → c ∈ w.established) :
    (w.setClosing t new).Inv := by
  refine h.congr ⟨rfl, rfl, rfl, rfl⟩ ⟨rfl, rfl⟩ ⟨rfl, rfl, rfl⟩ (fun u k c hk hat => ?_)
    h.exited h.joined h.ended h.returned
  rcases of_update hk with ⟨-, hk⟩ | ⟨-, hk⟩
  · exact hnew k c hk hat
  · exact h.closing u k c hk hat

theorem inv_beginShutdown (h : w.Inv) {t : Thread} {c : ConnectionId}
    (hstep : w.beginShutdown t c = some w') : w'.Inv := by
  unfold beginShutdown at hstep
  split at hstep
  · cases hstep
    exact h
  · split at hstep
    · exact absurd hstep (by simp)
    · cases hstep
      have hlock : { w with locked := insert c w.locked }.Inv :=
        h.congr ⟨rfl, rfl, rfl, rfl⟩ ⟨rfl, rfl⟩ ⟨rfl, rfl, rfl⟩ h.closing h.exited h.joined
          h.ended h.returned
      exact inv_setClosing hlock t (by rintro _ d ⟨⟩ hat; cases hat)

theorem inv_reap (h : w.Inv) {a : Addr}
    (hexit : ∀ c, w.native.find? a = some c → w.index c ∉ w.exited) :
    { w with
      native := w.native.remove a
      taken := w.taken ∪ (w.native.find? a).toFinset }.Inv := by
  have hnew : ∀ c ∈ w.taken ∪ (w.native.find? a).toFinset,
      c ∈ w.taken ∨ w.native.find? a = some c := by
    intro c hc
    rcases Finset.mem_union.mp hc with hc | hc
    · exact Or.inl hc
    · exact Or.inr (Option.mem_toFinset.mp hc)
  refine ⟨fun b c hb => h.native b c (StdMap.find?_remove_eq_some.mp hb).2, h.conMap, h.closing,
    fun c hc => ?_, h.queue, h.freed, h.index, fun c hc => ?_, fun i hi => ?_, h.joined,
    fun he c hc => ?_, h.returned⟩
  · obtain hc | hc := hnew c hc
    · exact h.taken c hc
    · exact (h.native a c hc).1
  · rw [places_reap a (fun hin => (alone_of_inNative h hin).1) fun d hd => (h.native a d hd).2]
    exact h.places c hc
  · obtain ⟨hqueue, htaken⟩ := h.exited i hi
    refine ⟨hqueue, fun c hc => ?_⟩
    obtain hc | hc := hnew c hc
    · exact htaken c hc
    · rintro rfl
      exact hexit c hc hi
  · exact h.ended he c (StdMap.find?_remove_eq_some.mp hc).2

theorem inv_delCon (h : w.Inv) {d : ConnectionId} (hd : d ∈ w.taken) :
    { w with
      taken := w.taken.erase d
      queue := Function.update w.queue (w.index d) (w.queue (w.index d) ++ [d]) }.Inv := by
  have hexit : w.index d ∉ w.exited := fun hi => (h.exited _ hi).2 d hd rfl
  refine ⟨h.native, h.conMap, h.closing, fun c hc => h.taken c (Finset.mem_of_mem_erase hc),
    fun i c hc => ?_, h.freed, h.index, fun c hc => (places_delCon hd c).trans (h.places c hc),
    fun i hi => ?_, h.joined, h.ended, h.returned⟩
  · change c ∈ Function.update w.queue (w.index d) _ i at hc
    by_cases hi : i = w.index d
    · subst hi
      rw [Function.update_self] at hc
      rcases List.mem_append.mp hc with hc | hc
      · exact h.queue _ c hc
      · obtain rfl := List.mem_singleton.mp hc
        exact ⟨h.taken c hd, rfl⟩
    · rw [Function.update_of_ne hi] at hc
      exact h.queue i c hc
  · obtain ⟨hqueue, htaken⟩ := h.exited i hi
    refine ⟨?_, fun c hc => htaken c (Finset.mem_of_mem_erase hc)⟩
    show Function.update w.queue (w.index d) _ i = []
    rw [Function.update_of_ne]
    · exact hqueue
    · rintro rfl
      exact hexit hi

theorem inv_advance (h : w.Inv) {t : Thread} {k : Closing} (hk : w.closing t = some k)
    (htimely : w.Timely (.advance t)) : (w.advance t k).Inv := by
  have hok := htimely k hk
  unfold advance
  cases hat : k.at_ with
  | reap =>
    rw [hat] at hok
    exact inv_setClosing (inv_reap h hok) t (by rintro _ d ⟨⟩ hat; cases hat)
  | get =>
    dsimp only
    cases hfind : w.conMap.find? k.eq with
    | none => exact inv_setClosing h t (by rintro _ d ⟨⟩ hat; cases hat)
    | some c =>
      refine inv_setClosing h t ?_
      rintro _ d ⟨⟩ hat
      cases hat
      exact h.conMap _ _ hfind
  | delCon c =>
    rw [hat] at hok
    exact inv_setClosing (inv_delCon h hok) t (by rintro _ d ⟨⟩ hat; cases hat)
  | remove =>
    have hremove : { w with conMap := w.conMap.remove k.eq }.Inv :=
      ⟨h.native, fun a c ha => h.conMap a c (StdMap.find?_remove_eq_some.mp ha).2, h.closing,
        h.taken, h.queue, h.freed, h.index, h.places, h.exited, h.joined, h.ended, h.returned⟩
    exact inv_setClosing hremove t (by rintro _ d ⟨⟩ hat; cases hat)
  | finish =>
    have hfields : { w with
        connected := w.connected \ k.caller.toFinset
        locked := w.locked \ k.caller.toFinset }.Inv :=
      h.congr ⟨rfl, rfl, rfl, rfl⟩ ⟨rfl, rfl⟩ ⟨rfl, rfl, rfl⟩ h.closing h.exited h.joined h.ended
        h.returned
    exact inv_setClosing hfields t (by rintro _ d ⟨⟩)

/-- A connection is established under an event queue that no connection in the map of the
stack has. -/
theorem inv_establish (h : w.Inv) (hphase : w.phase ≠ .returned) (hrun : w.EqAlive)
    {c : ConnectionId} {eq : Addr} {index : ℕ} (hc : c ∉ w.established)
    (hindex : index < w.worker_num) (heq : ∀ d ∈ w.established, w.freed d = 0 → w.eq d ≠ eq) :
    { w with
      established := insert c w.established
      eq := Function.update w.eq c eq
      index := Function.update w.index c index
      native := w.native.insertNew eq c
      conMap := w.conMap.assign eq c
      connected := insert c w.connected }.Inv := by
  have hnone : w.native.find? eq = none := by
    cases hfind : w.native.find? eq with
    | none => rfl
    | some d =>
      obtain ⟨hd, hdeq⟩ := h.native eq d hfind
      have hin : w.InNative d := by
        unfold InNative
        rw [hdeq]
        exact hfind
      exact absurd hdeq (heq d hd (alone_of_inNative h hin).2)
  have hold : ∀ d ∈ w.established, d ≠ c := fun d hd hdc => hc (hdc ▸ hd)
  constructor
  · intro a d hd
    change (w.native.insertNew eq c).find? a = some d at hd
    rcases (StdMap.find?_insertNew_eq_some hnone).mp hd with ⟨rfl, rfl⟩ | hd
    · exact ⟨Finset.mem_insert_self .., Function.update_self ..⟩
    · obtain ⟨hd, hdeq⟩ := h.native a d hd
      exact ⟨Finset.mem_insert_of_mem hd, (Function.update_of_ne (hold d hd) ..).trans hdeq⟩
  · intro a d hd
    change (w.conMap.assign eq c).find? a = some d at hd
    rw [StdMap.find?_assign] at hd
    split at hd
    · cases hd
      exact Finset.mem_insert_self ..
    · exact Finset.mem_insert_of_mem (h.conMap a d hd)
  · exact fun t k d hk hat => Finset.mem_insert_of_mem (h.closing t k d hk hat)
  · exact fun d hd => Finset.mem_insert_of_mem (h.taken d hd)
  · intro i d hd
    obtain ⟨hd, hi⟩ := h.queue i d hd
    exact ⟨Finset.mem_insert_of_mem hd, (Function.update_of_ne (hold d hd) ..).trans hi⟩
  · exact fun d hd => h.freed d fun hin => hd (Finset.mem_insert_of_mem hin)
  · intro d hd
    show Function.update w.index c index d < w.worker_num
    rcases Finset.mem_insert.mp hd with rfl | hd
    · rwa [Function.update_self]
    · rw [Function.update_of_ne (hold d hd)]
      exact h.index d hd
  · intro d hd
    rcases Finset.mem_insert.mp hd with rfl | hd
    · exact places_established hnone (fun hin => hc (h.taken d hin))
        (fun i hin => hc (h.queue i d hin).1) (h.freed d hc)
    · rw [← h.places d hd]
      exact places_establish hnone (hold d hd)
  · intro i hi
    obtain ⟨hqueue, htaken⟩ := h.exited i hi
    refine ⟨hqueue, fun d hd => ?_⟩
    show Function.update w.index c index d ≠ i
    rw [Function.update_of_ne (hold d (h.taken d hd))]
    exact htaken d hd
  · exact h.joined
  · intro he
    obtain hrun | hrun := hrun
    · exact absurd (hrun.symm.trans he) (by simp)
    · exact absurd (hrun.symm.trans he) (by simp)
  · exact fun hret => absurd hret hphase

theorem inv_free (h : w.Inv) (hphase : w.phase ≠ .returned) {i : ℕ} {c : ConnectionId}
    {rest : List ConnectionId} (hq : w.queue i = c :: rest) :
    { w with
      queue := Function.update w.queue i rest
      freed := Function.update w.freed c (w.freed c + 1) }.Inv := by
  obtain ⟨hc, hi⟩ := h.queue i c (hq ▸ List.mem_cons_self)
  refine ⟨h.native, h.conMap, h.closing, h.taken, fun j d hd => ?_, fun d hd => ?_, h.index,
    fun d hd => (places_free hq hi d).trans (h.places d hd), fun j hj => ?_, h.joined, h.ended,
    fun hret => absurd hret hphase⟩
  · change d ∈ Function.update w.queue i rest j at hd
    by_cases hj : j = i
    · subst hj
      rw [Function.update_self] at hd
      exact h.queue j d (hq ▸ List.mem_cons_of_mem c hd)
    · rw [Function.update_of_ne hj] at hd
      exact h.queue j d hd
  · have hne : d ≠ c := fun heq => hd (heq ▸ hc)
    exact (Function.update_of_ne hne ..).trans (h.freed d hd)
  · obtain ⟨hqueue, htaken⟩ := h.exited j hj
    refine ⟨?_, htaken⟩
    have hji : j ≠ i := by
      rintro rfl
      rw [hqueue] at hq
      cases hq
    show Function.update w.queue i rest j = []
    rw [Function.update_of_ne hji]
    exact hqueue

/-- The destructor of the stack frees what is left in its map. -/
theorem inv_deleteStack (h : w.Inv) (hphase : w.phase ≠ .returned) :
    { w.deleteStack with eventThread := .ended }.Inv := by
  have hout : ∀ c, ¬ { w.deleteStack with eventThread := .ended }.InNative c :=
    fun c hc => absurd hc StdMap.find?_empty_ne
  refine ⟨fun a c ha => absurd ha StdMap.find?_empty_ne, h.conMap, h.closing, h.taken, h.queue,
    fun c hc => ?_, h.index, fun c hc => ?_, h.exited, h.joined, fun _ => hout,
    fun hret => absurd hret hphase⟩
  · show (if w.InNative c then w.freed c + 1 else w.freed c) = 0
    rw [if_neg (show ¬ w.InNative c from fun hin => hc (h.native _ c hin).1)]
    exact h.freed c hc
  · have hone := h.places c hc
    unfold ShutdownWorld.places at hone ⊢
    rw [if_neg (hout c)]
    show 0 + (if c ∈ w.taken then 1 else 0) + (w.queue (w.index c)).count c +
      (if w.InNative c then w.freed c + 1 else w.freed c) = 1
    split at hone
    · rename_i hin
      rw [if_pos hin]
      omega
    · rename_i hin
      rw [if_neg hin]
      omega

/-- `Service.shutdown` returns. -/
theorem inv_joinEq (h : w.Inv) (hphase : w.phase = .reaping) (hend : ¬ w.EqAlive)
    (htimely : w.Timely .joinEq) : { w with phase := .returned }.Inv := by
  have hall := h.joined (Or.inr hphase)
  refine h.congr ⟨rfl, rfl, rfl, rfl⟩ ⟨rfl, rfl⟩ ⟨rfl, rfl, rfl⟩ h.closing h.exited
    (fun hp => absurd hp (by simp)) h.ended fun _ c hc => ?_
  refine freed_of_exited h hc (hall _ (h.index c hc)) ?_
  cases heq : w.eventThread with
  | running => exact absurd (Or.inl heq) hend
  | stopped => exact absurd (Or.inr heq) hend
  | ended => exact h.ended heq c
  | died => exact htimely heq c hc

theorem inv_step {op : ShutdownOp} (h : w.Inv) (htimely : w.Timely op)
    (hstep : step w op = some w') : w'.Inv := by
  unfold step at hstep
  split at hstep
  · exact absurd hstep (by simp)
  rename_i hphase
  cases op with
  | establishConnection c eq index =>
    obtain ⟨⟨hfree, hc, hindex, heq⟩, hstep⟩ := Option.ite_none_right_eq_some.mp hstep
    cases hstep
    exact inv_establish h hphase hfree.2 hc hindex heq
  | shutdown t c => exact inv_beginShutdown h (Option.ite_none_right_eq_some.mp hstep).2
  | shutdownEvent eq =>
    obtain ⟨-, hstep⟩ := Option.ite_none_right_eq_some.mp hstep
    cases hstep
    exact inv_setClosing h .eq (by rintro _ d ⟨⟩ hat; cases hat)
  | advance t =>
    dsimp only at hstep
    split at hstep
    · rename_i k hk
      obtain ⟨-, hstep⟩ := Option.ite_none_left_eq_some.mp hstep
      cases hstep
      exact inv_advance h hk htimely
    · exact absurd hstep (by simp)
  | waitExternalEvent index =>
    obtain ⟨-, hstep⟩ := Option.ite_none_right_eq_some.mp hstep
    split at hstep
    · rename_i c rest hq
      cases hstep
      exact inv_free h hphase hq
    · exact absurd hstep (by simp)
  | exitCq index =>
    obtain ⟨-, hstep⟩ := Option.ite_none_right_eq_some.mp hstep
    cases hstep
    refine h.congr ⟨rfl, rfl, rfl, rfl⟩ ⟨rfl, rfl⟩ ⟨rfl, rfl, rfl⟩ h.closing (fun i hi => ?_)
      (fun hp i hi => Finset.mem_insert_of_mem (h.joined hp i hi)) h.ended h.returned
    rcases Finset.mem_insert.mp hi with rfl | hi
    · exact htimely
    · exact h.exited i hi
  | shutdownCq =>
    obtain ⟨-, hstep⟩ := Option.ite_none_right_eq_some.mp hstep
    cases hstep
    exact h.congr ⟨rfl, rfl, rfl, rfl⟩ ⟨rfl, rfl⟩ ⟨rfl, rfl, rfl⟩ h.closing h.exited
      (fun hp => absurd hp (by simp)) h.ended fun hret => absurd hret (by simp)
  | joinCq =>
    obtain ⟨⟨-, hall⟩, hstep⟩ := Option.ite_none_right_eq_some.mp hstep
    cases hstep
    exact h.congr ⟨rfl, rfl, rfl, rfl⟩ ⟨rfl, rfl⟩ ⟨rfl, rfl, rfl⟩ h.closing h.exited
      (fun _ => hall) h.ended fun hret => absurd hret (by simp)
  | shutdownEq =>
    obtain ⟨hjoined, hstep⟩ := Option.ite_none_right_eq_some.mp hstep
    cases hstep
    refine h.congr ⟨rfl, rfl, rfl, rfl⟩ ⟨rfl, rfl⟩ ⟨rfl, rfl, rfl⟩ h.closing h.exited
      (fun _ => h.joined (Or.inl hjoined)) (fun he => h.ended ?_)
      fun hret => absurd hret (by simp)
    dsimp only at he
    split at he
    · exact absurd he (by simp)
    · exact he
  | pendingReap =>
    dsimp only at hstep
    split at hstep
    · rename_i c rest _
      obtain ⟨-, hstep⟩ := Option.ite_none_right_eq_some.mp hstep
      have hrest : { w with reapCons := rest }.Inv :=
        h.congr ⟨rfl, rfl, rfl, rfl⟩ ⟨rfl, rfl⟩ ⟨rfl, rfl, rfl⟩ h.closing h.exited h.joined
          h.ended h.returned
      exact inv_beginShutdown hrest hstep
    · exact absurd hstep (by simp)
  | eqFailed =>
    obtain ⟨-, hstep⟩ := Option.ite_none_right_eq_some.mp hstep
    cases hstep
    exact h.congr ⟨rfl, rfl, rfl, rfl⟩ ⟨rfl, rfl⟩ ⟨rfl, rfl, rfl⟩ h.closing h.exited h.joined
      (fun he => absurd he (by simp)) h.returned
  | exitEq =>
    obtain ⟨-, hstep⟩ := Option.ite_none_right_eq_some.mp hstep
    cases hstep
    exact inv_deleteStack h hphase
  | throwEq =>
    have hdied : ∀ locked : Finset ConnectionId,
        { w with locked := locked, eventThread := .died }.Inv := fun locked =>
      h.congr ⟨rfl, rfl, rfl, rfl⟩ ⟨rfl, rfl⟩ ⟨rfl, rfl, rfl⟩ h.closing h.exited h.joined
        (fun he => absurd he (by simp)) h.returned
    dsimp only at hstep
    split at hstep
    · cases hstep
      exact hdied w.locked
    · split at hstep
      · cases hstep
        exact inv_setClosing (hdied _) .eq (by rintro _ d ⟨⟩)
      · exact absurd hstep (by simp)
  | joinEq =>
    obtain ⟨⟨hreaping, hend⟩, hstep⟩ := Option.ite_none_right_eq_some.mp hstep
    cases hstep
    exact inv_joinEq h hreaping hend htimely

/-- **Every connection is freed exactly once.**  In a run whose steps are all timely, every
native connection that was established has been freed exactly once when
`Service.shutdown` returns. -/
theorem freed_once (worker_num : ℕ) (ops : List ShutdownOp)
    (h : Meets step Timely (init worker_num) ops) :
    Always step FreedOnce (init worker_num) ops :=
  (always_of_meets (fun _ _ _ hi htimely hstep => inv_step hi htimely hstep) (inv_init worker_num)
    h).mono fun _ hi => hi.returned

/-- `Service.shutdown` up to the point where the connections are closed. -/
def stopRun : List ShutdownOp := [.shutdownCq, .exitCq 0, .joinCq, .shutdownEq]

/-- One connection is closed by the application, and one for the SHUTDOWN event of its peer,
and both are freed, before `Service.shutdown` is called; a third is established when the
event thread has been told to end. -/
def closedRun : List ShutdownOp :=
  [[.establishConnection 0 5 0, .establishConnection 1 6 0, .shutdown (.app 0) 0,
    .shutdownEvent 6], (List.replicate 4 [.advance (.app 0), .advance .eq]).flatten,
    [.advance (.app 0), .advance .eq, .waitExternalEvent 0, .waitExternalEvent 0], stopRun,
    [.establishConnection 2 7 0, .exitEq, .joinEq]].flatten

theorem freed_once_closed : Always step FreedOnce (init 1) closedRun :=
  freed_once 1 closedRun (by decide +kernel)

/-- A connection that is open when `Service.shutdown` is called. -/
def openRun : List ShutdownOp :=
  [[.establishConnection 0 5 0], stopRun, [.pendingReap], List.replicate 5 (.advance .eq),
    [.exitEq, .joinEq]].flatten

theorem never_freed : ¬ Always step FreedOnce (init 1) openRun := by
  intro h
  have hrun : (run step (init 1) openRun).map (fun w => (w.phase, w.established, w.freed 0)) =
      some (.returned, {0}, 0) := by
    decide +kernel
  obtain ⟨w, hw, hfields⟩ := Option.map_eq_some_iff.mp hrun
  simp only [Prod.mk.injEq] at hfields
  obtain ⟨hphase, hestablished, hfreed⟩ := hfields
  have honce := h.last hw hphase 0 (by rw [hestablished]; exact Finset.mem_singleton_self 0)
  omega

end ShutdownWorld

end Hpnl
