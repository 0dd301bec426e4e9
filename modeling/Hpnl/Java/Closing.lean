import Hpnl.Connection.Status
import Hpnl.Java.Shutdown

/-!
# The end of a connection in the Java service

A connection ends by `Connection.shutdown()`, called by the application or, after
`EqService.shutdown()`, by the event thread, or with the SHUTDOWN event of its peer.  Either
way it is known by the address of its event queue alone, in the map of the `MsgStack`, in the
event demultiplexer and in the map of the `EqService`.  The event thread goes on in its loop
until it is told to end and nothing is left to be reaped; it ends with `eqService.free()`,
and `~MsgStack` deletes the connections that are still in its map.

* `CloseFrame` — a call that a thread is in; the application's callbacks may call
  `shutdown()` again, so a thread has a stack of them.
* `JavaCloses` — the `Connection`s, and the threads that end them.
* `CloseWorld` — these, with the native service beneath; `step` — what happens, one thread
  at a time.
* `JavaMove`, `step_move` — all that a step does in Java.
-/

namespace Hpnl

open Transition

/-- What a connection is closed for: `shutdown()` of this connection, or a SHUTDOWN event
from this event queue.  Whether the native connection had been freed at the call is
recorded. -/
inductive CloseCaller where
  | shutdown (c : ConnectionId) (stale : Bool)
  | event (a : Addr)
  deriving DecidableEq, Repr

/-- Where a close is. -/
inductive CloseStage where
  /-- `get_connection`. -/
  | find
  /-- `if (con->status < DOWN)`. -/
  | check (d : ConnectionId)
  /-- `con->shutdown()`. -/
  | endpoint (d : ConnectionId)
  /-- `con->status = DOWN`. -/
  | down (d : ConnectionId)
  | reap
  | deleteEvent
  /-- `conMap.get(eq)`. -/
  | get
  | delCon (d : ConnectionId)
  /-- `conMap.remove(eq)`. -/
  | remove
  deriving DecidableEq, Repr

namespace CloseCaller

/-- After `get_connection` has found a connection: the event does not check its status. -/
def found (d : ConnectionId) : CloseCaller → CloseStage
  | .shutdown .. => .check d
  | .event _ => .down d

/-- After the native connection: the event has been deleted before it. -/
def afterReap : CloseCaller → CloseStage
  | .shutdown .. => .deleteEvent
  | .event _ => .get

end CloseCaller

/-- Where a call of `EqService.shutdown()` is. -/
inductive ServiceStage where
  /-- `addReapConnection`, for every connection. -/
  | reapAll
  /-- `eqThread.shutdown()`. -/
  | stop
  /-- `delete_eq_event(localEq)`. -/
  | deleteLocal
  deriving DecidableEq, Repr

/-- Where the event thread is in `EqThread.run`. -/
inductive EqLoop where
  /-- At the condition of the loop. -/
  | head
  /-- In `wait_eq_event`. -/
  | wait
  /-- In `pendingReap`. -/
  | reap
  /-- `eqService.free()` has returned. -/
  | ended
  /-- An exception has ended the thread. -/
  | died
  deriving DecidableEq, Repr

/-- A call that a thread is in. -/
inductive CloseFrame where
  | close (who : CloseCaller) (k : CloseStage)
  /-- `if (shutdownCallback != null)`. -/
  | callback (c : ConnectionId)
  /-- `shutdownCallback.handle`. -/
  | handle (c : ConnectionId)
  | connectedCallback (d : ConnectionId)
  | service (k : ServiceStage)
  deriving DecidableEq, Repr

/-- The connection whose monitor the frame holds. -/
def CloseFrame.con : CloseFrame → Option ConnectionId
  | .close (.shutdown c _) _ | .callback c | .handle c => some c
  | .close (.event _) _ | .connectedCallback _ | .service _ => none

/-- The application runs. -/
def CloseFrame.callsOut : CloseFrame → Bool
  | .handle _ | .connectedCallback _ => true
  | .close .. | .callback _ | .service _ => false

/-- The stages that call into the native service; `delete_eq_event1` does nothing when there
is none. -/
def CloseStage.native : CloseStage → Bool
  | .find | .check _ | .endpoint _ | .down _ | .reap => true
  | .deleteEvent | .get | .delCon _ | .remove => false

/-- The rest of `Connection.shutdown` after `closeConnection`. -/
def CloseCaller.rest : CloseCaller → List CloseFrame
  | .shutdown c _ => [.callback c]
  | .event _ => []

/-- The `Connection`s: which have been established, are `connected`, and have a
`shutdownCallback`, and who has the monitor of each; the map of the `EqService`, and the
calls that each thread is in.  On which of them `shutdown()` has been called, which have
ended (their `delCon` has been called, or they have been deleted with the stack), whose
callback has thrown, and how often it has been called, is recorded. -/
structure JavaCloses where
  established : Finset ConnectionId
  connected : Finset ConnectionId
  callback : Finset ConnectionId
  monitor : ConnectionId → Option Thread
  conMap : StdMap Addr ConnectionId
  frames : Thread → List CloseFrame
  asked : Finset ConnectionId
  ended : Finset ConnectionId
  threw : Finset ConnectionId
  calls : ConnectionId → ℕ

namespace JavaCloses

def setFrames (j : JavaCloses) (t : Thread) (fs : List CloseFrame) : JavaCloses :=
  { j with frames := Function.update j.frames t fs }

@[simp] theorem frames_setFrames_self (j : JavaCloses) (t : Thread) (fs : List CloseFrame) :
    (j.setFrames t fs).frames t = fs := Function.update_self ..

theorem frames_setFrames_of_ne (j : JavaCloses) {t u : Thread} (fs : List CloseFrame)
    (h : u ≠ t) : (j.setFrames t fs).frames u = j.frames u := Function.update_of_ne h ..

/-- `establishConnection`, and `handleEqCallback` up to the connected callback. -/
def establish (j : JavaCloses) (a : Addr) (d : ConnectionId) (registered : Bool) : JavaCloses :=
  { j with
    established := insert d j.established
    connected := insert d j.connected
    callback := if registered then insert d j.callback else j.callback
    conMap := j.conMap.assign a d }.setFrames .eq [.connectedCallback d]

/-- `Connection.shutdown`, after its checks. -/
def enter (j : JavaCloses) (t : Thread) (c : ConnectionId) (stale : Bool) : JavaCloses :=
  { j with
    asked := insert c j.asked
    monitor := Function.update j.monitor c (some t) }.setFrames t
      (.close (.shutdown c stale) .find :: j.frames t)

/-- The connections in the map of the stack are deleted with it. -/
def deleteAll (j : JavaCloses) (gone : Finset ConnectionId) : JavaCloses :=
  { j with ended := j.ended ∪ gone }

/-- `con.delCon()`. -/
def delCon (j : JavaCloses) (t : Thread) (rest : List CloseFrame) (who : CloseCaller)
    (d : ConnectionId) : JavaCloses :=
  { j with ended := insert d j.ended }.setFrames t (.close who .remove :: rest)

/-- `conMap.remove(eq)`. -/
def remove (j : JavaCloses) (t : Thread) (rest : List CloseFrame) (who : CloseCaller) (a : Addr) :
    JavaCloses :=
  { j with conMap := j.conMap.remove a }.setFrames t (who.rest ++ rest)

/-- `shutdownCallback.handle(this, 0, 0)`. -/
def call (j : JavaCloses) (t : Thread) (rest : List CloseFrame) (c : ConnectionId) : JavaCloses :=
  { j with calls := Function.update j.calls c (j.calls c + 1) }.setFrames t (.handle c :: rest)

/-- The end of the synchronized block. -/
def leave (j : JavaCloses) (t : Thread) (rest : List CloseFrame) (c : ConnectionId) : JavaCloses :=
  { j with
    monitor := Function.update j.monitor c
      (if rest.any (·.con = some c) then some t else none) }.setFrames t rest

/-- `connected = false`. -/
def finish (j : JavaCloses) (t : Thread) (rest : List CloseFrame) (c : ConnectionId) :
    JavaCloses :=
  { j with connected := j.connected.erase c }.leave t rest c

/-- The callback throws. -/
def throws (j : JavaCloses) (t : Thread) (rest : List CloseFrame) (c : ConnectionId) :
    JavaCloses :=
  { j with threw := insert c j.threw }.leave t rest c

end JavaCloses

/-- A service.  `eq` is the event queue of a connection, `native` the map of the `MsgStack`,
`fid_map` that of the event demultiplexer, each with the connection that was put there;
`unregistered` are the connections that `add_eq_event` has not been called for, `shut` those
whose endpoint has been shut down, `frees` the frees that wait on the completion threads;
`running` is the flag of the event thread, and `loop` where it is. -/
structure CloseWorld extends JavaCloses where
  is_server : Bool
  shutdownCallback : Bool
  created : Finset ConnectionId
  eq : ConnectionId → Addr
  status : ConnectionId → ConStatus
  shut : Finset ConnectionId
  native : StdMap Addr ConnectionId
  fid_map : StdMap Addr ConnectionId
  unregistered : Finset ConnectionId
  frees : List ConnectionId
  freed : Finset ConnectionId
  localEq : Option Addr
  reapCons : List ConnectionId
  running : Bool
  loop : EqLoop

/-- A step of a thread. -/
inductive CloseOp where
  /-- `EqService.setShutdownCallback`. -/
  | setShutdownCallback (registered : Bool)
  /-- `MsgStack::connect`, or `accept`, makes a connection. -/
  | make (c : ConnectionId) (a : Addr)
  /-- `add_eq_event`. -/
  | register (c : ConnectionId)
  | connectedEvent (a : Addr)
  | shutdownEvent (a : Addr)
  /-- The application calls `Connection.shutdown()`. -/
  | shutdown (t : Thread) (c : ConnectionId)
  /-- A thread goes on with the call it is in; a callback returns. -/
  | advance (t : Thread)
  /-- The callback that a thread is in throws. -/
  | throw (t : Thread)
  /-- A completion thread runs a free. -/
  | free (c : ConnectionId)
  /-- `EqService.shutdown()` is called. -/
  | shutdownService (t : Thread)
  /-- The event thread evaluates the condition of its loop, or `pendingReap` is done. -/
  | loop
  /-- `wait_eq_event` returns without an event of a connection, perhaps with -1. -/
  | noEvent (failed : Bool)
  /-- `pendingReap` takes a connection and calls its `shutdown()`. -/
  | pendingReap (c : ConnectionId)
  deriving DecidableEq, Repr

namespace CloseWorld

/-- A service without connections. -/
def init (is_server : Bool) : CloseWorld :=
  { established := ∅
    connected := ∅
    callback := ∅
    monitor := fun _ => none
    conMap := ∅
    frames := fun _ => []
    asked := ∅
    ended := ∅
    threw := ∅
    calls := fun _ => 0
    is_server := is_server
    shutdownCallback := false
    created := ∅
    eq := fun _ => nullptr
    status := fun _ => .idle
    shut := ∅
    native := ∅
    fid_map := ∅
    unregistered := ∅
    frees := []
    freed := ∅
    localEq := none
    reapCons := []
    running := true
    loop := .head }

/-- The event queue that a close is about. -/
def address (w : CloseWorld) : CloseCaller → Addr
  | .shutdown c _ => w.eq c
  | .event a => a

/-- A close goes on, with this stage next. -/
def goOn (w : CloseWorld) (t : Thread) (rest : List CloseFrame) (who : CloseCaller)
    (k : CloseStage) : CloseWorld :=
  { w with toJavaCloses := w.setFrames t (.close who k :: rest) }

/-- The next step of a close.  `reap` asserts that it finds an entry. -/
def advanceClose (w : CloseWorld) (t : Thread) (rest : List CloseFrame) (who : CloseCaller) :
    CloseStage → Option CloseWorld
  | .find =>
      match w.native.find? (w.address who) with
      | some d => some (w.goOn t rest who (who.found d))
      | none => some (w.goOn t rest who who.afterReap)
  | .check d =>
      some (w.goOn t rest who (if w.status d < .down then .endpoint d else who.afterReap))
  | .endpoint d => some ({ w with shut := insert d w.shut }.goOn t rest who (.down d))
  | .down d =>
      some ({ w with status := Function.update w.status d .down }.goOn t rest who .reap)
  | .reap =>
      if w.native.has (w.address who) then
        some ({ w with native := w.native.remove (w.address who) }.goOn t rest who who.afterReap)
      else none
  | .deleteEvent =>
      some ({ w with fid_map := w.fid_map.remove (w.address who) }.goOn t rest who .get)
  | .get =>
      match w.conMap.find? (w.address who) with
      | some d => some (w.goOn t rest who (.delCon d))
      | none => some { w with toJavaCloses := w.setFrames t (who.rest ++ rest) }
  | .delCon d =>
      some { w with
        toJavaCloses := w.toJavaCloses.delCon t rest who d
        frees := w.frees ++ [d] }
  | .remove => some { w with toJavaCloses := w.toJavaCloses.remove t rest who (w.address who) }

/-- The next step of `EqService.shutdown()`. -/
def advanceService (w : CloseWorld) (t : Thread) (rest : List CloseFrame) :
    ServiceStage → CloseWorld
  | .reapAll =>
      { w with
        reapCons := w.reapCons ++ w.conMap.entries.map Prod.snd
        toJavaCloses := w.setFrames t (.service .stop :: rest) }
  | .stop =>
      { w with
        running := false
        toJavaCloses := w.setFrames t (.service .deleteLocal :: rest) }
  | .deleteLocal =>
      { w with
        fid_map := match w.localEq with
          | some a => w.fid_map.remove a
          | none => w.fid_map
        toJavaCloses := w.setFrames t rest }

/-- The next step of a thread.  The native service is not there any more when the event thread
has ended; `wait_eq_event1` writes `CONNECTED` after the connected callback. -/
def advance (w : CloseWorld) (t : Thread) : Option CloseWorld :=
  match w.frames t with
  | [] => none
  | .close who k :: rest =>
      if w.loop = .ended ∧ k.native then none else w.advanceClose t rest who k
  | .callback c :: rest =>
      if c ∈ w.callback then some { w with toJavaCloses := w.toJavaCloses.call t rest c }
      else some { w with toJavaCloses := w.toJavaCloses.finish t rest c }
  | .handle c :: rest => some { w with toJavaCloses := w.toJavaCloses.finish t rest c }
  | .connectedCallback d :: rest =>
      some { w with
        status := Function.update w.status d .connected
        toJavaCloses := w.setFrames t rest }
  | .service k :: rest => some (w.advanceService t rest k)

/-- `Connection.shutdown()`: a connection that is not connected is left alone, and a thread
waits for the monitor. -/
def beginShutdown (w : CloseWorld) (t : Thread) (c : ConnectionId) : Option CloseWorld :=
  if c ∉ w.connected then some w
  else if w.monitor c = none ∨ w.monitor c = some t then
    some { w with toJavaCloses := w.enter t c (c ∈ w.freed) }
  else none

/-- The application runs on the thread: on the event thread it does in a callback. -/
def RunsApplication (w : CloseWorld) (t : Thread) : Prop :=
  match w.frames t with
  | [] => t ≠ .eq
  | f :: _ => f.callsOut

instance (w : CloseWorld) (t : Thread) : Decidable (w.RunsApplication t) := by
  unfold RunsApplication
  split <;> infer_instance

/-- The event thread is at this place of `EqThread.run`, and in no call from there. -/
def EqAt (w : CloseWorld) (l : EqLoop) : Prop := w.loop = l ∧ w.frames .eq = []

instance (w : CloseWorld) (l : EqLoop) : Decidable (w.EqAt l) :=
  inferInstanceAs (Decidable (_ ∧ _))

/-- The connections in the map of the `MsgStack`. -/
def held (w : CloseWorld) : Finset ConnectionId := (w.native.entries.map Prod.snd).toFinset

/-- `while (running.get() || eqService.needReap())` ends. -/
def LoopEnds (w : CloseWorld) : Prop := w.EqAt .head ∧ w.running = false ∧ w.reapCons = []

instance (w : CloseWorld) : Decidable w.LoopEnds := inferInstanceAs (Decidable (_ ∧ _ ∧ _))

/-- `eqService.free()`: `~MsgStack` deletes the connections in its map. -/
def freeService (w : CloseWorld) : CloseWorld :=
  { w with
    toJavaCloses := w.deleteAll (w.held ∩ w.established)
    native := ∅
    fid_map := ∅
    freed := w.freed ∪ w.held
    loop := .ended }

/-- A step.  The event queue of a new connection is none of a connection that has not been
freed; `add_event` and `MsgStack` keep an entry that is there; the order in which
`EqService.shutdown()` goes through the map is not specified, nor is it here; an exception
out of a callback ends the event thread when nothing on it catches it.  Nothing is made or
registered without the native service. -/
def step (w : CloseWorld) : CloseOp → Option CloseWorld
  | .setShutdownCallback registered => some { w with shutdownCallback := registered }
  | .make c a =>
      if w.loop ≠ .ended ∧ c ∉ w.created ∧ ∀ d ∈ w.created, w.eq d = a → d ∈ w.freed then
        some { w with
          created := insert c w.created
          eq := Function.update w.eq c a
          status := Function.update w.status c (if w.is_server then .acceptReq else .connectReq)
          native := w.native.insertNew a c
          unregistered := insert c w.unregistered
          localEq := if w.is_server then w.localEq else some a }
      else none
  | .register c =>
      if w.loop ≠ .ended ∧ c ∈ w.unregistered then
        some { w with
          fid_map := w.fid_map.insertNew (w.eq c) c
          unregistered := w.unregistered.erase c }
      else none
  | .connectedEvent a =>
      match w.native.find? a with
      | some d =>
          if w.EqAt .wait ∧ w.fid_map.has a ∧ d ∉ w.established then
            some { w with
              toJavaCloses := w.establish a d w.shutdownCallback
              loop := .reap }
          else none
      | none => none
  | .shutdownEvent a =>
      if w.EqAt .wait ∧ w.fid_map.has a then
        some ({ w with
          fid_map := w.fid_map.remove a
          loop := .reap }.goOn .eq [] (.event a) .find)
      else none
  | .shutdown t c =>
      if w.RunsApplication t ∧ c ∈ w.established then w.beginShutdown t c else none
  | .advance t => w.advance t
  | .throw t =>
      match w.frames t with
      | .handle c :: rest =>
          some { w with
            toJavaCloses := w.toJavaCloses.throws t rest c
            loop := if t = .eq ∧ rest = [] then .died else w.loop }
      | .connectedCallback d :: rest =>
          some { w with
            status := Function.update w.status d .connected
            toJavaCloses := w.setFrames t rest
            loop := .died }
      | _ => none
  | .free c =>
      if c ∈ w.frees then
        some { w with frees := w.frees.erase c, freed := insert c w.freed }
      else none
  | .shutdownService t =>
      if w.RunsApplication t then
        some { w with toJavaCloses := w.setFrames t (.service .reapAll :: w.frames t) }
      else none
  | .loop =>
      if w.LoopEnds then some w.freeService
      else if w.EqAt .head then some { w with loop := .wait }
      else if w.EqAt .reap ∧ w.reapCons = [] then some { w with loop := .head }
      else none
  | .noEvent failed =>
      if w.EqAt .wait then
        some { w with
          running := w.running && !failed
          loop := .reap }
      else none
  | .pendingReap c =>
      if w.EqAt .reap ∧ c ∈ w.reapCons then
        { w with reapCons := w.reapCons.erase c }.beginShutdown .eq c
      else none

end CloseWorld

/-! ## What a step does in Java -/

/-- All that a step does to the connections and the threads. -/
inductive JavaMove (j : JavaCloses) : CloseOp → JavaCloses → Prop
  | still {op : CloseOp} (hop : ∀ t, op ≠ .advance t) : JavaMove j op j
  | establish {a : Addr} {d : ConnectionId} {registered : Bool} (hnew : d ∉ j.established)
      (hidle : j.frames .eq = []) :
      JavaMove j (.connectedEvent a) (j.establish a d registered)
  | event {a : Addr} (hidle : j.frames .eq = []) :
      JavaMove j (.shutdownEvent a) (j.setFrames .eq [.close (.event a) .find])
  | enter {op : CloseOp} {t : Thread} {c : ConnectionId} {stale : Bool}
      (hop : ∀ u, op ≠ .advance u) (hcon : c ∈ j.connected)
      (hfree : j.monitor c = none ∨ j.monitor c = some t)
      (htop : ∀ f ∈ (j.frames t).head?, f.callsOut = true) : JavaMove j op (j.enter t c stale)
  | goOn {t : Thread} {rest : List CloseFrame} {who : CloseCaller} {k next : CloseStage}
      (hf : j.frames t = .close who k :: rest) (hk : ∀ d, k ≠ .delCon d)
      (hnext : ∀ d, next = .delCon d → ∃ a, j.conMap.find? a = some d) :
      JavaMove j (.advance t) (j.setFrames t (.close who next :: rest))
  | absent {t : Thread} {rest : List CloseFrame} {who : CloseCaller}
      (hf : j.frames t = .close who .get :: rest) :
      JavaMove j (.advance t) (j.setFrames t (who.rest ++ rest))
  | delCon {t : Thread} {rest : List CloseFrame} {who : CloseCaller} {d : ConnectionId}
      (hf : j.frames t = .close who (.delCon d) :: rest) :
      JavaMove j (.advance t) (j.delCon t rest who d)
  | remove {t : Thread} {rest : List CloseFrame} {who : CloseCaller} {a : Addr}
      (hf : j.frames t = .close who .remove :: rest) :
      JavaMove j (.advance t) (j.remove t rest who a)
  | call {t : Thread} {rest : List CloseFrame} {c : ConnectionId}
      (hf : j.frames t = .callback c :: rest) (hc : c ∈ j.callback) :
      JavaMove j (.advance t) (j.call t rest c)
  | unset {t : Thread} {rest : List CloseFrame} {c : ConnectionId}
      (hf : j.frames t = .callback c :: rest) (hc : c ∉ j.callback) :
      JavaMove j (.advance t) (j.finish t rest c)
  | finish {t : Thread} {rest : List CloseFrame} {c : ConnectionId}
      (hf : j.frames t = .handle c :: rest) : JavaMove j (.advance t) (j.finish t rest c)
  | returns {op : CloseOp} {t : Thread} {rest : List CloseFrame} {d : ConnectionId}
      (hf : j.frames t = .connectedCallback d :: rest) : JavaMove j op (j.setFrames t rest)
  | begins {t : Thread} (htop : ∀ f ∈ (j.frames t).head?, f.callsOut = true) :
      JavaMove j (.shutdownService t) (j.setFrames t (.service .reapAll :: j.frames t))
  | service {t : Thread} {rest : List CloseFrame} {k next : ServiceStage}
      (hf : j.frames t = .service k :: rest) :
      JavaMove j (.advance t) (j.setFrames t (.service next :: rest))
  | serviceEnds {t : Thread} {rest : List CloseFrame} {k : ServiceStage}
      (hf : j.frames t = .service k :: rest) : JavaMove j (.advance t) (j.setFrames t rest)
  | frees {gone : Finset ConnectionId} (hgone : gone ⊆ j.established) :
      JavaMove j .loop (j.deleteAll gone)
  | throws {t : Thread} {rest : List CloseFrame} {c : ConnectionId}
      (hf : j.frames t = .handle c :: rest) : JavaMove j (.throw t) (j.throws t rest c)

namespace CloseWorld

variable {w w' : CloseWorld}

theorem beginShutdown_move {op : CloseOp} {t : Thread} {c : ConnectionId}
    (hop : ∀ u, op ≠ .advance u) (htop : ∀ f ∈ (w.frames t).head?, f.callsOut = true)
    (h : w.beginShutdown t c = some w') : JavaMove w.toJavaCloses op w'.toJavaCloses := by
  unfold beginShutdown at h
  split at h
  · cases h
    exact .still hop
  · rename_i hcon
    split at h
    · rename_i hfree
      cases h
      exact .enter hop (not_not.mp hcon) hfree htop
    · cases h

theorem head_callsOut {t : Thread} (h : w.RunsApplication t) :
    ∀ f ∈ (w.frames t).head?, f.callsOut = true := by
  intro f hf
  unfold RunsApplication at h
  split at h
  · rename_i hnil
    rw [hnil] at hf
    cases hf
  · rename_i g rest hcons
    rw [hcons] at hf
    cases hf
    exact h

theorem advanceClose_move {t : Thread} {rest : List CloseFrame} {who : CloseCaller}
    {k : CloseStage} (hf : w.frames t = .close who k :: rest)
    (h : w.advanceClose t rest who k = some w') :
    JavaMove w.toJavaCloses (.advance t) w'.toJavaCloses := by
  -- a stage that `get` does not come before is not the one that calls `delCon`
  have hnot : ∀ {next : CloseStage}, (∀ d, next ≠ .delCon d) →
      ∀ d, next = .delCon d → ∃ a, w.conMap.find? a = some d :=
    fun hnext d hd => absurd hd (hnext d)
  have hfound : ∀ d e, who.found d ≠ .delCon e := by cases who <;> simp [CloseCaller.found]
  have hafter : ∀ e, who.afterReap ≠ .delCon e := by cases who <;> simp [CloseCaller.afterReap]
  cases k with
  | find =>
    simp only [advanceClose] at h
    split at h
    · rename_i d _
      cases h
      exact .goOn hf (by simp) (hnot (hfound d))
    · cases h
      exact .goOn hf (by simp) (hnot hafter)
  | check d =>
    cases h
    refine .goOn hf (by simp) (hnot ?_)
    split
    · simp
    · exact hafter
  | endpoint d =>
    cases h
    exact .goOn hf (by simp) (hnot (by simp))
  | down d =>
    cases h
    exact .goOn hf (by simp) (hnot (by simp))
  | reap =>
    simp only [advanceClose] at h
    split at h
    · cases h
      exact .goOn hf (by simp) (hnot hafter)
    · cases h
  | deleteEvent =>
    cases h
    exact .goOn hf (by simp) (hnot (by simp))
  | get =>
    simp only [advanceClose] at h
    split at h
    · rename_i d hd
      cases h
      refine .goOn hf (by simp) fun e he => ?_
      cases he
      exact ⟨_, hd⟩
    · cases h
      exact .absent hf
  | delCon d =>
    cases h
    exact .delCon hf
  | remove =>
    cases h
    exact .remove hf

theorem advance_move {t : Thread} (h : w.advance t = some w') :
    JavaMove w.toJavaCloses (.advance t) w'.toJavaCloses := by
  unfold advance at h
  split at h
  · cases h
  · rename_i who k rest hf
    exact advanceClose_move hf (Option.ite_none_left_eq_some.mp h).2
  · rename_i c rest hf
    split at h
    · rename_i hc
      cases h
      exact .call hf hc
    · rename_i hc
      cases h
      exact .unset hf hc
  · rename_i c rest hf
    cases h
    exact .finish hf
  · rename_i d rest hf
    cases h
    exact .returns hf
  · rename_i k rest hf
    cases h
    cases k with
    | reapAll => exact .service hf
    | stop => exact .service hf
    | deleteLocal => exact .serviceEnds hf

/-- The event thread goes on in its loop. -/
theorem loop_cases (h : w.step .loop = some w') :
    w.LoopEnds ∧ w' = w.freeService ∨ ¬ w.LoopEnds ∧ ∃ l, w' = { w with loop := l } := by
  unfold step at h
  simp only at h
  split at h
  · rename_i hends
    exact Or.inl ⟨hends, (Option.some.inj h).symm⟩
  · rename_i hgoes
    refine Or.inr ⟨hgoes, ?_⟩
    split at h
    · exact ⟨_, (Option.some.inj h).symm⟩
    · split at h
      · exact ⟨_, (Option.some.inj h).symm⟩
      · cases h

theorem step_move {op : CloseOp} (h : w.step op = some w') :
    JavaMove w.toJavaCloses op w'.toJavaCloses := by
  cases op with
  | setShutdownCallback registered =>
    cases h
    exact .still (by simp)
  | make c a =>
    simp only [step] at h
    split at h
    · cases h
      exact .still (by simp)
    · cases h
  | register c =>
    simp only [step] at h
    split at h
    · cases h
      exact .still (by simp)
    · cases h
  | connectedEvent a =>
    simp only [step] at h
    split at h
    · split at h
      · rename_i hread
        cases h
        exact .establish hread.2.2 hread.1.2
      · cases h
    · cases h
  | shutdownEvent a =>
    simp only [step] at h
    split at h
    · rename_i hread
      cases h
      exact .event hread.1.2
    · cases h
  | shutdown t c =>
    simp only [step] at h
    split at h
    · rename_i hrun
      exact beginShutdown_move (by simp) (head_callsOut hrun.1) h
    · cases h
  | advance t => exact advance_move h
  | throw t =>
    simp only [step] at h
    split at h
    · rename_i c rest hf
      cases h
      exact .throws hf
    · rename_i d rest hf
      cases h
      exact .returns hf
    · cases h
  | free c =>
    simp only [step] at h
    split at h
    · cases h
      exact .still (by simp)
    · cases h
  | shutdownService t =>
    simp only [step] at h
    split at h
    · rename_i hrun
      cases h
      exact .begins (head_callsOut hrun)
    · cases h
  | loop =>
    obtain ⟨-, rfl⟩ | ⟨-, l, rfl⟩ := loop_cases h
    · exact .frees Finset.inter_subset_right
    · exact .still (by simp)
  | noEvent failed =>
    simp only [step] at h
    split at h
    · cases h
      exact .still (by simp)
    · cases h
  | pendingReap c =>
    simp only [step] at h
    split at h
    · rename_i hreap
      refine beginShutdown_move (w := { w with reapCons := w.reapCons.erase c }) (by simp)
        (fun f hf => ?_) h
      rw [show w.frames .eq = [] from hreap.1.2] at hf
      cases hf
    · cases h

end CloseWorld

end Hpnl
