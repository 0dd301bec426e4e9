import Hpnl.Chunk
import Hpnl.Lib.Transition

/-!
# The completion threads

`CqDemultiplexer::wait_event` reads a completion from a queue that several connections
share, and finds the connection in the chunk that the operation was posted with.  It
uses it before the callback and, for a receive, once more after it.
`Service::shutdown(con)` deletes the connection at once, on whatever thread it is
called.

* `CqWorld` — connections, the `con` of each chunk, the operations of the endpoints, the
  completions in the queues, and where each completion thread is.
* `uses` — the connection that a step of a completion thread uses.
* `connections_live` — **no deleted connection is used, as long as** a connection is
  shut down only when no completion is queued that leads to it and no completion thread
  is handling one.
-/

namespace Hpnl

open Transition

/-- Which `MsgConnection` it is, counting from the first that was created. -/
abbrev MsgConnectionId := ℕ

/-- The flag of a completion that `wait_event` goes by. -/
inductive CompletionFlag where
  | recv
  | send
  | read
  | write
  deriving DecidableEq, Repr

/-- An operation that an endpoint has been given, with the chunk as its context. -/
structure Operation where
  con : MsgConnectionId
  ck : Addr
  flag : CompletionFlag
  deriving DecidableEq, Repr

/-- Where a completion thread is; `con` is the local variable. -/
inductive CqThread where
  | idle
  /-- A completion has been read, and `con` been found in its chunk. -/
  | found (con : MsgConnectionId) (flag : CompletionFlag)
  /-- A receive whose connection is connected. -/
  | checked (con : MsgConnectionId)
  /-- The callback runs. -/
  | callback (con : MsgConnectionId) (flag : CompletionFlag)
  deriving DecidableEq, Repr

/-- Whether the thread has still to use the connection. -/
def CqThread.WillUse (t : CqThread) (c : MsgConnectionId) : Prop :=
  match t with
  | idle => False
  | found con _ => con = c
  | checked con => con = c
  | callback con flag => flag = .recv ∧ con = c

instance (t : CqThread) (c : MsgConnectionId) : Decidable (t.WillUse c) := by
  cases t <;> unfold CqThread.WillUse <;> infer_instance

/-- A service: `con` is `ck->con`, `cq` the completion queue that a connection is bound
to, `queue` what waits in each, with the flags. -/
structure CqWorld where
  created : Finset MsgConnectionId
  live : Finset MsgConnectionId
  connected : Finset MsgConnectionId
  cq : MsgConnectionId → ℕ
  con : Addr → Option MsgConnectionId
  operations : List Operation
  queue : ℕ → List (Addr × CompletionFlag)
  thread : ℕ → CqThread

/-- A step of the application, of the fabric, or of completion thread `i`. -/
inductive CqOp where
  /-- A connection is created and posts its receive buffers. -/
  | create (c : MsgConnectionId) (cq : ℕ) (cks : List Addr)
  /-- `status` becomes `CONNECTED`. -/
  | connected (c : MsgConnectionId)
  /-- `send`, `read` or `write`, which set `ck->con`. -/
  | post (c : MsgConnectionId) (ck : Addr) (flag : CompletionFlag)
  /-- An operation completes. -/
  | complete (o : Operation)
  /-- An operation fails: the error is printed. -/
  | fail (o : Operation)
  /-- `Service::shutdown(con)`. -/
  | shutdown (c : MsgConnectionId)
  /-- `fi_cq_read`. -/
  | read (i : ℕ)
  /-- `con->status`. -/
  | check (i : ℕ)
  /-- `con->recv` and the callback that `con` has. -/
  | call (i : ℕ)
  /-- The callback returns; after a receive, `con->activate_recv_chunk()` takes the
  chunk `ck`. -/
  | ret (i : ℕ) (ck : Addr)
  deriving DecidableEq, Repr

namespace CqWorld

/-- A service without connections. -/
def init : CqWorld :=
  { created := ∅
    live := ∅
    connected := ∅
    cq := fun _ => 0
    con := fun _ => none
    operations := []
    queue := fun _ => []
    thread := fun _ => .idle }

/-- `ck->con = this`, and the operation is posted. -/
def post (w : CqWorld) (c : MsgConnectionId) (ck : Addr) (flag : CompletionFlag) : CqWorld :=
  { w with
    con := Function.update w.con ck (some c)
    operations := ⟨c, ck, flag⟩ :: w.operations }

/-- The receives that `MsgConnection::init` posts. -/
def postAll (w : CqWorld) (c : MsgConnectionId) (cks : List Addr) : CqWorld :=
  cks.foldl (fun w ck => w.post c ck .recv) w

def setThread (w : CqWorld) (i : ℕ) (t : CqThread) : CqWorld :=
  { w with thread := Function.update w.thread i t }

/-- `delete con`: the endpoint is closed with the operations it has, and the completions
that are in the queue stay there. -/
def delete (w : CqWorld) (c : MsgConnectionId) : CqWorld :=
  { w with
    live := w.live.erase c
    operations := w.operations.filter fun o => o.con ≠ c }

/-- One step.  The application uses a connection only until it has shut it down. -/
def step (w : CqWorld) : CqOp → Option CqWorld
  | .create c cq cks =>
      if c ∈ w.created then none
      else some ({ w with
        created := insert c w.created
        live := insert c w.live
        cq := Function.update w.cq c cq }.postAll c cks)
  | .connected c =>
      if c ∈ w.live then some { w with connected := insert c w.connected } else none
  | .post c ck flag => if c ∈ w.live then some (w.post c ck flag) else none
  | .complete o =>
      if o ∈ w.operations then
        some { w with
          operations := w.operations.erase o
          queue := Function.update w.queue (w.cq o.con)
            (w.queue (w.cq o.con) ++ [(o.ck, o.flag)]) }
      else none
  | .fail o =>
      if o ∈ w.operations then some { w with operations := w.operations.erase o } else none
  | .shutdown c => if c ∈ w.live then some (w.delete c) else none
  | .read i =>
      match w.thread i, w.queue i with
      | .idle, e :: rest =>
          (w.con e.1).map fun c =>
            { w with queue := Function.update w.queue i rest }.setThread i (.found c e.2)
      | _, _ => none
  | .check i =>
      match w.thread i with
      | .found c .recv => some (if c ∈ w.connected then w.setThread i (.checked c) else w)
      | _ => none
  | .call i =>
      match w.thread i with
      | .found _ .recv => none
      | .found c flag => some (w.setThread i (.callback c flag))
      | .checked c => some (w.setThread i (.callback c .recv))
      | _ => none
  | .ret i ck =>
      match w.thread i with
      | .callback c .recv => some ((w.post c ck .recv).setThread i .idle)
      | .callback _ _ => some (w.setThread i .idle)
      | _ => none

/-- The connection that a step of a completion thread uses: its status, its callbacks,
its endpoint. -/
def uses (w : CqWorld) : CqOp → Option MsgConnectionId
  | .check i =>
      match w.thread i with
      | .found c .recv => some c
      | _ => none
  | .call i =>
      match w.thread i with
      | .found _ .recv => none
      | .found c _ => some c
      | .checked c => some c
      | _ => none
  | .ret i _ =>
      match w.thread i with
      | .callback c .recv => some c
      | _ => none
  | _ => none

/-- The connection that is used has not been deleted. -/
def UsesLive (w : CqWorld) (op : CqOp) : Prop := ∀ c ∈ w.uses op, c ∈ w.live

instance (w : CqWorld) : DecidablePred w.UsesLive := fun op =>
  inferInstanceAs (Decidable (∀ c ∈ w.uses op, c ∈ w.live))

/-- Nothing leads to the connection any more: no completion in a queue, no operation of
another connection, no completion thread. -/
structure Unreached (w : CqWorld) (c : MsgConnectionId) : Prop where
  queue : ∀ i, ∀ e ∈ w.queue i, w.con e.1 ≠ some c
  operations : ∀ o ∈ w.operations, o.con ≠ c → w.con o.ck ≠ some c
  thread : ∀ i, ¬ (w.thread i).WillUse c

/-- A connection is shut down only when nothing leads to it. -/
def Quiet (w : CqWorld) : CqOp → Prop
  | .shutdown c => w.Unreached c
  | _ => True

/-! ## The invariant -/

/-- Whatever leads to a connection leads to one that has not been deleted. -/
structure Inv (w : CqWorld) : Prop where
  queue : ∀ i, ∀ e ∈ w.queue i, ∃ c ∈ w.live, w.con e.1 = some c
  operations : ∀ o ∈ w.operations, ∃ c ∈ w.live, w.con o.ck = some c
  thread : ∀ i c, (w.thread i).WillUse c → c ∈ w.live

variable {w w' : CqWorld}

theorem inv_init : init.Inv :=
  ⟨fun _ _ h => absurd h List.not_mem_nil, fun _ h => absurd h List.not_mem_nil,
    fun _ _ h => h.elim⟩

/-- A chunk that leads to a live connection still does when a live connection posts. -/
theorem con_post {c : MsgConnectionId} (hc : c ∈ w.live) {ck ck' : Addr} (flag : CompletionFlag)
    (h : ∃ d ∈ w.live, w.con ck' = some d) : ∃ d ∈ w.live, (w.post c ck flag).con ck' = some d := by
  by_cases hck : ck' = ck
  · exact ⟨c, hc, by simp [post, hck]⟩
  · obtain ⟨d, hd, hcon⟩ := h
    exact ⟨d, hd, by simpa [post, Function.update_of_ne hck] using hcon⟩

theorem inv_post (h : w.Inv) {c : MsgConnectionId} (hc : c ∈ w.live) (ck : Addr)
    (flag : CompletionFlag) : (w.post c ck flag).Inv := by
  refine ⟨fun i e he => con_post hc flag (h.queue i e he), fun o ho => ?_, h.thread⟩
  rcases List.mem_cons.mp ho with rfl | ho
  · exact ⟨c, hc, by simp [post]⟩
  · exact con_post hc flag (h.operations o ho)

theorem inv_postAll {c : MsgConnectionId} (cks : List Addr) : ∀ {w : CqWorld}, w.Inv → c ∈ w.live →
    (w.postAll c cks).Inv := by
  induction cks with
  | nil => exact fun h _ => h
  | cons ck cks ih => exact fun h hc => ih (inv_post h hc ck .recv) hc

theorem inv_setThread (h : w.Inv) {i : ℕ} {t : CqThread} (ht : ∀ c, t.WillUse c → c ∈ w.live) :
    (w.setThread i t).Inv := by
  refine ⟨h.queue, h.operations, fun j c hj => ?_⟩
  change (Function.update w.thread i t j).WillUse c at hj
  by_cases hji : j = i
  · subst hji
    rw [Function.update_self] at hj
    exact ht c hj
  · rw [Function.update_of_ne hji] at hj
    exact h.thread j c hj

/-- Deleting a connection that nothing leads to. -/
theorem inv_delete (h : w.Inv) {c : MsgConnectionId} (hc : w.Unreached c) : (w.delete c).Inv := by
  refine ⟨fun i e he => ?_, fun o ho => ?_, fun i d hd => ?_⟩
  · obtain ⟨d, hd, hcon⟩ := h.queue i e he
    refine ⟨d, Finset.mem_erase.mpr ⟨?_, hd⟩, hcon⟩
    rintro rfl
    exact hc.queue i e he hcon
  · obtain ⟨hold, hne⟩ := List.mem_filter.mp ho
    obtain ⟨d, hd, hcon⟩ := h.operations o hold
    refine ⟨d, Finset.mem_erase.mpr ⟨?_, hd⟩, hcon⟩
    rintro rfl
    exact hc.operations o hold (by simpa using hne) hcon
  · refine Finset.mem_erase.mpr ⟨?_, h.thread i d hd⟩
    rintro rfl
    exact hc.thread i hd

/-- A step of a completion thread is one of the thread alone, or posts a receive. -/
theorem inv_step {op : CqOp} (h : w.Inv) (hquiet : w.Quiet op) (hstep : step w op = some w') :
    w'.Inv := by
  cases op with
  | create c cq cks =>
    simp only [step, Option.ite_none_left_eq_some, Option.some.injEq] at hstep
    rw [← hstep.2]
    refine inv_postAll cks ⟨fun i e he => ?_, fun o ho => ?_, fun i d hd => ?_⟩
      (Finset.mem_insert_self c w.live)
    · obtain ⟨d, hd, hcon⟩ := h.queue i e he
      exact ⟨d, Finset.mem_insert_of_mem hd, hcon⟩
    · obtain ⟨d, hd, hcon⟩ := h.operations o ho
      exact ⟨d, Finset.mem_insert_of_mem hd, hcon⟩
    · exact Finset.mem_insert_of_mem (h.thread i d hd)
  | connected c =>
    simp only [step, Option.ite_none_right_eq_some, Option.some.injEq] at hstep
    rw [← hstep.2]
    exact ⟨h.queue, h.operations, h.thread⟩
  | post c ck flag =>
    simp only [step, Option.ite_none_right_eq_some, Option.some.injEq] at hstep
    rw [← hstep.2]
    exact inv_post h hstep.1 ck flag
  | complete o =>
    simp only [step, Option.ite_none_right_eq_some, Option.some.injEq] at hstep
    obtain ⟨ho, hstep⟩ := hstep
    rw [← hstep]
    refine ⟨fun i e he => ?_, fun p hp => h.operations p (List.mem_of_mem_erase hp), h.thread⟩
    by_cases hi : i = w.cq o.con
    · subst hi
      have hin : e ∈ w.queue (w.cq o.con) ++ [(o.ck, o.flag)] := by
        simpa [Function.update_self] using he
      rcases List.mem_append.mp hin with hin | hin
      · exact h.queue _ e hin
      · rw [List.mem_singleton.mp hin]
        exact h.operations o ho
    · exact h.queue i e (by simpa [Function.update_of_ne hi] using he)
  | fail o =>
    simp only [step, Option.ite_none_right_eq_some, Option.some.injEq] at hstep
    rw [← hstep.2]
    exact ⟨h.queue, fun p hp => h.operations p (List.mem_of_mem_erase hp), h.thread⟩
  | shutdown c =>
    simp only [step, Option.ite_none_right_eq_some, Option.some.injEq] at hstep
    rw [← hstep.2]
    exact inv_delete h hquiet
  | read i =>
    simp only [step] at hstep
    split at hstep
    · rename_i e rest hidle hq
      obtain ⟨c, hc, hw⟩ := Option.map_eq_some_iff.mp hstep
      obtain ⟨d, hd, hcon⟩ := h.queue i e (hq ▸ List.mem_cons_self)
      cases hc.symm.trans hcon
      rw [← hw]
      have hpop : { w with queue := Function.update w.queue i rest }.Inv := by
        refine ⟨fun j x hx => ?_, h.operations, h.thread⟩
        by_cases hj : j = i
        · subst hj
          have hin : x ∈ rest := by simpa [Function.update_self] using hx
          exact h.queue j x (hq ▸ List.mem_cons_of_mem e hin)
        · exact h.queue j x (by simpa [Function.update_of_ne hj] using hx)
      exact inv_setThread hpop (by rintro _ rfl; exact hd)
    · exact absurd hstep (by simp)
  | check i =>
    simp only [step] at hstep
    split at hstep
    · rename_i c hthread
      have hc : c ∈ w.live := h.thread i c (by rw [hthread]; rfl)
      rw [← Option.some.inj hstep]
      split
      · exact inv_setThread h (by rintro _ rfl; exact hc)
      · exact h
    · exact absurd hstep (by simp)
  | call i =>
    simp only [step] at hstep
    split at hstep
    · exact absurd hstep (by simp)
    · rename_i c flag hne hthread
      have hc : c ∈ w.live := h.thread i c (by rw [hthread]; rfl)
      rw [← Option.some.inj hstep]
      exact inv_setThread h (by rintro _ ⟨-, rfl⟩; exact hc)
    · rename_i c hthread
      have hc : c ∈ w.live := h.thread i c (by rw [hthread]; rfl)
      rw [← Option.some.inj hstep]
      exact inv_setThread h (by rintro _ ⟨-, rfl⟩; exact hc)
    · exact absurd hstep (by simp)
  | ret i ck =>
    simp only [step] at hstep
    split at hstep
    · rename_i c hthread
      have hc : c ∈ w.live := h.thread i c (by rw [hthread]; exact ⟨rfl, rfl⟩)
      rw [← Option.some.inj hstep]
      exact inv_setThread (inv_post h hc ck .recv) fun _ hd => hd.elim
    · rw [← Option.some.inj hstep]
      exact inv_setThread h fun _ hd => hd.elim
    · exact absurd hstep (by simp)

/-- What a step uses, its thread had still to use. -/
theorem willUse_of_uses {op : CqOp} {c : MsgConnectionId} (h : w.uses op = some c) :
    ∃ i, (w.thread i).WillUse c := by
  cases op with
  | check i =>
    simp only [uses] at h
    split at h
    · rename_i d hthread
      exact ⟨i, by rw [hthread]; exact Option.some.inj h⟩
    · exact absurd h (by simp)
  | call i =>
    simp only [uses] at h
    split at h
    · exact absurd h (by simp)
    · rename_i d flag hne hthread
      exact ⟨i, by rw [hthread]; exact Option.some.inj h⟩
    · rename_i d hthread
      exact ⟨i, by rw [hthread]; exact Option.some.inj h⟩
    · exact absurd h (by simp)
  | ret i ck =>
    simp only [uses] at h
    split at h
    · rename_i d hthread
      exact ⟨i, by rw [hthread]; exact ⟨rfl, Option.some.inj h⟩⟩
    · exact absurd h (by simp)
  | _ => exact absurd h (by simp [uses])

/-- **No deleted connection is used.**  In a run in which every connection is shut down
only when no queued completion, no operation of another connection and no completion
thread leads to it, `wait_event` uses live connections only. -/
theorem connections_live (ops : List CqOp) (h : Meets step Quiet init ops) :
    Meets step UsesLive init ops := by
  refine meets_of_meets (fun _ _ _ hi hquiet hstep => inv_step hi hquiet hstep) ?_ inv_init ops h
  intro s op t hi _ _ c hc
  obtain ⟨i, hi'⟩ := willUse_of_uses hc
  exact hi.thread i c hi'

/-- Connection 0 has handled a message; one of connection 1 waits in the same queue. -/
def waitingRun : List CqOp :=
  [.create 0 0 [100], .connected 0, .create 1 0 [200], .connected 1,
    .complete ⟨0, 100, .recv⟩, .read 0, .check 0, .call 0, .ret 0 101, .complete ⟨1, 200, .recv⟩]

/-- Nothing leads to connection 0 then. -/
theorem unreached_waiting {t : CqWorld} (ht : run step init waitingRun = some t) :
    t.Unreached 0 := by
  simp [waitingRun, run_cons, step, init, post, postAll, setThread] at ht
  subst ht
  refine ⟨fun i => ?_, by simp, fun i => ?_⟩
  · by_cases hi : i = 0 <;> simp [hi]
  · simp [CqThread.WillUse]

/-- Connection 0 is shut down while the completion of connection 1 waits, which is
handled then; the step at its end posts the receive of connection 1 again. -/
theorem connections_live_closed :
    Meets step UsesLive init
        (waitingRun ++ [.shutdown 0, .read 0, .check 0, .call 0, .ret 0 201]) ∧
      (run step init (waitingRun ++ [.shutdown 0, .read 0, .check 0, .call 0, .ret 0 201])).map
        (fun t => (t.live, t.operations)) = some ({1}, [⟨1, 201, .recv⟩]) := by
  refine ⟨connections_live _ (Meets.append ?_ fun t ht u _ => ⟨unreached_waiting ht, ?_⟩), ?_⟩
  · refine meets_of_forall fun op hop w => ?_
    simp only [waitingRun, List.mem_cons, List.not_mem_nil, or_false] at hop
    rcases hop with rfl | rfl | rfl | rfl | rfl | rfl | rfl | rfl | rfl | rfl <;> trivial
  · refine meets_of_forall fun op hop w => ?_
    simp only [List.mem_cons, List.not_mem_nil, or_false] at hop
    rcases hop with rfl | rfl | rfl | rfl <;> trivial
  · decide +kernel

/-- A connection that receives a message. -/
def receivingRun : List CqOp :=
  [.create 0 0 [100], .connected 0, .complete ⟨0, 100, .recv⟩, .read 0, .check 0, .call 0]

/-- The receive callback shuts its own connection down. -/
theorem connection_deleted :
    ¬ Meets step UsesLive init (receivingRun ++ [.shutdown 0, .ret 0 101]) := by
  decide +kernel

end CqWorld

end Hpnl
