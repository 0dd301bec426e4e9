import Hpnl.Java.SendWorld
import Hpnl.MsgStack.RoundRobin

/-!
# The thread of a connection

A Java `Connection` is served by one `CqThread`: the one with the index of the completion
queue that its native connection is bound to.  `send` compares the id of its caller with the
id of that thread; everybody else leaves a handler in the queue of the index, and so does
`delCon`.

* `ThreadWorld` — the native stack, the threads, the two maps of the `CqService`, the queues
  of handlers and the connections; what is executed and what is polled is recorded.
* `Confined` — what is executed for a connection is executed by its `CqThread`, which is the
  thread that polls the completion queue of the native connection.
* `Inv` — the index of a connection leads to its thread in the map, and to its queue in the
  native service; the handlers of a queue are about connections of its index.
* `confined_always` — **a connection is confined to its thread in every run**.
-/

namespace Hpnl

open Transition

/-- What `Thread.getId` returns.  The ids are counted up, so that no two threads get the same
one, and a thread is named by its own. -/
abbrev ThreadId := ℕ

/-- A `Connection`, with the native connection behind its `nativeHandle`. -/
structure ThreadConnection where
  nativeEq : Addr
  native : WorkerConnection
  index : ℕ
  threadId : ThreadId
  deriving DecidableEq, Repr

/-- An `ExternalHandler`; the message of a `send` is left out. -/
inductive ThreadHandler where
  | send (c : ConnectionId)
  | free (c : ConnectionId)
  deriving DecidableEq, Repr

/-- The connection that a handler is about. -/
def ThreadHandler.con : ThreadHandler → ConnectionId
  | send c | free c => c

/-- What is to be confined: `takeSendBuffer()`, and the native methods `send` and `free`. -/
inductive ThreadCall where
  | takeSendBuffer
  | send
  | free
  deriving DecidableEq, Repr

/-- A thread has executed a call for a connection. -/
structure Executed where
  thread : ThreadId
  con : ConnectionId
  call : ThreadCall
  deriving DecidableEq, Repr

/-- A service.  `cq_demultiplexer` is the completion queue of each demultiplexer of the native
service, and no two of them have the same one.  `starting` is the counter of the loop of a
`CqService.start()` under way, `index` the field of a `CqThread`, and `started` are the threads
whose `start` has been called.  A thread is in `sending` between `takeSendBuffer` and the native
`send`. -/
structure ThreadWorld where
  stack : WorkerStack
  cq_demultiplexer : List Addr
  distinct : cq_demultiplexer.Nodup
  threadSeqNumber : ℕ
  starting : Option ℕ
  cqThreads : List ThreadId
  index : ThreadId → Option ℕ
  started : List ThreadId
  indexMap : ℕ → Option ThreadId
  externalHandlers : List (List ThreadHandler)
  con : ConnectionId → Option ThreadConnection
  sendBufferList : ConnectionId → List BufferId
  conMap : Addr → Option ConnectionId
  sending : ThreadId → Option ConnectionId
  executed : List Executed
  polled : List (ThreadId × Addr)

/-- A step of a thread. -/
inductive ThreadOp where
  /-- A call of the native stack, by the thread of the events or by a caller of `connect`. -/
  | native (op : WorkerOp)
  /-- A thread that is no `CqThread` is made. -/
  | newThread
  /-- `CqService.start()`. -/
  | start
  /-- The body of its first loop. -/
  | makeThread
  /-- Its first loop has ended, or `affinities` has no more entries; the threads are started. -/
  | startThreads
  | establishConnection (c : ConnectionId) (eq : Addr)
  /-- A buffer is given to a connection that is set up, or back after a SEND completion. -/
  | pushSendBuffer (eq : Addr) (bufferId : BufferId)
  | send (t : ThreadId) (c : ConnectionId)
  /-- `hpnlBuffer.put` throws. -/
  | putThrows (t : ThreadId)
  /-- `put`, and the native `send`. -/
  | nativeSend (t : ThreadId)
  | wait_cq_event (t : ThreadId)
  | waitExternalEvent (t : ThreadId)
  | delCon (c : ConnectionId)
  | closeConnection (eq : Addr)
  deriving DecidableEq, Repr

namespace WorkerStack

variable {w w' : WorkerStack}

theorem queue_next (w : WorkerStack) (fid : Addr) :
    (w.next fid).conCq = w.queue (w.next fid).cq_index :=
  queue_congr (Nat.mod_mod _ _).symm

theorem find?_record {f : Addr} {con con' : WorkerConnection}
    (h : (w.record con).conMap.find? f = some con') :
    w.conMap.find? f = some con' ∨ con' = con := by
  replace h : (w.conMap.insertNew con.fid con).find? f = some con' := h
  cases hold : w.conMap.find? con.fid with
  | none =>
    rcases (StdMap.find?_insertNew_eq_some hold).mp h with ⟨-, heq⟩ | hkept
    · exact Or.inr heq
    · exact Or.inl hkept
  | some con₀ =>
    rw [StdMap.insertNew_of_some con hold] at h
    exact Or.inl h

/-- What becomes of the queues and of the map in one call: an entry is an old one, or that of
the next connection. -/
theorem step_conMap (op : WorkerOp) (hstep : w.step op = some w') :
    w'.worker_num = w.worker_num ∧ (∀ k, w'.queue k = w.queue k) ∧
      ∀ f con, w'.conMap.find? f = some con →
        w.conMap.find? f = some con ∨ ∃ fid, con = w.next fid := by
  obtain rfl | ⟨fid, -, rfl⟩ | ⟨fid, -, rfl⟩ | ⟨fid, -, -, rfl⟩ := step_cases op hstep
  · exact ⟨rfl, fun _ => rfl, fun f con h => Or.inl h⟩
  · exact ⟨rfl, fun _ => rfl, fun f con h => (find?_record h).imp_right fun heq => ⟨fid, heq⟩⟩
  · exact ⟨rfl, fun _ => rfl, fun f con h => Or.inl (StdMap.find?_remove_eq_some.mp h).2⟩
  · exact ⟨rfl, fun _ => rfl, fun f con h => Or.inl h⟩

end WorkerStack

namespace ThreadWorld

/-- The two services after their `init`, with the completion queues that were opened. -/
def init (worker_num : ℕ) (hpos : 0 < worker_num) (hle : worker_num ≤ MAX_WORKERS)
    (cqs : Fin worker_num ↪ Addr) : ThreadWorld :=
  { stack := WorkerStack.init worker_num hpos hle fun i =>
      if h : i.val < worker_num then cqs ⟨i.val, h⟩ else nullptr
    cq_demultiplexer := List.ofFn cqs
    distinct := List.nodup_ofFn.mpr cqs.injective
    threadSeqNumber := 0
    starting := none
    cqThreads := []
    index := fun _ => none
    started := []
    indexMap := fun _ => none
    externalHandlers := []
    con := fun _ => none
    sendBufferList := fun _ => []
    conMap := fun _ => none
    sending := fun _ => none
    executed := []
    polled := [] }

/-! ## The two services -/

/-- The loop over `cqThread.start()`: it ends with an exception at a thread that has been
started. -/
def startAll : List ThreadId → List ThreadId → List ThreadId
  | [], started => started
  | t :: ts, started => if t ∈ started then started else startAll ts (t :: started)

/-- `new CqThread(this, i, ...)`, `cqThreads.add`, `indexMap.put` and `externalHandlers.add`. -/
def makeThread (w : ThreadWorld) (i : ℕ) : ThreadWorld :=
  { w with
    threadSeqNumber := w.threadSeqNumber + 1
    starting := some (i + 1)
    cqThreads := w.cqThreads ++ [w.threadSeqNumber + 1]
    index := Function.update w.index (w.threadSeqNumber + 1) (some i)
    indexMap := Function.update w.indexMap i (some (w.threadSeqNumber + 1))
    externalHandlers := w.externalHandlers ++ [[]] }

/-- `addExternalEvent(index, externalHandler)`.  There may be no queue for the index; then the
call throws. -/
def addExternalEvent (w : ThreadWorld) (index : ℕ) (h : ThreadHandler) : ThreadWorld :=
  { w with externalHandlers := w.externalHandlers.modify index (· ++ [h]) }

/-- `establishConnection`, with the connection that the native stack has for the event queue.
`getThreadId` throws when the map has no entry. -/
def establishConnection (w : ThreadWorld) (c : ConnectionId) (eq : Addr)
    (native : WorkerConnection) : ThreadWorld :=
  match w.indexMap native.cq_index with
  | none => w
  | some threadId =>
      { w with
        con := Function.update w.con c (some ⟨eq, native, native.cq_index, threadId⟩)
        conMap := Function.update w.conMap eq (some c) }

/-! ## A connection -/

/-- A call is recorded. -/
def execute (w : ThreadWorld) (t : ThreadId) (c : ConnectionId) (call : ThreadCall) :
    ThreadWorld :=
  { w with executed := w.executed ++ [⟨t, c, call⟩] }

/-- A send buffer has been taken. -/
def beginSend (w : ThreadWorld) (t : ThreadId) (c : ConnectionId) (rest : List BufferId) :
    ThreadWorld :=
  { w with
    sendBufferList := Function.update w.sendBufferList c rest
    sending := Function.update w.sending t (some c) }

def endSend (w : ThreadWorld) (t : ThreadId) : ThreadWorld :=
  { w with sending := Function.update w.sending t none }

/-- `Connection.send(buffer, b, seq)` up to the `put` into the buffer. -/
def send (w : ThreadWorld) (t : ThreadId) (c : ConnectionId) (k : ThreadConnection) :
    ThreadWorld :=
  if t ≠ k.threadId then w.addExternalEvent k.index (.send c)
  else
    match w.sendBufferList c with
    | [] => (w.execute t c .takeSendBuffer).addExternalEvent k.index (.send c)
    | _ :: rest => (w.execute t c .takeSendBuffer).beginSend t c rest

/-- `free(nativeHandle)`: the native connection is deleted, and its event queue is closed. -/
def free (w : ThreadWorld) (t : ThreadId) (c : ConnectionId) (k : ThreadConnection) :
    ThreadWorld :=
  { w.execute t c .free with
    stack := { w.stack with openEqs := w.stack.openEqs.erase k.native.fid } }

/-- `externalHandler.handle()`. -/
def handle (w : ThreadWorld) (t : ThreadId) (h : ThreadHandler) : ThreadWorld :=
  match w.con h.con, h with
  | none, _ => w
  | some k, .send c => w.send t c k
  | some k, .free c => w.free t c k

/-- `waitExternalEvent(index)`. -/
def waitExternalEvent (w : ThreadWorld) (t : ThreadId) (index : ℕ) : ThreadWorld :=
  match w.externalHandlers[index]? with
  | none | some [] => w
  | some (h :: _) =>
      { w with externalHandlers := w.externalHandlers.modify index List.tail }.handle t h

/-- `delCon()`. -/
def delCon (w : ThreadWorld) (c : ConnectionId) : ThreadWorld :=
  match w.con c with
  | none => w
  | some k => w.addExternalEvent k.index (.free c)

/-- `closeConnection(eq)`. -/
def closeConnection (w : ThreadWorld) (eq : Addr) : ThreadWorld :=
  match w.conMap eq with
  | none => w
  | some c => { w.delCon c with conMap := Function.update w.conMap eq none }

/-- A thread that there is, and that has been started if it is a `CqThread`. -/
def Runs (w : ThreadWorld) (t : ThreadId) : Prop :=
  t ≤ w.threadSeqNumber ∧ (w.index t ≠ none → t ∈ w.started)

instance (w : ThreadWorld) (t : ThreadId) : Decidable (w.Runs t) :=
  inferInstanceAs (Decidable (_ ∧ (_ → _)))

/-- One step. -/
def step (w : ThreadWorld) : ThreadOp → Option ThreadWorld
  | .native op => (w.stack.step op).map fun stack => { w with stack := stack }
  | .newThread => some { w with threadSeqNumber := w.threadSeqNumber + 1 }
  | .start => if w.starting = none then some { w with starting := some 0 } else none
  | .makeThread =>
      match w.starting with
      | none => none
      | some i => if i < w.stack.worker_num then some (w.makeThread i) else none
  | .startThreads =>
      w.starting.map fun _ =>
        { w with starting := none, started := startAll w.cqThreads w.started }
  | .establishConnection c eq =>
      match w.con c, w.stack.conMap.find? eq with
      | none, some native => some (w.establishConnection c eq native)
      | _, _ => none
  | .pushSendBuffer eq bufferId =>
      (w.conMap eq).map fun c =>
        { w with
          sendBufferList :=
            Function.update w.sendBufferList c (w.sendBufferList c ++ [bufferId]) }
  | .send t c =>
      match w.con c with
      | none => none
      | some k => if w.Runs t ∧ w.sending t = none then some (w.send t c k) else none
  | .putThrows t => (w.sending t).map fun _ => w.endSend t
  | .nativeSend t => (w.sending t).map fun c => (w.execute t c .send).endSend t
  | .wait_cq_event t =>
      match w.index t with
      | none => none
      | some i =>
          match w.cq_demultiplexer[i]? with
          | none => none
          | some cq =>
              if t ∈ w.started ∧ w.sending t = none then
                some { w with polled := w.polled ++ [(t, cq)] }
              else none
  | .waitExternalEvent t =>
      match w.index t with
      | none => none
      | some i =>
          if t ∈ w.started ∧ w.sending t = none then some (w.waitExternalEvent t i) else none
  | .delCon c => some (w.delCon c)
  | .closeConnection eq => some (w.closeConnection eq)

/-! ## What is confined -/

/-- The `CqThread` of an index. -/
def IsCqThread (w : ThreadWorld) (t : ThreadId) (i : ℕ) : Prop :=
  w.index t = some i ∧ t ∈ w.started

/-- The thread is the `CqThread` of the index of the connection. -/
def Serves (w : ThreadWorld) (t : ThreadId) (c : ConnectionId) : Prop :=
  ∃ k, w.con c = some k ∧ w.IsCqThread t k.index

/-- Every connection is confined to one thread, which polls its completion queue. -/
structure Confined (w : ThreadWorld) : Prop where
  executed : ∀ e ∈ w.executed, w.Serves e.thread e.con
  polled : ∀ p ∈ w.polled, ∀ c k, w.con c = some k → p.2 = k.native.conCq → w.Serves p.1 c
  bound : ∀ c k, w.con c = some k → w.cq_demultiplexer[k.index]? = some k.native.conCq
  unique : ∀ c t t', w.Serves t c → w.Serves t' c → t = t'

/-! ## What the steps keep -/

/-- The threads of the `CqService`.  Only those of the first `start()` are ever started, since a
second one finds the first of them running. -/
structure Threads (w : ThreadWorld) : Prop where
  made : ∀ t ∈ w.cqThreads, t ≤ w.threadSeqNumber
  known : ∀ t i, w.index t = some i → t ∈ w.cqThreads
  started : ∀ t ∈ w.started, t ∈ w.cqThreads
  first : w.started ≠ [] → ∃ t ts, w.cqThreads = t :: ts ∧ t ∈ w.started
  below : w.started = [] → ∀ t i, w.index t = some i → ∃ j, w.starting = some j ∧ i < j
  unique : ∀ t t' i, w.index t = some i → w.index t' = some i →
    (w.started = [] ∨ t ∈ w.started ∧ t' ∈ w.started) → t = t'
  indexMap : ∀ i t, w.indexMap i = some t → w.index t = some i

/-- The index of a connection leads to its thread and to its queue, everywhere. -/
structure Inv (w : ThreadWorld) : Prop where
  threads : w.Threads
  queue : ∀ i < w.stack.worker_num, w.cq_demultiplexer[i]? = some (w.stack.queue i)
  native : ∀ fid con, w.stack.conMap.find? fid = some con →
    w.cq_demultiplexer[con.cq_index]? = some con.conCq
  con : ∀ c k, w.con c = some k →
    w.index k.threadId = some k.index ∧ w.cq_demultiplexer[k.index]? = some k.native.conCq
  handlers : ∀ (i : ℕ) q, w.externalHandlers[i]? = some q →
    ∀ h ∈ q, ∃ k, w.con h.con = some k ∧ k.index = i
  sending : ∀ t c, w.sending t = some c → w.Serves t c
  executed : ∀ e ∈ w.executed, w.Serves e.thread e.con
  polled : ∀ p ∈ w.polled, ∃ i, w.IsCqThread p.1 i ∧ w.cq_demultiplexer[i]? = some p.2

variable {w w' : ThreadWorld} {t : ThreadId} {c : ConnectionId} {k : ThreadConnection} {i : ℕ}

/-! ### The threads -/

theorem startAll_of_mem {ts started : List ThreadId} (h : t ∈ started) :
    startAll (t :: ts) started = started :=
  if_pos h

theorem mem_startAll {x : ThreadId} {ts started : List ThreadId}
    (h : x ∈ startAll ts started) : x ∈ ts ∨ x ∈ started := by
  induction ts generalizing started with
  | nil => exact Or.inr h
  | cons t ts ih =>
    simp only [startAll] at h
    split at h
    · exact Or.inr h
    · rcases ih h with hts | hstarted
      · exact Or.inl (List.mem_cons_of_mem t hts)
      · rcases List.mem_cons.mp hstarted with rfl | hold
        · exact Or.inl List.mem_cons_self
        · exact Or.inr hold

theorem mem_startAll_of_mem {x : ThreadId} {ts started : List ThreadId} (h : x ∈ started) :
    x ∈ startAll ts started := by
  induction ts generalizing started with
  | nil => exact h
  | cons t ts ih =>
    simp only [startAll]
    split
    · exact h
    · exact ih (List.mem_cons_of_mem t h)

/-- The first thread has been started afterwards. -/
theorem head_mem_startAll (t : ThreadId) (ts started : List ThreadId) :
    t ∈ startAll (t :: ts) started := by
  by_cases h : t ∈ started
  · rwa [startAll_of_mem h]
  · rw [startAll, if_neg h]
    exact mem_startAll_of_mem List.mem_cons_self

namespace Threads

/-- A new thread has no index yet. -/
theorem fresh (h : w.Threads) : w.threadSeqNumber + 1 ∉ w.cqThreads :=
  fun hmem => Nat.not_succ_le_self _ (h.made _ hmem)

/-- The index of a new thread is taken by an old one in a second `start()` only, whose threads
are not started. -/
theorem index_free (h : w.Threads) (hi : w.starting = some i) (ht : w.index t = some i) :
    ¬ (w.started = [] ∨ w.threadSeqNumber + 1 ∈ w.started) := by
  rintro (hnil | hin)
  · obtain ⟨j, hj, hlt⟩ := h.below hnil t i ht
    cases hi.symm.trans hj
    exact lt_irrefl _ hlt
  · exact h.fresh (h.started _ hin)

theorem newThread (h : w.Threads) :
    ({ w with threadSeqNumber := w.threadSeqNumber + 1 } : ThreadWorld).Threads :=
  { h with made := fun t ht => (h.made t ht).trans (Nat.le_succ _) }

theorem start (h : w.Threads) (hnone : w.starting = none) :
    ({ w with starting := some 0 } : ThreadWorld).Threads :=
  { h with
    below := fun hstarted t i hi => by
      obtain ⟨j, hj, -⟩ := h.below hstarted t i hi
      rw [hnone] at hj
      cases hj }

theorem makeThread (h : w.Threads) (hi : w.starting = some i) : (w.makeThread i).Threads := by
  have hfresh := h.fresh
  have hold : ∀ t ∈ w.cqThreads, (w.makeThread i).index t = w.index t := by
    intro t ht
    apply Function.update_of_ne
    rintro rfl
    exact hfresh ht
  -- a thread with an index is an old one or the new one
  have hcases : ∀ t j, (w.makeThread i).index t = some j →
      (t = w.threadSeqNumber + 1 ∧ j = i) ∨ t ∈ w.cqThreads ∧ w.index t = some j := by
    intro t j ht
    rcases of_update ht with ⟨rfl, hj⟩ | ⟨-, hj⟩
    · exact Or.inl ⟨rfl, (Option.some.inj hj).symm⟩
    · exact Or.inr ⟨h.known t j hj, hj⟩
  constructor
  · intro t ht
    rcases List.mem_append.mp ht with hold | hnew
    · exact (h.made t hold).trans (Nat.le_succ _)
    · exact (List.mem_singleton.mp hnew).le
  · intro t j ht
    rcases hcases t j ht with ⟨rfl, -⟩ | ⟨hmem, -⟩
    · exact List.mem_append_right _ (List.mem_singleton_self _)
    · exact List.mem_append_left _ hmem
  · exact fun t ht => List.mem_append_left _ (h.started t ht)
  · intro hne
    obtain ⟨t, ts, heq, ht⟩ := h.first hne
    refine ⟨t, ts ++ [w.threadSeqNumber + 1], ?_, ht⟩
    show w.cqThreads ++ _ = _
    rw [heq, List.cons_append]
  · intro hnil t j ht
    refine ⟨i + 1, rfl, ?_⟩
    rcases hcases t j ht with ⟨-, rfl⟩ | ⟨-, hj⟩
    · exact Nat.lt_succ_self _
    · obtain ⟨i', hi', hlt⟩ := h.below hnil t j hj
      cases hi.symm.trans hi'
      exact hlt.trans (Nat.lt_succ_self _)
  · intro t t' j ht ht' hor
    rcases hcases t j ht with ⟨rfl, rfl⟩ | ⟨hmem, hj⟩
    · rcases hcases t' _ ht' with ⟨rfl, -⟩ | ⟨-, hj'⟩
      · rfl
      · exact absurd (hor.imp_right And.left) (h.index_free hi hj')
    · rcases hcases t' j ht' with ⟨rfl, rfl⟩ | ⟨-, hj'⟩
      · exact absurd (hor.imp_right And.right) (h.index_free hi hj)
      · exact h.unique t t' j hj hj' hor
  · intro j t ht
    rcases of_update ht with ⟨rfl, hj⟩ | ⟨-, hj⟩
    · cases hj
      exact Function.update_self ..
    · have hindex := h.indexMap j t hj
      rw [hold t (h.known t j hindex)]
      exact hindex

theorem startThreads (h : w.Threads) :
    ({ w with starting := none, started := startAll w.cqThreads w.started } :
      ThreadWorld).Threads := by
  by_cases hnil : w.started = []
  · refine ⟨h.made, h.known, fun t ht => ?_, fun hne => ?_, fun hempty t i hi => ?_,
      fun t t' i hi hi' _ => h.unique t t' i hi hi' (Or.inl hnil), h.indexMap⟩
    · rcases mem_startAll ht with hmem | hold
      · exact hmem
      · exact h.started t hold
    · cases hts : w.cqThreads with
      | nil =>
        refine absurd ?_ hne
        show startAll w.cqThreads w.started = []
        rw [hts, hnil]
        rfl
      | cons t ts => exact ⟨t, ts, rfl, head_mem_startAll t ts _⟩
    · -- nothing was started, so there is no thread
      have hmem := h.known t i hi
      cases hts : w.cqThreads with
      | nil =>
        rw [hts] at hmem
        cases hmem
      | cons t' ts =>
        have hhead := head_mem_startAll t' ts w.started
        rw [← hts] at hhead
        rw [show startAll w.cqThreads w.started = [] from hempty] at hhead
        cases hhead
  · obtain ⟨t, ts, hts, ht⟩ := h.first hnil
    have hsame : startAll w.cqThreads w.started = w.started := by
      rw [hts]
      exact startAll_of_mem ht
    rw [hsame]
    exact { h with below := fun hempty => absurd hempty hnil }

end Threads

/-! ### The connections -/

/-- What a thread serves it keeps serving. -/
theorem Serves.mono (hcon : ∀ c k, w.con c = some k → w'.con c = some k)
    (hthread : ∀ t i, w.IsCqThread t i → w'.IsCqThread t i) (h : w.Serves t c) :
    w'.Serves t c := by
  obtain ⟨k, hk, ht⟩ := h
  exact ⟨k, hcon c k hk, hthread t k.index ht⟩

namespace Inv

/-- The thread that passes the test of `send` is the one of the connection. -/
theorem serves_threadId (h : w.Inv) (hk : w.con c = some k) (hruns : w.Runs k.threadId) :
    w.Serves k.threadId c := by
  have hindex := (h.con c k hk).1
  refine ⟨k, hk, hindex, hruns.2 ?_⟩
  rw [hindex]
  exact Option.some_ne_none _

/-- A thread of the service that handles the queue of a connection. -/
theorem serves_of_handler (h : w.Inv) {q : List ThreadHandler} {hd : ThreadHandler}
    (hq : w.externalHandlers[i]? = some q) (hmem : hd ∈ q) (ht : w.IsCqThread t i) :
    w.Serves t hd.con := by
  obtain ⟨k, hk, rfl⟩ := h.handlers i q hq hd hmem
  exact ⟨k, hk, ht⟩

theorem execute (h : w.Inv) (call : ThreadCall) (hs : w.Serves t c) :
    (w.execute t c call).Inv :=
  { h with
    threads := { h.threads with }
    executed := fun e he => by
      rcases List.mem_append.mp he with hold | hnew
      · exact h.executed e hold
      · cases List.mem_singleton.mp hnew
        exact hs }

theorem addExternalEvent (h : w.Inv) (hd : ThreadHandler) (hk : w.con hd.con = some k) :
    (w.addExternalEvent k.index hd).Inv :=
  { h with
    threads := { h.threads with }
    handlers := fun i q hq hd' hmem => by
      rw [ThreadWorld.addExternalEvent, List.getElem?_modify] at hq
      obtain ⟨q', hq', rfl⟩ := Option.map_eq_some_iff.mp hq
      split at hmem
      · rename_i hi
        rcases List.mem_append.mp hmem with hold | hnew
        · exact h.handlers i q' hq' hd' hold
        · cases List.mem_singleton.mp hnew
          exact ⟨k, hk, hi⟩
      · exact h.handlers i q' hq' hd' hmem }

/-- `externalHandlerQueue.poll()`. -/
theorem poll (h : w.Inv) (i : ℕ) :
    ({ w with externalHandlers := w.externalHandlers.modify i List.tail } : ThreadWorld).Inv :=
  { h with
    threads := { h.threads with }
    handlers := fun j q hq hd hmem => by
      rw [List.getElem?_modify] at hq
      obtain ⟨q', hq', rfl⟩ := Option.map_eq_some_iff.mp hq
      split at hmem
      · exact h.handlers j q' hq' hd (List.mem_of_mem_tail hmem)
      · exact h.handlers j q' hq' hd hmem }

theorem beginSend (h : w.Inv) (rest : List BufferId) (hs : w.Serves t c) :
    (w.beginSend t c rest).Inv :=
  { h with
    threads := { h.threads with }
    sending := fun t' c' hc' => by
      rcases of_update hc' with ⟨rfl, heq⟩ | ⟨-, hold⟩
      · cases heq
        exact hs
      · exact h.sending t' c' hold }

theorem endSend (h : w.Inv) (t : ThreadId) : (w.endSend t).Inv :=
  { h with
    threads := { h.threads with }
    sending := fun t' c' hc' => by
      rcases of_update hc' with ⟨-, heq⟩ | ⟨-, hold⟩
      · cases heq
      · exact h.sending t' c' hold }

theorem send (h : w.Inv) (hk : w.con c = some k) (hruns : w.Runs t) : (w.send t c k).Inv := by
  unfold ThreadWorld.send
  split
  · exact h.addExternalEvent (.send c) hk
  · rename_i heq
    have ht : t = k.threadId := not_not.mp heq
    have hs : w.Serves t c := by
      subst ht
      exact h.serves_threadId hk hruns
    have htake := h.execute .takeSendBuffer hs
    split
    · exact htake.addExternalEvent (.send c) hk
    · exact htake.beginSend _ hs

theorem free (h : w.Inv) (hs : w.Serves t c) : (w.free t c k).Inv :=
  { h.execute .free hs with
    threads := { h.threads with }
    native := h.native }

theorem handle (h : w.Inv) (hd : ThreadHandler) (hruns : w.Runs t) (hs : w.Serves t hd.con) :
    (w.handle t hd).Inv := by
  unfold ThreadWorld.handle
  split
  · exact h
  · rename_i k c hk
    exact h.send hk hruns
  · rename_i k c hk
    exact h.free hs

theorem waitExternalEvent (h : w.Inv) (hruns : w.Runs t) (ht : w.IsCqThread t i) :
    (w.waitExternalEvent t i).Inv := by
  unfold ThreadWorld.waitExternalEvent
  split
  · exact h
  · exact h
  · rename_i hd q hq
    have hs := h.serves_of_handler hq List.mem_cons_self ht
    exact (h.poll i).handle hd hruns hs

theorem delCon (h : w.Inv) (c : ConnectionId) : (w.delCon c).Inv := by
  unfold ThreadWorld.delCon
  split
  · exact h
  · rename_i k hk
    exact h.addExternalEvent (.free c) hk

theorem closeConnection (h : w.Inv) (eq : Addr) : (w.closeConnection eq).Inv := by
  unfold ThreadWorld.closeConnection
  split
  · exact h
  · rename_i c _
    have hdel := h.delCon c
    exact { hdel with threads := { hdel.threads with } }

/-- **A connection is set up**: the map leads from its index to its thread, and the native
connection is bound to the queue of that index. -/
theorem establishConnection (h : w.Inv) (hc : w.con c = none) {eq : Addr}
    {native : WorkerConnection} (hnative : w.stack.conMap.find? eq = some native) :
    (w.establishConnection c eq native).Inv := by
  unfold ThreadWorld.establishConnection
  split
  · exact h
  · rename_i threadId hthread
    set k : ThreadConnection := ⟨eq, native, native.cq_index, threadId⟩ with hk
    have hcon : ∀ c' k', w.con c' = some k' → Function.update w.con c (some k) c' = some k' := by
      intro c' k' hc'
      have hne : c' ≠ c := by
        rintro rfl
        rw [hc] at hc'
        cases hc'
      rw [Function.update_of_ne hne]
      exact hc'
    have hmono : ∀ t c', w.Serves t c' → ∃ k', Function.update w.con c (some k) c' = some k' ∧
        w.IsCqThread t k'.index := by
      rintro t c' ⟨k', hk', ht⟩
      exact ⟨k', hcon c' k' hk', ht⟩
    exact
      { h with
        threads := { h.threads with }
        con := fun c' k' hc' => by
          rcases of_update hc' with ⟨-, heq⟩ | ⟨-, hold⟩
          · cases heq
            exact ⟨h.threads.indexMap _ _ hthread, h.native eq native hnative⟩
          · exact h.con c' k' hold
        handlers := fun i q hq hd hmem => by
          obtain ⟨k', hk', hi⟩ := h.handlers i q hq hd hmem
          exact ⟨k', hcon _ k' hk', hi⟩
        sending := fun t c' hc' => hmono t c' (h.sending t c' hc')
        executed := fun e he => hmono e.thread e.con (h.executed e he) }

/-- The native stack moves. -/
theorem setStack (h : w.Inv) {op : WorkerOp} {stack : WorkerStack}
    (hstep : w.stack.step op = some stack) : ({ w with stack := stack } : ThreadWorld).Inv := by
  obtain ⟨hnum, hqueue, hmap⟩ := WorkerStack.step_conMap op hstep
  refine { h with threads := { h.threads with }, queue := fun i hi => ?_,
                  native := fun f con hcon => ?_ }
  · rw [hqueue i]
    exact h.queue i (hnum ▸ hi)
  · rcases hmap f con hcon with hold | ⟨fid, rfl⟩
    · exact h.native f con hold
    · rw [WorkerStack.queue_next]
      exact h.queue _ (Nat.mod_lt _ w.stack.worker_num_pos)

theorem makeThread (h : w.Inv) (hi : w.starting = some i) : (w.makeThread i).Inv := by
  have hindex : ∀ t j, w.index t = some j → (w.makeThread i).index t = some j := by
    intro t j ht
    have hne : t ≠ w.threadSeqNumber + 1 := by
      rintro rfl
      exact h.threads.fresh (h.threads.known _ j ht)
    exact (Function.update_of_ne hne _ _).trans ht
  have hthread : ∀ t j, w.IsCqThread t j → (w.makeThread i).IsCqThread t j := fun t j ht =>
    ⟨hindex t j ht.1, ht.2⟩
  have hserves : ∀ t c, w.Serves t c → (w.makeThread i).Serves t c := fun t c ht =>
    Serves.mono (w := w) (fun _ _ hk => hk) hthread ht
  refine { h with threads := h.threads.makeThread hi, con := fun c k hk => ?_,
                  handlers := fun j q hq hd hmem => ?_,
                  sending := fun t c hc => hserves t c (h.sending t c hc),
                  executed := fun e he => hserves e.thread e.con (h.executed e he),
                  polled := fun p hp => ?_ }
  · exact ⟨hindex _ _ (h.con c k hk).1, (h.con c k hk).2⟩
  · -- the new queue is empty
    replace hq : (w.externalHandlers ++ [[]])[j]? = some q := hq
    rcases Nat.lt_or_ge j w.externalHandlers.length with hj | hj
    · rw [List.getElem?_append_left hj] at hq
      exact h.handlers j q hq hd hmem
    · rw [List.getElem?_append_right hj, List.getElem?_singleton] at hq
      split at hq
      · cases hq
        cases hmem
      · cases hq
  · obtain ⟨j, ht, hj⟩ := h.polled p hp
    exact ⟨j, hthread p.1 j ht, hj⟩

theorem startThreads (h : w.Inv) :
    ({ w with starting := none, started := startAll w.cqThreads w.started } :
      ThreadWorld).Inv := by
  have hthread : ∀ t j, w.IsCqThread t j →
      ({ w with starting := none, started := startAll w.cqThreads w.started } :
        ThreadWorld).IsCqThread t j := fun t j ht => ⟨ht.1, mem_startAll_of_mem ht.2⟩
  have hserves : ∀ t c, w.Serves t c →
      ({ w with starting := none, started := startAll w.cqThreads w.started } :
        ThreadWorld).Serves t c := fun t c ht =>
    Serves.mono (w := w) (fun _ _ hk => hk) hthread ht
  refine { h with threads := h.threads.startThreads,
                  sending := fun t c hc => hserves t c (h.sending t c hc),
                  executed := fun e he => hserves e.thread e.con (h.executed e he),
                  polled := fun p hp => ?_ }
  obtain ⟨j, ht, hj⟩ := h.polled p hp
  exact ⟨j, hthread p.1 j ht, hj⟩

theorem wait_cq_event (h : w.Inv) {cq : Addr} (ht : w.IsCqThread t i)
    (hcq : w.cq_demultiplexer[i]? = some cq) :
    ({ w with polled := w.polled ++ [(t, cq)] } : ThreadWorld).Inv :=
  { h with
    threads := { h.threads with }
    polled := fun p hp => by
      rcases List.mem_append.mp hp with hold | hnew
      · exact h.polled p hold
      · cases List.mem_singleton.mp hnew
        exact ⟨i, ht, hcq⟩ }

end Inv

/-! ## Confinement -/

theorem inv_init (n : ℕ) (hpos : 0 < n) (hle : n ≤ MAX_WORKERS) (cqs : Fin n ↪ Addr) :
    (init n hpos hle cqs).Inv where
  threads := by constructor <;> simp [init]
  queue := by
    intro i hi
    replace hi : i < n := hi
    simp [init, WorkerStack.init, WorkerStack.queue, Nat.mod_eq_of_lt hi, hi]
  native := by simp [init, WorkerStack.init]
  con := by simp [init]
  handlers := by simp [init]
  sending := by simp [init]
  executed := by simp [init]
  polled := by simp [init]

theorem inv_step (op : ThreadOp) (h : w.Inv) (hstep : w.step op = some w') : w'.Inv := by
  cases op with
  | native op =>
    obtain ⟨stack, hstack, rfl⟩ := Option.map_eq_some_iff.mp hstep
    exact h.setStack hstack
  | newThread =>
    cases hstep
    exact { h with threads := h.threads.newThread }
  | start =>
    simp only [step] at hstep
    split at hstep
    · rename_i hnone
      cases hstep
      exact { h with threads := h.threads.start hnone }
    · cases hstep
  | makeThread =>
    simp only [step] at hstep
    split at hstep
    · cases hstep
    · rename_i i hi
      split at hstep
      · cases hstep
        exact h.makeThread hi
      · cases hstep
  | startThreads =>
    obtain ⟨-, -, rfl⟩ := Option.map_eq_some_iff.mp hstep
    exact h.startThreads
  | establishConnection c eq =>
    simp only [step] at hstep
    split at hstep
    · rename_i native hc hnative
      cases hstep
      exact h.establishConnection hc hnative
    · cases hstep
  | pushSendBuffer eq bufferId =>
    obtain ⟨c, -, rfl⟩ := Option.map_eq_some_iff.mp hstep
    exact { h with threads := { h.threads with } }
  | send t c =>
    simp only [step] at hstep
    split at hstep
    · cases hstep
    · rename_i k hk
      split at hstep
      · rename_i hruns
        cases hstep
        exact h.send hk hruns.1
      · cases hstep
  | putThrows t =>
    obtain ⟨c, -, rfl⟩ := Option.map_eq_some_iff.mp hstep
    exact h.endSend t
  | nativeSend t =>
    obtain ⟨c, hc, rfl⟩ := Option.map_eq_some_iff.mp hstep
    exact (h.execute .send (h.sending t c hc)).endSend t
  | wait_cq_event t =>
    simp only [step] at hstep
    split at hstep
    · cases hstep
    · rename_i i hi
      split at hstep
      · cases hstep
      · rename_i cq hcq
        split at hstep
        · rename_i hstarted
          cases hstep
          exact h.wait_cq_event ⟨hi, hstarted.1⟩ hcq
        · cases hstep
  | waitExternalEvent t =>
    simp only [step] at hstep
    split at hstep
    · cases hstep
    · rename_i i hi
      split at hstep
      · rename_i hstarted
        cases hstep
        have hmade := h.threads.made t (h.threads.known t i hi)
        exact h.waitExternalEvent ⟨hmade, fun _ => hstarted.1⟩ ⟨hi, hstarted.1⟩
      · cases hstep
  | delCon c =>
    cases hstep
    exact h.delCon c
  | closeConnection eq =>
    cases hstep
    exact h.closeConnection eq

theorem Inv.confined (h : w.Inv) : w.Confined where
  executed := h.executed
  polled := by
    intro p hp c k hk hcq
    obtain ⟨i, ht, hi⟩ := h.polled p hp
    -- different demultiplexers have different queues
    have hbound := (h.con c k hk).2
    rw [← hcq, ← hi] at hbound
    have hlt : k.index < w.cq_demultiplexer.length := by
      rw [hi] at hbound
      exact (List.getElem?_eq_some_iff.mp hbound).1
    have hindex : k.index = i := (List.getElem?_inj hlt w.distinct).mp hbound
    exact ⟨k, hk, hindex ▸ ht⟩
  bound := fun c k hk => (h.con c k hk).2
  unique := by
    rintro c t t' ⟨k, hk, ht⟩ ⟨k', hk', ht'⟩
    cases hk.symm.trans hk'
    exact h.threads.unique t t' k.index ht.1 ht'.1 (Or.inr ⟨ht.2, ht'.2⟩)

/-- **In every run, whatever threads call `send` and whenever connections are closed, a
connection is confined to its thread.** -/
theorem confined_always (n : ℕ) (hpos : 0 < n) (hle : n ≤ MAX_WORKERS) (cqs : Fin n ↪ Addr)
    (ops : List ThreadOp) : Always step Confined (init n hpos hle cqs) ops := by
  have hinv : Always step Inv (init n hpos hle cqs) ops :=
    always_of_meets (fun _ op _ h _ hstep => inv_step op h hstep) (inv_init n hpos hle cqs)
      (meets_true _ ops)
  exact hinv.mono fun _ h => h.confined

/-- Two completion queues. -/
def twoQueues : Fin 2 ↪ Addr :=
  ⟨fun i => 100 + i.val, fun _ _ h => Fin.ext (Nat.add_left_cancel h)⟩

/-- Two connections; thread 3 sends on the first of them, which has no buffer at first, and
thread 2 on the second one, while the first one is closed. -/
def sendAndClose : List ThreadOp :=
  [.start, .makeThread, .makeThread, .startThreads, .newThread,
    .native (.accept true 11 true true), .native (.accept true 12 true true),
    .establishConnection 0 11, .establishConnection 1 12, .send 3 0, .waitExternalEvent 1,
    .pushSendBuffer 11 7, .pushSendBuffer 12 8, .send 2 1, .waitExternalEvent 1, .nativeSend 2,
    .wait_cq_event 2, .closeConnection 11, .nativeSend 1, .wait_cq_event 1, .waitExternalEvent 1]

theorem confined_sendAndClose :
    (run step (init 2 (by decide) (by decide) twoQueues) sendAndClose).map
        (fun w => (w.executed, w.polled)) =
      some ([⟨1, 0, .takeSendBuffer⟩, ⟨2, 1, .takeSendBuffer⟩, ⟨1, 0, .takeSendBuffer⟩,
        ⟨2, 1, .send⟩, ⟨1, 0, .send⟩, ⟨1, 0, .free⟩], [(2, 101), (1, 100)]) ∧
    Always step Confined (init 2 (by decide) (by decide) twoQueues) sendAndClose :=
  ⟨by decide +kernel, confined_always 2 (by decide) (by decide) twoQueues sendAndClose⟩

end ThreadWorld

end Hpnl
