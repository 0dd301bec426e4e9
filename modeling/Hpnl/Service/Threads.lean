import Hpnl.Lib.Transition

/-!
# The threads of a service

`Service::start` starts a thread for each queue; each runs `ThreadWrapper::thread_body`, and
what it handles calls the callbacks of the user.  `shutdown()` stops and joins the threads one
after the other, and `wait()` joins the event thread
(`src/src/service/Service.cc`, `src/src/demultiplexer/ThreadWrapper.h`).  One thread of the
application calls them, `start()` once, and a callback may call `shutdown()`, and nothing else,
on the thread it runs on.

* `ServiceThreads`, `ThreadsOp`, `step` — the threads, the calls in progress, and what can
  happen.
* `AfterStart` — no callback calls `shutdown()` before `start()` has returned.
* `body_cases` — what a step of a thread can do.
* `Inv`, `inv_step` — the invariant, kept by every such step.
* `shutdown_returned` — **when a call of `shutdown()` has returned, the application made it,
  and every thread that was started before it has ended and is joined**.
* `one_more_entry` — **a thread begins at most one `entry` after it has been stopped**.
-/

namespace Hpnl

open Transition

/-- `cqThread[i]`, `eqThread` and `rdmCqThread`. -/
inductive ServiceThread where
  | cq (i : ℕ)
  | eq
  | rdm
  deriving DecidableEq, Repr

/-- Who calls a function of the service: the application, or a callback on a thread. -/
inductive Caller where
  | app
  | thread (t : ServiceThread)
  deriving DecidableEq, Repr

theorem Caller.app_of_ne (c : Caller) (h : ∀ t, c ≠ .thread t) : c = .app := by
  cases c with
  | app => rfl
  | thread t => exact absurd rfl (h t)

/-- Where `thread_body` is. -/
inductive ThreadBody where
  /-- At the top of the loop. -/
  | loop
  | inEntry
  /-- In `entry`, which waits for a connection to be `CONNECTED` (`CqDemultiplexer::wait_event`). -/
  | waiting
  /-- `entry` has returned, and `done` is not yet read. -/
  | returned (ret : ℤ)
  | ended
  deriving DecidableEq, Repr

/-- The member `thread`: `start()` makes a thread, which runs at once, and then assigns it. -/
inductive StdThread where
  | unassigned
  | joinable
  | joined
  deriving DecidableEq, Repr

/-- A `ThreadWrapper` that has been started.  `joiner` is who waits in `pthread_join`;
`afterStop` counts the entries begun when `done` was set. -/
structure ThreadWrapper where
  thread : StdThread
  done : Bool
  body : ThreadBody
  joiner : Option Caller
  afterStop : ℕ
  deriving DecidableEq, Repr

/-- `std::thread(&ThreadWrapper::thread_body, this)`. -/
def ThreadWrapper.started : ThreadWrapper :=
  { thread := .unassigned
    done := false
    body := .loop
    joiner := none
    afterStop := 0 }

/-- The thread has ended, and its `std::thread` may be destroyed. -/
def ThreadWrapper.Down (x : ThreadWrapper) : Prop := x.body = .ended ∧ x.thread = .joined

/-- A statement of a function of the service. -/
inductive ThreadStatement where
  /-- `xThread = new XThread(…); xThread->start()`, until the thread runs. -/
  | start (t : ServiceThread)
  /-- `thread = ` the thread that runs. -/
  | assign (t : ServiceThread)
  /-- `if (xThread) { xThread->stop(); xThread->join(); }`. -/
  | shutdown (t : ServiceThread)
  /-- `if (xThread) { xThread->join(); }`. -/
  | wait (t : ServiceThread)
  | stop (t : ServiceThread)
  | join (t : ServiceThread)
  /-- The call that `std::thread::join` makes. -/
  | pthread_join (t : ServiceThread)
  deriving DecidableEq, Repr

/-- The function that a caller is in. -/
inductive ThreadFunction where
  | start
  | shutdown
  | wait
  deriving DecidableEq, Repr

/-- A call: what is left of it, and the threads that were started when it was made. -/
structure FunctionCall where
  function : ThreadFunction
  rest : List ThreadStatement
  started : List ServiceThread
  deriving DecidableEq, Repr

/-- A call that has returned. -/
structure FunctionReturn where
  caller : Caller
  function : ThreadFunction
  started : List ServiceThread
  deriving DecidableEq, Repr

/-- The threads of a service, null before they are started, the call each caller is in, and
the calls that have returned without an exception. -/
structure ServiceThreads where
  thread : ServiceThread → Option ThreadWrapper
  call : Caller → Option FunctionCall
  started : List ServiceThread
  returns : List FunctionReturn

/-- A step of `thread_body`. -/
inductive BodyStep where
  /-- `entry` is called. -/
  | enter
  | leave (ret : ℤ)
  /-- A message has come before its connection is `CONNECTED`: `con_cv.wait`. -/
  | wait
  | connected
  | throw
  /-- `done.load() || ret == -1`. -/
  | check
  deriving DecidableEq, Repr

inductive ThreadsOp where
  /-- A function is called, and runs up to its first statement. -/
  | call (c : Caller) (f : ThreadFunction)
  /-- The next statement of a call. -/
  | exec (c : Caller)
  | body (t : ServiceThread) (b : BodyStep)
  deriving DecidableEq, Repr

namespace Service

/-- `Service::start`. -/
def start (worker_num : ℕ) (msg : Bool) : List ThreadStatement :=
  if msg then .start .eq :: (List.range worker_num).map fun i => .start (.cq i)
  else [.start .rdm]

/-- `Service::shutdown`. -/
def shutdown (worker_num : ℕ) : List ThreadStatement :=
  (List.range worker_num).map (fun i => .shutdown (.cq i)) ++ [.shutdown .eq, .shutdown .rdm]

/-- `Service::wait`. -/
def wait : List ThreadStatement := [.wait .eq, .wait .rdm]

def statements (worker_num : ℕ) (msg : Bool) : ThreadFunction → List ThreadStatement
  | .start => start worker_num msg
  | .shutdown => shutdown worker_num
  | .wait => wait

end Service

namespace ServiceThreads

variable (worker_num : ℕ) (msg : Bool)

/-- A service whose `init` has succeeded. -/
def init : ServiceThreads :=
  { thread := fun _ => none
    call := fun _ => none
    started := []
    returns := [] }

/-- A thread that exists is changed. -/
def setThread (s : ServiceThreads) (t : ServiceThread) (x : ThreadWrapper) : ServiceThreads :=
  { s with thread := Function.update s.thread t (some x) }

/-- The call of a caller is changed. -/
def setCall (s : ServiceThreads) (c : Caller) (k : Option FunctionCall) : ServiceThreads :=
  { s with call := Function.update s.call c k }

/-- An exception leaves the function: the application gets it, and `thread_body` catches it. -/
def raise (s : ServiceThreads) : Caller → ServiceThreads
  | .app => s.setCall .app none
  | .thread t =>
      match s.thread t with
      | none => s
      | some x => (s.setCall (.thread t) none).setThread t { x with body := .ended }

/-- A function may be called: the application is in no other one, and starts the threads
once; a callback calls `shutdown` on a thread that is in `entry`. -/
def mayCall (s : ServiceThreads) : Caller → ThreadFunction → Prop
  | .app, f => s.call .app = none ∧ (f = .start → s.started = [])
  | .thread t, f =>
      f = .shutdown ∧ s.call (.thread t) = none ∧ (s.thread t).map (·.body) = some .inEntry

instance (s : ServiceThreads) (c : Caller) (f : ThreadFunction) : Decidable (s.mayCall c f) :=
  match c with
  | .app => inferInstanceAs (Decidable (_ ∧ (f = .start → _)))
  | .thread _ => inferInstanceAs (Decidable (_ ∧ _ ∧ _))

/-- `ThreadWrapper::join`.  The `std::thread` is joined if it is joinable, with an error when
it is the calling thread or another one joins it; otherwise `done` is waited for, also when
`start()` has not assigned the thread yet. -/
def join (s : ServiceThreads) (c : Caller) (k : FunctionCall) (t : ServiceThread)
    (x : ThreadWrapper) (rest : List ThreadStatement) : Option ServiceThreads :=
  if x.thread = .joinable then
    if c = .thread t ∨ x.joiner ≠ none then some (s.raise c)
    else some ((s.setThread t { x with joiner := some c }).setCall c
      (some { k with rest := .pthread_join t :: rest }))
  else if x.done then some (s.setCall c (some { k with rest := rest }))
  else none

/-- A statement. -/
def statement (s : ServiceThreads) (c : Caller) (k : FunctionCall)
    (rest : List ThreadStatement) : ThreadStatement → Option ServiceThreads
  | .start t =>
      some { s.setThread t .started with
        call := Function.update s.call c (some { k with rest := .assign t :: rest })
        started := t :: s.started }
  | .assign t =>
      match s.thread t with
      | none => none
      | some x => some ((s.setThread t { x with thread := .joinable }).setCall c
          (some { k with rest := rest }))
  | .shutdown t =>
      some (s.setCall c (some { k with
        rest := if s.thread t = none then rest else .stop t :: .join t :: rest }))
  | .wait t =>
      some (s.setCall c (some { k with
        rest := if s.thread t = none then rest else .join t :: rest }))
  | .stop t =>
      match s.thread t with
      | none => none
      | some x => some ((s.setThread t { x with done := true }).setCall c
          (some { k with rest := rest }))
  | .join t =>
      match s.thread t with
      | none => none
      | some x => s.join c k t x rest
  | .pthread_join t =>
      match s.thread t with
      | none => none
      | some x =>
          if x.body = .ended then
            some ((s.setThread t { x with thread := .joined, joiner := none }).setCall c
              (some { k with rest := rest }))
          else none

/-- A step of `thread_body`; `calling` is whether a callback is in a function of the service. -/
def body (calling : Bool) (x : ThreadWrapper) : BodyStep → Option ThreadWrapper
  | .enter =>
      if x.body = .loop then
        some { x with body := .inEntry, afterStop := x.afterStop + if x.done then 1 else 0 }
      else none
  | .leave ret =>
      if x.body = .inEntry ∧ calling = false then some { x with body := .returned ret } else none
  | .wait => if x.body = .inEntry ∧ calling = false then some { x with body := .waiting } else none
  | .connected => if x.body = .waiting then some { x with body := .inEntry } else none
  | .throw => if x.body = .inEntry ∧ calling = false then some { x with body := .ended } else none
  | .check =>
      match x.body with
      | .returned ret => some { x with body := if x.done ∨ ret = -1 then .ended else .loop }
      | .loop | .inEntry | .waiting | .ended => none

/-- One step. -/
def step (s : ServiceThreads) : ThreadsOp → Option ServiceThreads
  | .call c f =>
      if s.mayCall c f then
        some (s.setCall c (some ⟨f, Service.statements worker_num msg f, s.started⟩))
      else none
  | .exec c =>
      match s.call c with
      | none => none
      | some k =>
          match k.rest with
          | [] => some { s.setCall c none with returns := ⟨c, k.function, k.started⟩ :: s.returns }
          | a :: rest => s.statement c k rest a
  | .body t b =>
      match s.thread t with
      | none => none
      | some x => (body (s.call (.thread t)).isSome x b).map (s.setThread t)

/-- A callback calls `shutdown()` only when the application is not in `start()`. -/
def AfterStart (s : ServiceThreads) : ThreadsOp → Prop
  | .call (.thread _) _ => (s.call .app).map (·.function) ≠ some .start
  | .call .app _ | .exec _ | .body _ _ => True

instance (s : ServiceThreads) : (op : ThreadsOp) → Decidable (s.AfterStart op)
  | .call (.thread _) _ => inferInstanceAs (Decidable (_ ≠ _))
  | .call .app _ | .exec _ | .body _ _ => isTrue trivial

variable {worker_num msg} {s s' : ServiceThreads} {c : Caller} {t : ServiceThread}
  {x y : ThreadWrapper} {k : FunctionCall}

@[simp] theorem setThread_thread (s : ServiceThreads) (t : ServiceThread) (x : ThreadWrapper) :
    (s.setThread t x).thread = Function.update s.thread t (some x) := rfl
@[simp] theorem setThread_call (s : ServiceThreads) (t : ServiceThread) (x : ThreadWrapper) :
    (s.setThread t x).call = s.call := rfl
@[simp] theorem setThread_started (s : ServiceThreads) (t : ServiceThread) (x : ThreadWrapper) :
    (s.setThread t x).started = s.started := rfl
@[simp] theorem setThread_returns (s : ServiceThreads) (t : ServiceThread) (x : ThreadWrapper) :
    (s.setThread t x).returns = s.returns := rfl
@[simp] theorem setCall_thread (s : ServiceThreads) (c : Caller) (k : Option FunctionCall) :
    (s.setCall c k).thread = s.thread := rfl
@[simp] theorem setCall_call (s : ServiceThreads) (c : Caller) (k : Option FunctionCall) :
    (s.setCall c k).call = Function.update s.call c k := rfl
@[simp] theorem setCall_started (s : ServiceThreads) (c : Caller) (k : Option FunctionCall) :
    (s.setCall c k).started = s.started := rfl
@[simp] theorem setCall_returns (s : ServiceThreads) (c : Caller) (k : Option FunctionCall) :
    (s.setCall c k).returns = s.returns := rfl

/-- The exception ends the thread. -/
theorem raise_thread (hx : s.thread t = some x) : s.raise (.thread t) =
    (s.setCall (.thread t) none).setThread t { x with body := .ended } := by
  simp only [raise, hx]

theorem raise_thread_of_none (hx : s.thread t = none) : s.raise (.thread t) = s := by
  simp only [raise, hx]

/-! ## The functions, thread by thread -/

end ServiceThreads

namespace ThreadFunction

variable (worker_num : ℕ) (msg : Bool)

/-- The statement of a function about a thread. -/
def test : ThreadFunction → ServiceThread → ThreadStatement
  | .start => .start
  | .shutdown => .shutdown
  | .wait => .wait

/-- The threads a function is about, in their order. -/
def threads : ThreadFunction → List ServiceThread
  | .start => if msg then .eq :: (List.range worker_num).map .cq else [.rdm]
  | .shutdown => (List.range worker_num).map .cq ++ [.eq, .rdm]
  | .wait => [.eq, .rdm]

theorem statements_eq (f : ThreadFunction) :
    Service.statements worker_num msg f = (f.threads worker_num msg).map f.test := by
  cases f with
  | start =>
    cases msg
    · rfl
    · simp [Service.statements, Service.start, threads, test]
  | shutdown => simp [Service.statements, Service.shutdown, threads, test]
  | wait => rfl

/-- What is started will be shut down. -/
theorem threads_start_subset :
    threads worker_num msg .start ⊆ threads worker_num msg .shutdown := by
  intro t ht
  cases msg
  · have hrdm : t = .rdm := by simpa [threads] using ht
    exact hrdm ▸ List.mem_append_right _ (by decide)
  · simp only [threads, if_true, List.mem_cons] at ht
    simp only [threads, List.mem_append, List.mem_cons, List.not_mem_nil, or_false]
    tauto

theorem nodup_threads (f : ThreadFunction) : (f.threads worker_num msg).Nodup := by
  have hcq : ((List.range worker_num).map ServiceThread.cq).Nodup :=
    List.nodup_range.map fun i j h => by injection h
  cases f with
  | start =>
    cases msg
    · exact List.nodup_singleton _
    · exact List.nodup_cons.mpr ⟨by simp, hcq⟩
  | shutdown => exact hcq.append (by decide) (by simp [List.disjoint_left])
  | wait => exact (by decide : [ServiceThread.eq, .rdm].Nodup)

/-- What a function has left to do: the threads `ts`, the first of them half done. -/
inductive Rest (f : ThreadFunction) : List ServiceThread → List ThreadStatement → Prop
  | test (ts : List ServiceThread) : Rest f ts (ts.map f.test)
  | assign (t : ServiceThread) (ts : List ServiceThread) (h : f = .start) :
      Rest f ts (.assign t :: ts.map f.test)
  | stop (t : ServiceThread) (ts : List ServiceThread) (h : f = .shutdown) :
      Rest f (t :: ts) (.stop t :: .join t :: ts.map f.test)
  | join (t : ServiceThread) (ts : List ServiceThread) (h : f ≠ .start) :
      Rest f (t :: ts) (.join t :: ts.map f.test)
  | pthread_join (t : ServiceThread) (ts : List ServiceThread) (h : f ≠ .start) :
      Rest f (t :: ts) (.pthread_join t :: ts.map f.test)

theorem Rest.cases_cons {f : ThreadFunction} {ts : List ServiceThread} {a : ThreadStatement}
    {rest : List ThreadStatement} (h : f.Rest ts (a :: rest)) :
    (∃ t, a = .assign t ∧ rest = ts.map f.test ∧ f = .start) ∨ ∃ t us, ts = t :: us ∧
      (a = f.test t ∧ rest = us.map f.test ∨
        a = .stop t ∧ rest = .join t :: us.map f.test ∧ f = .shutdown ∨
        (a = .join t ∨ a = .pthread_join t) ∧ rest = us.map f.test ∧ f ≠ .start) := by
  generalize hl : a :: rest = l at h
  cases h with
  | test ts =>
    cases ts with
    | nil => exact absurd hl (by simp)
    | cons t us =>
      obtain ⟨rfl, rfl⟩ := List.cons.inj hl
      exact Or.inr ⟨t, us, rfl, Or.inl ⟨rfl, rfl⟩⟩
  | assign t _ hf =>
    obtain ⟨rfl, rfl⟩ := List.cons.inj hl
    exact Or.inl ⟨t, rfl, rfl, hf⟩
  | stop t us hf =>
    obtain ⟨rfl, rfl⟩ := List.cons.inj hl
    exact Or.inr ⟨t, us, rfl, Or.inr (Or.inl ⟨rfl, rfl, hf⟩)⟩
  | join t us hf =>
    obtain ⟨rfl, rfl⟩ := List.cons.inj hl
    exact Or.inr ⟨t, us, rfl, Or.inr (Or.inr ⟨Or.inl rfl, rfl, hf⟩)⟩
  | pthread_join t us hf =>
    obtain ⟨rfl, rfl⟩ := List.cons.inj hl
    exact Or.inr ⟨t, us, rfl, Or.inr (Or.inr ⟨Or.inr rfl, rfl, hf⟩)⟩

section

variable {f g : ThreadFunction} {ts : List ServiceThread} {t : ServiceThread}
  {rest : List ThreadStatement}

theorem test_inj {u : ServiceThread} (h : g.test t = f.test u) : f = g ∧ t = u := by
  cases f <;> cases g <;> simp_all [test]

/-- A test is of the function it belongs to. -/
theorem Rest.of_test (h : f.Rest ts (g.test t :: rest)) :
    f = g ∧ ∃ us, ts = t :: us ∧ rest = us.map f.test := by
  obtain ⟨u, ht, -⟩ | ⟨u, us, rfl, ⟨ht, hrest⟩ | ⟨ht, -⟩ | ⟨ht | ht, -⟩⟩ := h.cases_cons
  · exact absurd ht (by cases g <;> simp [ThreadFunction.test])
  · obtain ⟨rfl, rfl⟩ := test_inj ht
    exact ⟨rfl, us, rfl, hrest⟩
  all_goals exact absurd ht (by cases g <;> simp [ThreadFunction.test])

theorem Rest.of_assign (h : f.Rest ts (.assign t :: rest)) : f = .start ∧ rest = ts.map f.test := by
  obtain ⟨u, -, hrest, hf⟩ | ⟨u, us, rfl, ⟨ht, -⟩ | ⟨ht, -⟩ | ⟨ht | ht, -⟩⟩ := h.cases_cons
  · exact ⟨hf, hrest⟩
  · exact absurd ht (by cases f <;> simp [ThreadFunction.test])
  all_goals exact absurd ht (by simp)

theorem Rest.of_stop (h : f.Rest ts (.stop t :: rest)) :
    f = .shutdown ∧ ∃ us, ts = t :: us ∧ rest = .join t :: us.map f.test := by
  obtain ⟨u, ht, -⟩ | ⟨u, us, rfl, ⟨ht, -⟩ | ⟨ht, hrest, hf⟩ | ⟨ht | ht, -⟩⟩ := h.cases_cons
  · exact absurd ht (by simp)
  · exact absurd ht (by cases f <;> simp [ThreadFunction.test])
  · obtain rfl : t = u := by injection ht
    exact ⟨hf, us, rfl, hrest⟩
  all_goals exact absurd ht (by simp)

theorem Rest.of_join (h : f.Rest ts (.join t :: rest)) :
    f ≠ .start ∧ ∃ us, ts = t :: us ∧ rest = us.map f.test := by
  obtain ⟨u, ht, -⟩ | ⟨u, us, rfl, ⟨ht, -⟩ | ⟨ht, -⟩ | ⟨ht | ht, hrest, hf⟩⟩ := h.cases_cons
  · exact absurd ht (by simp)
  · exact absurd ht (by cases f <;> simp [ThreadFunction.test])
  · exact absurd ht (by simp)
  · obtain rfl : t = u := by injection ht
    exact ⟨hf, us, rfl, hrest⟩
  · exact absurd ht (by simp)

theorem Rest.of_pthread_join (h : f.Rest ts (.pthread_join t :: rest)) :
    f ≠ .start ∧ ∃ us, ts = t :: us ∧ rest = us.map f.test := by
  obtain ⟨u, ht, -⟩ | ⟨u, us, rfl, ⟨ht, -⟩ | ⟨ht, -⟩ | ⟨ht | ht, hrest, hf⟩⟩ := h.cases_cons
  · exact absurd ht (by simp)
  · exact absurd ht (by cases f <;> simp [ThreadFunction.test])
  · exact absurd ht (by simp)
  · exact absurd ht (by simp)
  · obtain rfl : t = u := by injection ht
    exact ⟨hf, us, rfl, hrest⟩

end

/-- A list of tests begins with no other statement. -/
theorem map_test_ne {f : ThreadFunction} {us : List ServiceThread} {t : ServiceThread}
    {rest : List ThreadStatement} :
    us.map f.test ≠ .join t :: rest ∧ us.map f.test ≠ .pthread_join t :: rest ∧
      us.map f.test ≠ .stop t :: rest ∧ us.map f.test ≠ .assign t :: rest := by
  cases us with
  | nil => exact ⟨by simp, by simp, by simp, by simp⟩
  | cons u us => cases f <;> exact ⟨by simp [test], by simp [test], by simp [test], by simp [test]⟩

end ThreadFunction

namespace ServiceThreads

variable (worker_num : ℕ) (msg : Bool)

/-- A thread has ended and is joined. -/
def Down (s : ServiceThreads) (t : ServiceThread) : Prop := ∃ x, s.thread t = some x ∧ x.Down

/-- `stop()` has been called on the thread. -/
def Stopped (s : ServiceThreads) (t : ServiceThread) : Prop :=
  ∃ x, s.thread t = some x ∧ x.done = true

/-- What holds of a call. -/
structure CallOk (s : ServiceThreads) (c : Caller) (k : FunctionCall) : Prop where
  started : k.started ⊆ s.started
  own : ∀ t, c = .thread t → k.function = .shutdown ∧ t ∈ k.started ∧
    (s.thread t).map (·.body) = some .inEntry
  rest : ∃ ts, ts <:+ k.function.threads worker_num msg ∧ k.function.Rest ts k.rest ∧
    (k.function = .start → ∀ t ∈ ts, t ∉ s.started) ∧
    (k.function ≠ .start → ∀ t ∈ k.started, t ∈ k.function.threads worker_num msg →
      t ∈ ts ∨ s.Down t)
  stopped : k.function = .shutdown → ∀ t rest,
    k.rest = .join t :: rest ∨ k.rest = .pthread_join t :: rest → s.Stopped t
  other : ∀ t rest, k.rest = .pthread_join t :: rest → c ≠ .thread t
  present : ∀ t rest, k.rest = .stop t :: rest → t ∈ s.started

/-- The invariant. -/
structure Inv (s : ServiceThreads) : Prop where
  started : ∀ t, t ∈ s.started ↔ s.thread t ≠ none
  subset : s.started ⊆ ThreadFunction.threads worker_num msg .shutdown
  joined : ∀ t x, s.thread t = some x → x.thread = .joined → x.body = .ended
  calls : ∀ c k, s.call c = some k → CallOk worker_num msg s c k
  joiner : ∀ t x c, s.thread t = some x → x.joiner = some c →
    ∃ k rest, s.call c = some k ∧ k.rest = .pthread_join t :: rest
  assigned : ∀ t x, s.thread t = some x → (x.thread = .unassigned ↔
    ∃ k rest, s.call .app = some k ∧ k.rest = .assign t :: rest)
  launched : ∀ t k, s.call (.thread t) = some k → (s.call .app).map (·.function) ≠ some .start
  returned : ∀ r ∈ s.returns, r.function ≠ .start →
    r.caller = .app ∧ r.started ⊆ s.started ∧
      ∀ t ∈ r.started, t ∈ r.function.threads worker_num msg → s.Down t

variable {worker_num msg} {s s' : ServiceThreads} {c : Caller} {t : ServiceThread}
  {x y : ThreadWrapper} {k : FunctionCall}

/-! ## What a step keeps -/

/-- Threads stay, and so do that they have been stopped, or are down. -/
structure Follows (s s' : ServiceThreads) : Prop where
  thread : ∀ t x, s.thread t = some x →
    ∃ y, s'.thread t = some y ∧ (x.done = true → y.done = true) ∧ (x.Down → y.Down)
  started : s.started ⊆ s'.started

theorem Follows.down (h : Follows s s') (hd : s.Down t) : s'.Down t := by
  obtain ⟨x, hx, hdown⟩ := hd
  obtain ⟨y, hy, -, hxy⟩ := h.thread t x hx
  exact ⟨y, hy, hxy hdown⟩

theorem Follows.stopped (h : Follows s s') (hd : s.Stopped t) : s'.Stopped t := by
  obtain ⟨x, hx, hdone⟩ := hd
  obtain ⟨y, hy, hxy, -⟩ := h.thread t x hx
  exact ⟨y, hy, hxy hdone⟩

/-- A change of a thread that unsets nothing. -/
theorem follows_setThread (hx : s.thread t = some x) (hdone : x.done = true → y.done = true)
    (hdown : x.Down → y.Down) : Follows s (s.setThread t y) := by
  refine ⟨fun u z hz => ?_, List.Subset.refl _⟩
  by_cases hu : u = t
  · subst hu
    obtain rfl : x = z := Option.some.inj (hx.symm.trans hz)
    exact ⟨y, Function.update_self .., hdone, hdown⟩
  · exact ⟨z, (Function.update_of_ne hu ..).trans hz, id, id⟩

/-- A call goes on to be right while others make their steps. -/
theorem CallOk.of_follows (h : CallOk worker_num msg s c k) (hf : Follows s s')
    (hstarted : k.function = .start → s'.started = s.started)
    (hbody : ∀ t, c = .thread t →
      (s'.thread t).map (·.body) = (s.thread t).map (·.body)) : CallOk worker_num msg s' c k := by
  obtain ⟨ts, hsuffix, hrest, hstart, hdown⟩ := h.rest
  refine ⟨List.Subset.trans h.started hf.started, fun t ht => ?_, ⟨ts, hsuffix, hrest, ?_, ?_⟩, ?_,
    h.other, fun t rest ht => hf.started (h.present t rest ht)⟩
  · obtain ⟨hfun, hmem, hentry⟩ := h.own t ht
    exact ⟨hfun, hmem, (hbody t ht).trans hentry⟩
  · intro hfun
    rw [hstarted hfun]
    exact hstart hfun
  · exact fun hfun t ht hmem => (hdown hfun t ht hmem).imp_right hf.down
  · exact fun hfun t rest ht => hf.stopped (h.stopped hfun t rest ht)

/-- A call that is not in `pthread_join` is not the joiner of a thread. -/
theorem Inv.not_joiner (h : Inv worker_num msg s) (hk : s.call c = some k)
    (hrest : ∀ t rest, k.rest ≠ .pthread_join t :: rest) (hx : s.thread t = some x) :
    x.joiner ≠ some c := by
  intro hj
  obtain ⟨k', rest, hk', hrest'⟩ := h.joiner t x c hx hj
  obtain rfl : k = k' := Option.some.inj (hk.symm.trans hk')
  exact hrest t rest hrest'

/-- Only `start()` assigns a thread. -/
theorem CallOk.start_of_assign (h : CallOk worker_num msg s c k) {rest : List ThreadStatement}
    (ha : k.rest = .assign t :: rest) : k.function = .start := by
  obtain ⟨ts, -, hrest, -⟩ := h.rest
  exact (ha ▸ hrest).of_assign.1

/-- While a call of another function is in progress, every thread has been assigned. -/
theorem Inv.not_unassigned (h : Inv worker_num msg s) (hk : s.call c = some k)
    (hf : k.function ≠ .start) (hx : s.thread t = some x) : x.thread ≠ .unassigned := by
  intro hun
  obtain ⟨j, rest, hj, ha⟩ := (h.assigned t x hx).mp hun
  have hstart : j.function = .start := (h.calls .app j hj).start_of_assign ha
  cases c with
  | app =>
    obtain rfl : k = j := Option.some.inj (hk.symm.trans hj)
    exact hf hstart
  | thread u => exact h.launched u k hk (by rw [hj, Option.map_some, hstart])

/-- A thread is changed. -/
theorem inv_setThread (h : Inv worker_num msg s) (hx : s.thread t = some x)
    (hy : y.thread = .joined → y.body = .ended) (hdone : x.done = true → y.done = true)
    (hdown : x.Down → y.Down) (hbody : s.call (.thread t) ≠ none → y.body = x.body)
    (hthread : y.thread = .unassigned ↔ x.thread = .unassigned)
    (hjoiner : ∀ c, y.joiner = some c →
      ∃ k rest, s.call c = some k ∧ k.rest = .pthread_join t :: rest) :
    Inv worker_num msg (s.setThread t y) := by
  have hf : Follows s (s.setThread t y) := follows_setThread hx hdone hdown
  refine ⟨fun u => ?_, h.subset, fun u z hz => ?_, fun c k hk => ?_, fun u z c hz hc => ?_,
    fun u z hz => ?_, h.launched, fun r hr hfun => ?_⟩
  · by_cases hu : u = t
    · subst hu
      simp [h.started, hx]
    · simp [h.started, Function.update_of_ne hu]
  · rcases of_update hz with ⟨rfl, hyz⟩ | ⟨hu, hz⟩
    · exact Option.some.inj hyz ▸ hy
    · exact h.joined u z hz
  · refine (h.calls c k hk).of_follows hf (fun _ => rfl) fun u hu => ?_
    by_cases hut : u = t
    · subst hut
      have hcall : s.call (.thread u) ≠ none := by
        rw [← hu, show s.call c = some k from hk]
        exact Option.some_ne_none k
      simp [hx, hbody hcall]
    · simp [Function.update_of_ne hut]
  · rcases of_update hz with ⟨rfl, hyz⟩ | ⟨hu, hz⟩
    · exact hjoiner c (Option.some.inj hyz ▸ hc)
    · exact h.joiner u z c hz hc
  · rcases of_update hz with ⟨rfl, hyz⟩ | ⟨hu, hz⟩
    · exact Option.some.inj hyz ▸ hthread.trans (h.assigned u x hx)
    · exact h.assigned u z hz
  · obtain ⟨hc, hsub, hdown⟩ := h.returned r hr hfun
    exact ⟨hc, hsub, fun u hu hmem => hf.down (hdown u hu hmem)⟩

/-- A call is changed that is not in `pthread_join`, or no longer. -/
theorem inv_setCall (h : Inv worker_num msg s) {j : Option FunctionCall}
    (hj : ∀ k' ∈ j, CallOk worker_num msg s c k')
    (hjoiner : ∀ t x, s.thread t = some x → x.joiner ≠ some c)
    (hassigned : c = .app → ∀ t x, s.thread t = some x → (x.thread = .unassigned ↔
      ∃ k' rest, j = some k' ∧ k'.rest = .assign t :: rest))
    (hlaunched : ∀ t k', (s.setCall c j).call (.thread t) = some k' →
      ((s.setCall c j).call .app).map (·.function) ≠ some .start) :
    Inv worker_num msg (s.setCall c j) := by
  have hf : Follows s (s.setCall c j) := ⟨fun t x hx => ⟨x, hx, id, id⟩, List.Subset.refl _⟩
  refine ⟨h.started, h.subset, h.joined, fun d i hi => ?_, fun t x d hx hd => ?_,
    fun t x hx => ?_, hlaunched, h.returned⟩
  · rcases of_update hi with ⟨rfl, hji⟩ | ⟨-, hi⟩
    · exact (hj i hji).of_follows hf (fun _ => rfl) fun _ _ => rfl
    · exact (h.calls d i hi).of_follows hf (fun _ => rfl) fun _ _ => rfl
  · have hne : d ≠ c := fun hdc => hjoiner t x hx (hdc ▸ hd)
    obtain ⟨i, rest, hi, hrest⟩ := h.joiner t x d hx hd
    exact ⟨i, rest, (Function.update_of_ne hne ..).trans hi, hrest⟩
  · by_cases hc : c = .app
    · subst hc
      simpa using hassigned rfl t x hx
    · simpa [Function.update_of_ne (Ne.symm hc)] using h.assigned t x hx

/-- A call goes on with a statement that assigns no thread, or it ends. -/
theorem inv_goOn (h : Inv worker_num msg s) {j : Option FunctionCall} (hk : s.call c = some k)
    (ha : ∀ t rest, k.rest ≠ .assign t :: rest)
    (hj : ∀ k' ∈ j, CallOk worker_num msg s c k' ∧ k'.function ≠ .start)
    (hjoiner : ∀ t x, s.thread t = some x → x.joiner ≠ some c) :
    Inv worker_num msg (s.setCall c j) := by
  refine inv_setCall h (fun k' hk' => (hj k' hk').1) hjoiner ?_ fun t k' hk' => ?_
  · rintro rfl t x hx
    refine (h.assigned t x hx).trans ⟨?_, ?_⟩
    · rintro ⟨i, rest, hi, hrest⟩
      obtain rfl : k = i := Option.some.inj (hk.symm.trans hi)
      exact absurd hrest (ha t rest)
    · rintro ⟨k', rest, rfl, hrest⟩
      obtain ⟨hok, hf⟩ := hj k' rfl
      exact absurd (hok.start_of_assign hrest) hf
  · cases c with
    | app =>
      rw [setCall_call, Function.update_self]
      intro hstart
      obtain ⟨i, hi, hfun⟩ := Option.map_eq_some_iff.mp hstart
      exact (hj i hi).2 hfun
    | thread u =>
      rw [setCall_call, Function.update_of_ne (by simp)]
      exact h.launched u k hk

/-- An exception ends a call that is not in `pthread_join`. -/
theorem inv_raise (h : Inv worker_num msg s) (hk : s.call c = some k)
    (ha : ∀ t rest, k.rest ≠ .assign t :: rest)
    (hjoiner : ∀ t x, s.thread t = some x → x.joiner ≠ some c) :
    Inv worker_num msg (s.raise c) := by
  have hended : Inv worker_num msg (s.setCall c none) :=
    inv_goOn h hk ha (fun _ hj => absurd hj (by simp)) hjoiner
  cases c with
  | app => exact hended
  | thread t =>
    cases hx : s.thread t with
    | none => rwa [raise_thread_of_none hx]
    | some x =>
      rw [raise_thread hx]
      refine inv_setThread hended hx (fun _ => rfl) id (fun hd => ⟨rfl, hd.2⟩)
        (fun hcall => absurd (Function.update_self ..) hcall) Iff.rfl fun c hc => ?_
      have hne : c ≠ .thread t := fun hct => hjoiner t x hx (hct ▸ hc)
      obtain ⟨j, rest, hj, hrest⟩ := h.joiner t x c hx hc
      exact ⟨j, rest, (Function.update_of_ne hne ..).trans hj, hrest⟩

/-- The next thread of a call is tested, when nothing is left to do about the one before. -/
theorem CallOk.next (h : CallOk worker_num msg s c k) {us : List ServiceThread}
    (hsuffix : us <:+ k.function.threads worker_num msg)
    (hstart : k.function = .start → ∀ t ∈ us, t ∉ s.started)
    (hdown : k.function ≠ .start → ∀ t ∈ k.started, t ∈ k.function.threads worker_num msg →
      t ∈ us ∨ s.Down t) :
    CallOk worker_num msg s c { k with rest := us.map k.function.test } := by
  refine ⟨h.started, h.own, ⟨us, hsuffix, .test us, hstart, hdown⟩, fun _ t rest ht => ?_,
    fun t rest ht => absurd ht ThreadFunction.map_test_ne.2.1,
    fun t rest ht => absurd ht ThreadFunction.map_test_ne.2.2.1⟩
  rcases ht with ht | ht
  · exact absurd ht ThreadFunction.map_test_ne.1
  · exact absurd ht ThreadFunction.map_test_ne.2.1

/-- Only the application calls `start()`. -/
theorem Inv.app_of_start (h : Inv worker_num msg s) (hk : s.call c = some k)
    (hf : k.function = .start) : c = .app := by
  refine c.app_of_ne fun u hu => ?_
  have hshutdown := ((h.calls c k hk).own u hu).1
  rw [hf] at hshutdown
  exact absurd hshutdown (by decide)

/-- Meanwhile no callback is in a call. -/
theorem Inv.quiet_of_start (h : Inv worker_num msg s) (hk : s.call .app = some k)
    (hf : k.function = .start) (u : ServiceThread) : s.call (.thread u) = none := by
  by_contra hne
  obtain ⟨j, hj⟩ := Option.ne_none_iff_exists'.mp hne
  exact h.launched u j hj (by rw [hk, Option.map_some, hf])

/-- `xThread = new XThread(…); xThread->start()`, until the thread runs. -/
theorem inv_start (h : Inv worker_num msg s) {rest : List ThreadStatement}
    (hk : s.call c = some k) (ha : k.rest = .start t :: rest) :
    Inv worker_num msg { s.setThread t .started with
      call := Function.update s.call c (some { k with rest := .assign t :: rest })
      started := t :: s.started } := by
  have hcall := h.calls c k hk
  obtain ⟨ts, hsuffix, hrest, hstart, -⟩ := hcall.rest
  obtain ⟨hfun, us, rfl, rfl⟩ := ThreadFunction.Rest.of_test (g := .start) (ha ▸ hrest)
  obtain rfl : c = .app := h.app_of_start hk hfun
  have hsubset := hsuffix.subset
  have hnodup := hsuffix.sublist.nodup (ThreadFunction.nodup_threads worker_num msg k.function)
  have hfresh : t ∉ s.started := hstart hfun t List.mem_cons_self
  have hnone : s.thread t = none := by
    by_contra hne
    exact hfresh ((h.started t).mpr hne)
  have hquiet : ∀ u, s.call (.thread u) = none := h.quiet_of_start hk hfun
  refine ⟨fun u => ?_, ?_, fun u x hx => ?_, fun d j hj => ?_, fun u x d hx hd => ?_,
    fun u x hx => ?_, fun u j hj => ?_, fun r hr hr' => ?_⟩
  · by_cases hu : u = t
    · simp [hu]
    · simp [hu, h.started]
  · refine List.cons_subset.mpr ⟨?_, h.subset⟩
    have ht := hsubset List.mem_cons_self
    rw [hfun] at ht
    exact ThreadFunction.threads_start_subset worker_num msg ht
  · rcases of_update hx with ⟨rfl, hxy⟩ | ⟨-, hx⟩
    · obtain rfl := Option.some.inj hxy
      exact fun hj => absurd hj (by decide)
    · exact h.joined u x hx
  · rcases of_update hj with ⟨rfl, hkj⟩ | ⟨hne, hj⟩
    · obtain rfl := Option.some.inj hkj
      refine ⟨List.subset_cons_of_subset _ hcall.started, fun u hu => absurd hu (by simp),
        ⟨us, (List.suffix_cons t us).trans hsuffix, .assign t us hfun, fun _ u hu => ?_,
          fun hs => absurd hfun hs⟩,
        fun hs => absurd (hfun.symm.trans hs) (by decide), fun u rest hu => absurd hu (by simp),
        fun u rest hu => absurd hu (by simp)⟩
      have hut : u ≠ t := fun hut => (List.nodup_cons.mp hnodup).1 (hut ▸ hu)
      exact fun hmem => (List.mem_cons.mp hmem).elim hut (hstart hfun u (List.mem_cons_of_mem t hu))
    · cases d with
      | app => exact absurd rfl hne
      | thread u => exact absurd ((hquiet u).symm.trans hj) (by simp)
  · rcases of_update hx with ⟨rfl, hxy⟩ | ⟨-, hx⟩
    · obtain rfl := Option.some.inj hxy
      exact absurd hd (by simp [ThreadWrapper.started])
    · obtain ⟨j, rest, hj, hrest⟩ := h.joiner u x d hx hd
      have hne : d ≠ .app := by
        rintro rfl
        obtain rfl : k = j := Option.some.inj (hk.symm.trans hj)
        exact absurd (ha.symm.trans hrest) (by simp)
      exact ⟨j, rest, (Function.update_of_ne hne ..).trans hj, hrest⟩
  · simp only [Function.update_self, Option.some.injEq]
    rcases of_update hx with ⟨rfl, hxy⟩ | ⟨hut, hx⟩
    · obtain rfl := Option.some.inj hxy
      exact iff_of_true rfl ⟨_, _, rfl, rfl⟩
    · refine iff_of_false (fun hun => ?_) ?_
      · obtain ⟨j, rest, hj, hrest⟩ := (h.assigned u x hx).mp hun
        obtain rfl : k = j := Option.some.inj (hk.symm.trans hj)
        exact absurd (ha.symm.trans hrest) (by simp)
      · rintro ⟨j, rest, rfl, hrest⟩
        have htu : t = u := by simpa using (List.cons.inj hrest).1
        exact hut htu.symm
  · have hju : s.call (.thread u) = some j := by simpa using hj
    exact absurd ((hquiet u).symm.trans hju) (by simp)
  · obtain ⟨hcaller, hsub, hdown⟩ := h.returned r hr hr'
    refine ⟨hcaller, List.subset_cons_of_subset _ hsub, fun u hu hmem => ?_⟩
    obtain ⟨x, hx, hxdown⟩ := hdown u hu hmem
    have hut : u ≠ t := fun hut => by simp [hut, hnone] at hx
    exact ⟨x, (Function.update_of_ne hut ..).trans hx, hxdown⟩

/-- The thread that runs is assigned. -/
theorem inv_assign (h : Inv worker_num msg s) {rest : List ThreadStatement}
    (hk : s.call c = some k) (ha : k.rest = .assign t :: rest) (hx : s.thread t = some x) :
    Inv worker_num msg ((s.setThread t { x with thread := .joinable }).setCall c
      (some { k with rest := rest })) := by
  have hcall := h.calls c k hk
  obtain ⟨ts, hsuffix, hrest, hstart, -⟩ := hcall.rest
  obtain ⟨hfun, rfl⟩ := (ha ▸ hrest).of_assign
  obtain rfl : c = .app := h.app_of_start hk hfun
  have hquiet : ∀ u, s.call (.thread u) = none := h.quiet_of_start hk hfun
  have hunassigned : x.thread = .unassigned := (h.assigned t x hx).mpr ⟨k, _, hk, ha⟩
  have hf : Follows s ((s.setThread t { x with thread := .joinable }).setCall .app
      (some { k with rest := ts.map k.function.test })) :=
    ⟨(follows_setThread (y := { x with thread := .joinable }) hx id fun hd =>
      absurd (hunassigned.symm.trans hd.2) (by decide)).thread, List.Subset.refl _⟩
  refine ⟨fun u => ?_, h.subset, fun u z hz => ?_, fun d j hj => ?_, fun u z d hz hd => ?_,
    fun u z hz => ?_, fun u j hj => ?_, fun r hr hr' => ?_⟩
  · by_cases hu : u = t
    · subst hu
      simp [h.started, hx]
    · simp [h.started, Function.update_of_ne hu]
  · rcases of_update hz with ⟨rfl, hzx⟩ | ⟨-, hz⟩
    · obtain rfl := Option.some.inj hzx
      exact fun hj => absurd hj (by simp)
    · exact h.joined u z hz
  · rcases of_update hj with ⟨rfl, hkj⟩ | ⟨hne, hj⟩
    · obtain rfl := Option.some.inj hkj
      exact (hcall.next hsuffix hstart fun hs => absurd hfun hs).of_follows hf (fun _ => rfl)
        fun u hu => absurd hu (by simp)
    · cases d with
      | app => exact absurd rfl hne
      | thread u => exact absurd ((hquiet u).symm.trans hj) (by simp)
  · obtain ⟨j, rest, hj, hrest⟩ :
        ∃ j rest, s.call d = some j ∧ j.rest = .pthread_join u :: rest := by
      rcases of_update hz with ⟨rfl, hzx⟩ | ⟨-, hz⟩
      · obtain rfl := Option.some.inj hzx
        exact h.joiner u x d hx hd
      · exact h.joiner u z d hz hd
    have hne : d ≠ .app := by
      rintro rfl
      obtain rfl : k = j := Option.some.inj (hk.symm.trans hj)
      exact absurd (ha.symm.trans hrest) (by simp)
    exact ⟨j, rest, (Function.update_of_ne hne ..).trans hj, hrest⟩
  · refine iff_of_false (fun hun => ?_) ?_
    · rcases of_update hz with ⟨rfl, hzx⟩ | ⟨hut, hz⟩
      · obtain rfl := Option.some.inj hzx
        exact absurd hun (by simp)
      · obtain ⟨j, rest, hj, hrest⟩ := (h.assigned u z hz).mp hun
        obtain rfl : k = j := Option.some.inj (hk.symm.trans hj)
        have htu : t = u := by simpa using (List.cons.inj (ha.symm.trans hrest)).1
        exact hut htu.symm
    · rintro ⟨j, rest, hj, hrest⟩
      rw [setCall_call, Function.update_self] at hj
      obtain rfl := Option.some.inj hj
      exact absurd hrest ThreadFunction.map_test_ne.2.2.2
  · have hju : s.call (.thread u) = some j := by simpa using hj
    exact absurd ((hquiet u).symm.trans hju) (by simp)
  · obtain ⟨hcaller, hsub, hdown⟩ := h.returned r hr hr'
    exact ⟨hcaller, hsub, fun u hu hmem => hf.down (hdown u hu hmem)⟩

/-- A test of a thread: it goes on with the thread, or with the next one. -/
theorem inv_test (h : Inv worker_num msg s) {rest next : List ThreadStatement}
    (hk : s.call c = some k) (ha : k.rest = k.function.test t :: rest)
    (hf : k.function ≠ .start)
    (hnext : s.thread t = none ∧ next = rest ∨
      s.thread t ≠ none ∧ k.function = .shutdown ∧ next = .stop t :: .join t :: rest ∨
      k.function = .wait ∧ next = .join t :: rest) :
    Inv worker_num msg (s.setCall c (some { k with rest := next })) := by
  have hcall := h.calls c k hk
  obtain ⟨ts, hsuffix, hrest, hstart, hdown⟩ := hcall.rest
  obtain ⟨-, us, rfl, rfl⟩ := ThreadFunction.Rest.of_test (ha ▸ hrest)
  have hjoiner : ∀ v x, s.thread v = some x → x.joiner ≠ some c := fun v x =>
    h.not_joiner hk fun v rest hv => by
      have hne : k.function.test t ≠ .pthread_join v := by
        cases k.function <;> simp [ThreadFunction.test]
      exact hne (List.cons.inj (ha.symm.trans hv)).1
  have hassign : ∀ v rest, k.rest ≠ .assign v :: rest := fun v rest hv =>
    hf (hcall.start_of_assign hv)
  refine inv_goOn h hk hassign (fun k' hk' => ?_) hjoiner
  obtain rfl := Option.some.inj hk'
  refine ⟨?_, hf⟩
  rcases hnext with ⟨hnone, rfl⟩ | ⟨hsome, hfun, rfl⟩ | ⟨hfun, rfl⟩
  · -- the thread was not there when the call was made either
    have hnot : t ∉ k.started := fun hmem => (h.started t).mp (hcall.started hmem) hnone
    refine hcall.next ((List.suffix_cons t us).trans hsuffix) (fun hs => absurd hs hf)
      fun hs v hv hmem => ?_
    refine (hdown hs v hv hmem).imp_left fun hmem => (List.mem_cons.mp hmem).resolve_left ?_
    rintro rfl
    exact hnot hv
  · refine ⟨hcall.started, hcall.own, ⟨t :: us, hsuffix, .stop t us hfun, hstart, hdown⟩,
      fun _ v rest hv => absurd hv (by simp), fun v rest hv => absurd hv (by simp),
      fun v rest hv => ?_⟩
    have htv : t = v := by simpa using (List.cons.inj hv).1
    exact htv ▸ (h.started t).mpr hsome
  · exact ⟨hcall.started, hcall.own, ⟨t :: us, hsuffix, .join t us hf, hstart, hdown⟩,
      fun hs => absurd (hfun.symm.trans hs) (by decide), fun v rest hv => absurd hv (by simp),
      fun v rest hv => absurd hv (by simp)⟩

/-- `stop()`. -/
theorem inv_stop (h : Inv worker_num msg s) {rest : List ThreadStatement}
    (hk : s.call c = some k) (ha : k.rest = .stop t :: rest) (hx : s.thread t = some x) :
    Inv worker_num msg ((s.setThread t { x with done := true }).setCall c
      (some { k with rest := rest })) := by
  have hinv : Inv worker_num msg (s.setThread t { x with done := true }) :=
    inv_setThread h hx (h.joined t x hx) (fun _ => rfl) id (fun _ => rfl) Iff.rfl
      (h.joiner t x · hx)
  have hcall := hinv.calls c k hk
  obtain ⟨ts, hsuffix, hrest, hstart, hdown⟩ := hcall.rest
  obtain ⟨hfun, us, rfl, rfl⟩ := (ha ▸ hrest).of_stop
  refine inv_goOn hinv hk (fun v rest hv => absurd (ha.symm.trans hv) (by simp)) (fun k' hk' => ?_)
    fun v y => hinv.not_joiner hk fun v rest hv => absurd (ha.symm.trans hv) (by simp)
  obtain rfl := Option.some.inj hk'
  have hstopped : (s.setThread t { x with done := true }).Stopped t :=
    ⟨_, Function.update_self .., rfl⟩
  refine ⟨⟨hcall.started, hcall.own,
    ⟨t :: us, hsuffix, .join t us (by simp [hfun]), hstart, hdown⟩,
    fun _ v rest hv => ?_, fun v rest hv => absurd hv (by simp),
    fun v rest hv => absurd hv (by simp)⟩, by simp [hfun]⟩
  have htv : v = t := by
    rcases hv with hv | hv
    · simp_all
    · exact absurd hv (by simp)
  exact htv ▸ hstopped

/-- `std::thread::join` begins to wait. -/
theorem inv_join (h : Inv worker_num msg s) {rest : List ThreadStatement}
    (hk : s.call c = some k) (ha : k.rest = .join t :: rest) (hx : s.thread t = some x)
    (hjoinable : x.thread = .joinable) (hc : c ≠ .thread t) :
    Inv worker_num msg ((s.setThread t { x with joiner := some c }).setCall c
      (some { k with rest := .pthread_join t :: rest })) := by
  have hcall := h.calls c k hk
  obtain ⟨ts, hsuffix, hrest, hstart, hdown⟩ := hcall.rest
  obtain ⟨hf, us, rfl, rfl⟩ := (ha ▸ hrest).of_join
  have hinv : Inv worker_num msg (s.setCall c
      (some { k with rest := .pthread_join t :: us.map k.function.test })) := by
    refine inv_goOn h hk (fun v rest hv => absurd (ha.symm.trans hv) (by simp)) (fun k' hk' => ?_)
      fun v y => h.not_joiner hk fun v rest hv => absurd (ha.symm.trans hv) (by simp)
    obtain rfl := Option.some.inj hk'
    refine ⟨⟨hcall.started, hcall.own, ⟨t :: us, hsuffix, .pthread_join t us hf, hstart, hdown⟩,
      fun hs v rest hv => ?_, fun v rest hv => ?_, fun v rest hv => absurd hv (by simp)⟩, hf⟩
    · have htv : v = t := by
        rcases hv with hv | hv
        · exact absurd hv (by simp)
        · simp_all
      exact htv ▸ hcall.stopped hs t _ (Or.inl ha)
    · have htv : v = t := by simp_all
      exact htv ▸ hc
  refine inv_setThread hinv hx (h.joined t x hx) id
    (fun hd => absurd (hjoinable.symm.trans hd.2) (by simp)) (fun _ => rfl) Iff.rfl fun d hd => ?_
  obtain rfl := Option.some.inj hd
  exact ⟨_, _, Function.update_self .., rfl⟩

/-- A thread is down, or need not be: the call goes on with the next one. -/
theorem CallOk.joined (h : CallOk worker_num msg s c k) {rest : List ThreadStatement}
    (ha : k.rest = .join t :: rest ∨ k.rest = .pthread_join t :: rest) (hd : s.Down t) :
    CallOk worker_num msg s c { k with rest := rest } := by
  obtain ⟨ts, hsuffix, hrest, hstart, hdown⟩ := h.rest
  obtain ⟨hf, us, rfl, rfl⟩ : k.function ≠ .start ∧
      ∃ us, ts = t :: us ∧ rest = us.map k.function.test := by
    rcases ha with ha | ha
    · exact (ha ▸ hrest).of_join
    · exact (ha ▸ hrest).of_pthread_join
  refine h.next ((List.suffix_cons t us).trans hsuffix) (fun hs => absurd hs hf)
    fun hs v hv hmem => ?_
  rcases hdown hs v hv hmem with hmem | hdv
  · rcases List.mem_cons.mp hmem with rfl | hmem
    · exact Or.inr hd
    · exact Or.inl hmem
  · exact Or.inr hdv

/-- `pthread_join` returns. -/
theorem inv_pthread_join (h : Inv worker_num msg s) {rest : List ThreadStatement}
    (hk : s.call c = some k) (ha : k.rest = .pthread_join t :: rest) (hx : s.thread t = some x)
    (hended : x.body = .ended) :
    Inv worker_num msg ((s.setThread t { x with thread := .joined, joiner := none }).setCall c
      (some { k with rest := rest })) := by
  have hf : k.function ≠ .start := by
    obtain ⟨ts, -, hrest, -⟩ := (h.calls c k hk).rest
    exact (ha ▸ hrest).of_pthread_join.1
  have hinv : Inv worker_num msg (s.setThread t { x with thread := .joined, joiner := none }) :=
    inv_setThread h hx (fun _ => hended) id (fun hd => ⟨hd.1, rfl⟩) (fun _ => rfl)
      (iff_of_false (by simp) (h.not_unassigned hk hf hx)) fun d hd => absurd hd (by simp)
  have hdown : (s.setThread t { x with thread := .joined, joiner := none }).Down t :=
    ⟨_, Function.update_self .., hended, rfl⟩
  refine inv_goOn hinv hk (fun v rest hv => absurd (ha.symm.trans hv) (by simp)) (fun k' hk' => ?_)
    fun v y hy hj' => ?_
  · obtain rfl := Option.some.inj hk'
    exact ⟨(hinv.calls c k hk).joined (Or.inr ha) hdown, hf⟩
  · obtain ⟨j, later, hj, hlater⟩ := hinv.joiner v y c hy hj'
    obtain rfl : k = j := Option.some.inj (hk.symm.trans hj)
    obtain rfl : t = v := by
      have heq := (List.cons.inj (ha.symm.trans hlater)).1
      injection heq
    rw [setThread_thread, Function.update_self] at hy
    cases hy
    exact absurd hj' (by simp)

/-- A thread that has been assigned and is not joinable is down. -/
theorem Inv.down_of_not_joinable (h : Inv worker_num msg s) (hk : s.call c = some k)
    (hf : k.function ≠ .start) (hx : s.thread t = some x) (hj : x.thread ≠ .joinable) :
    s.Down t := by
  cases hthread : x.thread with
  | unassigned => exact absurd hthread (h.not_unassigned hk hf hx)
  | joinable => exact absurd hthread hj
  | joined => exact ⟨x, hx, h.joined t x hx hthread, hthread⟩

theorem mem_of_option {P : FunctionCall → Prop} (h : P k) : ∀ j ∈ some k, P j := by
  rintro j ⟨⟩
  exact h

/-- A statement of a call keeps the invariant. -/
theorem inv_statement (h : Inv worker_num msg s) {rest : List ThreadStatement}
    {a : ThreadStatement} (hk : s.call c = some k) (ha : k.rest = a :: rest)
    (hstep : s.statement c k rest a = some s') : Inv worker_num msg s' := by
  have hcall := h.calls c k hk
  have hjoiner : (∀ t, a ≠ .pthread_join t) → ∀ v x, s.thread v = some x → x.joiner ≠ some c :=
    fun hne v x => h.not_joiner hk fun v later hv =>
      hne v (List.cons.inj (ha.symm.trans hv)).1
  obtain ⟨ts, -, hrest, -⟩ := hcall.rest
  rw [ha] at hrest
  cases a with
  | start t =>
    cases hstep
    exact inv_start h hk ha
  | assign t =>
    cases hx : s.thread t with
    | none => simp [statement, hx] at hstep
    | some x =>
      simp only [statement, hx, Option.some.injEq] at hstep
      exact hstep ▸ inv_assign h hk ha hx
  | shutdown t =>
    obtain ⟨hfun, -⟩ := hrest.of_test (g := .shutdown)
    cases hstep
    refine inv_test h (t := t) hk (by rw [ha, hfun]; rfl) (by simp [hfun]) ?_
    split
    · exact Or.inl ⟨by assumption, rfl⟩
    · exact Or.inr (Or.inl ⟨by assumption, hfun, rfl⟩)
  | wait t =>
    obtain ⟨hfun, -⟩ := hrest.of_test (g := .wait)
    cases hstep
    refine inv_test h (t := t) hk (by rw [ha, hfun]; rfl) (by simp [hfun]) ?_
    split
    · exact Or.inl ⟨by assumption, rfl⟩
    · exact Or.inr (Or.inr ⟨hfun, rfl⟩)
  | stop t =>
    cases hx : s.thread t with
    | none => simp [statement, hx] at hstep
    | some x =>
      simp only [statement, hx, Option.some.injEq] at hstep
      exact hstep ▸ inv_stop h hk ha hx
  | join t =>
    cases hx : s.thread t with
    | none => simp [statement, hx] at hstep
    | some x =>
      have hf : k.function ≠ .start := hrest.of_join.1
      have hassign : ∀ v later, k.rest ≠ .assign v :: later := fun v later hv =>
        hf (hcall.start_of_assign hv)
      simp only [statement, hx, join] at hstep
      split at hstep
      · rename_i hjoinable
        split at hstep
        · cases hstep
          exact inv_raise h hk hassign (hjoiner (by simp))
        · rename_i hno
          cases hstep
          exact inv_join h hk ha hx hjoinable fun hc => hno (Or.inl hc)
      · rename_i hjoinable
        split at hstep
        · cases hstep
          have hdown : s.Down t := h.down_of_not_joinable hk hf hx hjoinable
          exact inv_goOn h hk hassign (mem_of_option ⟨hcall.joined (Or.inl ha) hdown, hf⟩)
            (hjoiner (by simp))
        · exact absurd hstep (by simp)
  | pthread_join t =>
    cases hx : s.thread t with
    | none => simp [statement, hx] at hstep
    | some x =>
      simp only [statement, hx] at hstep
      split at hstep
      · rename_i hended
        cases hstep
        exact inv_pthread_join h hk ha hx hended
      · exact absurd hstep (by simp)

/-- A call that has nothing left to do returns. -/
theorem inv_return (h : Inv worker_num msg s) (hk : s.call c = some k) (ha : k.rest = []) :
    Inv worker_num msg
      { s.setCall c none with returns := ⟨c, k.function, k.started⟩ :: s.returns } := by
  have hcall := h.calls c k hk
  have hinv : Inv worker_num msg (s.setCall c none) :=
    inv_goOn h hk (fun v rest hv => absurd (ha.symm.trans hv) (by simp))
      (fun j hj => absurd hj (by simp)) fun v x =>
      h.not_joiner hk fun v rest hv => absurd (ha.symm.trans hv) (by simp)
  refine ⟨hinv.started, hinv.subset, hinv.joined, fun d j hj => ?_, hinv.joiner, hinv.assigned,
    hinv.launched, fun r hr hfun => ?_⟩
  · exact (hinv.calls d j hj).of_follows ⟨fun t x hx => ⟨x, hx, id, id⟩, List.Subset.refl _⟩
      (fun _ => rfl) fun _ _ => rfl
  · rcases List.mem_cons.mp hr with rfl | hr
    · obtain ⟨ts, -, hrest, -, hdown⟩ := hcall.rest
      have hts : ts = [] := by
        generalize hl : k.rest = l at hrest
        cases hrest with
        | test ts => exact List.map_eq_nil_iff.mp (hl.symm.trans ha)
        | assign t ts _ => exact absurd (hl.symm.trans ha) (by simp)
        | stop t us _ => exact absurd (hl.symm.trans ha) (by simp)
        | join t us _ => exact absurd (hl.symm.trans ha) (by simp)
        | pthread_join t us _ => exact absurd (hl.symm.trans ha) (by simp)
      have hall : ∀ t ∈ k.started, t ∈ k.function.threads worker_num msg → s.Down t :=
        fun t ht hmem => (hdown hfun t ht hmem).resolve_left (by simp [hts])
      refine ⟨c.app_of_ne fun t ht => ?_, hcall.started, hall⟩
      obtain ⟨hshutdown, hmem, hentry⟩ := hcall.own t ht
      have hthreads : t ∈ k.function.threads worker_num msg :=
        hshutdown ▸ h.subset (hcall.started hmem)
      obtain ⟨x, hx, hended, -⟩ := hall t hmem hthreads
      simp [hx, hended] at hentry
    · exact h.returned r hr hfun

/-- A call is made. -/
theorem inv_call (h : Inv worker_num msg s) {f : ThreadFunction} (hmay : s.mayCall c f)
    (hg : s.AfterStart (.call c f)) :
    Inv worker_num msg
      (s.setCall c (some ⟨f, Service.statements worker_num msg f, s.started⟩)) := by
  have hnone : s.call c = none := by
    cases c with
    | app => exact hmay.1
    | thread t => exact hmay.2.1
  have hjoiner : ∀ v x, s.thread v = some x → x.joiner ≠ some c := fun v x hx hj => by
    obtain ⟨k, -, hk, -⟩ := h.joiner v x c hx hj
    exact absurd (hnone.symm.trans hk) (by simp)
  rw [ThreadFunction.statements_eq]
  refine inv_setCall h (mem_of_option ?_) hjoiner ?_ fun t k' hk' => ?_
  · refine ⟨List.Subset.refl _, fun t ht => ?_, ⟨_, List.suffix_rfl, .test _, ?_, ?_⟩, ?_, ?_,
      fun t rest ht => absurd ht ThreadFunction.map_test_ne.2.2.1⟩
    · subst ht
      obtain ⟨hf, -, hentry⟩ := hmay
      refine ⟨hf, (h.started t).mpr fun hx => ?_, hentry⟩
      simp [hx] at hentry
    · rintro rfl t -
      cases c with
      | app => simp [hmay.2 rfl]
      | thread u => exact absurd hmay.1 (by decide)
    · exact fun _ t _ hmem => Or.inl hmem
    · rintro - t rest (ht | ht)
      · exact absurd ht ThreadFunction.map_test_ne.1
      · exact absurd ht ThreadFunction.map_test_ne.2.1
    · exact fun t rest ht => absurd ht ThreadFunction.map_test_ne.2.1
  · rintro rfl t x hx
    refine iff_of_false (fun hun => ?_) ?_
    · obtain ⟨k, -, hk, -⟩ := (h.assigned t x hx).mp hun
      exact absurd (hnone.symm.trans hk) (by simp)
    · rintro ⟨k', rest, hk', ha⟩
      obtain rfl := Option.some.inj hk'
      exact absurd ha ThreadFunction.map_test_ne.2.2.2
  · cases c with
    | app =>
      -- `start()` is called before there is a thread
      have hkt : s.call (.thread t) = some k' := by simpa using hk'
      rw [setCall_call, Function.update_self]
      intro hstart
      have hfun : f = .start := Option.some.inj hstart
      have hmem := (h.calls _ k' hkt).started ((h.calls _ k' hkt).own t rfl).2.1
      simp [hmay.2 hfun] at hmem
    | thread u =>
      rw [setCall_call, Function.update_of_ne (by simp)]
      exact hg

/-- **What a statement does**: it starts a thread, or ends in an exception, or the call goes on,
and of a thread that exists it changes neither where it is nor its count. -/
theorem statement_cases {rest : List ThreadStatement} {a : ThreadStatement}
    (hstep : s.statement c k rest a = some s') :
    (∃ t, s' = { s.setThread t .started with
      call := Function.update s.call c (some { k with rest := .assign t :: rest })
      started := t :: s.started }) ∨
    s' = s.raise c ∨
    (∃ rest', s' = s.setCall c (some { k with rest := rest' })) ∨
    ∃ t x y rest', s.thread t = some x ∧ s' = (s.setThread t y).setCall c
      (some { k with rest := rest' }) ∧ y.body = x.body ∧ y.afterStop = x.afterStop ∧
        (x.done = true → y.done = true) := by
  cases a with
  | start t =>
    cases hstep
    exact Or.inl ⟨t, rfl⟩
  | shutdown t | wait t =>
    cases hstep
    exact Or.inr (Or.inr (Or.inl ⟨_, rfl⟩))
  | assign t | stop t =>
    cases hx : s.thread t with
    | none => simp [statement, hx] at hstep
    | some x =>
      simp only [statement, hx, Option.some.injEq] at hstep
      exact Or.inr (Or.inr (Or.inr ⟨t, x, _, _, hx, hstep.symm, rfl, rfl, by simp⟩))
  | join t =>
    cases hx : s.thread t with
    | none => simp [statement, hx] at hstep
    | some x =>
      simp only [statement, hx, join] at hstep
      split at hstep
      · split at hstep
        · exact Or.inr (Or.inl (Option.some.inj hstep).symm)
        · cases hstep
          exact Or.inr (Or.inr (Or.inr ⟨t, x, _, _, hx, rfl, rfl, rfl, id⟩))
      · split at hstep
        · cases hstep
          exact Or.inr (Or.inr (Or.inl ⟨_, rfl⟩))
        · exact absurd hstep (by simp)
  | pthread_join t =>
    cases hx : s.thread t with
    | none => simp [statement, hx] at hstep
    | some x =>
      simp only [statement, hx] at hstep
      split at hstep
      · cases hstep
        exact Or.inr (Or.inr (Or.inr ⟨t, x, _, _, hx, rfl, rfl, rfl, id⟩))
      · exact absurd hstep (by simp)

/-- **What a step of `thread_body` does**: it sets nothing but where the thread is, and it counts
an entry. -/
theorem body_cases {calling : Bool} {b : BodyStep} (hstep : body calling x b = some y) :
    y.thread = x.thread ∧ y.done = x.done ∧ y.joiner = x.joiner ∧
    (x.body = .loop ∧ y.body = .inEntry ∧ y.afterStop = x.afterStop + (if x.done then 1 else 0) ∨
      x.body = .inEntry ∧ calling = false ∧ y.body ≠ .loop ∧ y.afterStop = x.afterStop ∨
      x.body = .waiting ∧ y.body = .inEntry ∧ y.afterStop = x.afterStop ∨
      (∃ ret, x.body = .returned ret ∧ y.body = if x.done ∨ ret = -1 then .ended else .loop) ∧
        y.afterStop = x.afterStop) := by
  cases b with
  | enter =>
    simp only [body, Option.ite_none_right_eq_some, Option.some.injEq] at hstep
    obtain ⟨hloop, rfl⟩ := hstep
    exact ⟨rfl, rfl, rfl, Or.inl ⟨hloop, rfl, rfl⟩⟩
  | leave ret =>
    simp only [body, Option.ite_none_right_eq_some, Option.some.injEq] at hstep
    obtain ⟨⟨hentry, hcalling⟩, rfl⟩ := hstep
    exact ⟨rfl, rfl, rfl, Or.inr (Or.inl ⟨hentry, hcalling, by simp, rfl⟩)⟩
  | wait =>
    simp only [body, Option.ite_none_right_eq_some, Option.some.injEq] at hstep
    obtain ⟨⟨hentry, hcalling⟩, rfl⟩ := hstep
    exact ⟨rfl, rfl, rfl, Or.inr (Or.inl ⟨hentry, hcalling, by simp, rfl⟩)⟩
  | connected =>
    simp only [body, Option.ite_none_right_eq_some, Option.some.injEq] at hstep
    obtain ⟨hwaiting, rfl⟩ := hstep
    exact ⟨rfl, rfl, rfl, Or.inr (Or.inr (Or.inl ⟨hwaiting, rfl, rfl⟩))⟩
  | throw =>
    simp only [body, Option.ite_none_right_eq_some, Option.some.injEq] at hstep
    obtain ⟨⟨hentry, hcalling⟩, rfl⟩ := hstep
    exact ⟨rfl, rfl, rfl, Or.inr (Or.inl ⟨hentry, hcalling, by simp, rfl⟩)⟩
  | check =>
    cases hb : x.body with
    | returned ret =>
      simp only [body, hb, Option.some.injEq] at hstep
      subst hstep
      exact ⟨rfl, rfl, rfl, Or.inr (Or.inr (Or.inr ⟨⟨ret, rfl, rfl⟩, rfl⟩))⟩
    | loop => simp [body, hb] at hstep
    | inEntry => simp [body, hb] at hstep
    | waiting => simp [body, hb] at hstep
    | ended => simp [body, hb] at hstep

/-- A thread makes a step. -/
theorem inv_body (h : Inv worker_num msg s) {b : BodyStep} (hx : s.thread t = some x)
    (hstep : body (s.call (.thread t)).isSome x b = some y) :
    Inv worker_num msg (s.setThread t y) := by
  obtain ⟨hthread, hdone, hjoiner, hcases⟩ := body_cases hstep
  have hne : x.body ≠ .ended := by
    rcases hcases with ⟨hb, -⟩ | ⟨hb, -⟩ | ⟨hb, -⟩ | ⟨⟨ret, hb, -⟩, -⟩
    all_goals simp [hb]
  refine inv_setThread h hx (fun hj => absurd (h.joined t x hx (hthread ▸ hj)) hne)
    (fun hd => hdone.trans hd) (fun hd => absurd hd.1 hne) (fun hcall => ?_) (by rw [hthread])
    (fun c hc => h.joiner t x c hx (hjoiner ▸ hc))
  obtain ⟨k, hk⟩ := Option.ne_none_iff_exists'.mp hcall
  obtain ⟨-, -, hentry⟩ := (h.calls _ k hk).own t rfl
  have hentry : x.body = .inEntry := by simpa [hx] using hentry
  rcases hcases with ⟨hb, -⟩ | ⟨-, hcalling, -⟩ | ⟨hb, -⟩ | ⟨⟨ret, hb, -⟩, -⟩
  · exact absurd (hb.symm.trans hentry) (by simp)
  · exact absurd (Option.isSome_eq_false_iff.mp hcalling) (by simpa using hcall)
  · exact absurd (hb.symm.trans hentry) (by simp)
  · exact absurd (hb.symm.trans hentry) (by simp)

theorem inv_init : Inv worker_num msg init where
  started := by simp [init]
  subset := by simp [init]
  joined := by simp [init]
  calls := by simp [init]
  joiner := by simp [init]
  assigned := by simp [init]
  launched := by simp [init]
  returned := by simp [init]

/-- **Every step keeps the invariant**, if it calls `shutdown()` in time. -/
theorem inv_step (h : Inv worker_num msg s) {op : ThreadsOp} (hg : s.AfterStart op)
    (hstep : step worker_num msg s op = some s') : Inv worker_num msg s' := by
  cases op with
  | call c f =>
    simp only [step, Option.ite_none_right_eq_some, Option.some.injEq] at hstep
    obtain ⟨hmay, rfl⟩ := hstep
    exact inv_call h hmay hg
  | exec c =>
    cases hk : s.call c with
    | none => simp [step, hk] at hstep
    | some k =>
      cases ha : k.rest with
      | nil =>
        simp only [step, hk, ha, Option.some.injEq] at hstep
        exact hstep ▸ inv_return h hk ha
      | cons a rest =>
        simp only [step, hk, ha] at hstep
        exact inv_statement h hk ha hstep
  | body t b =>
    cases hx : s.thread t with
    | none => simp [step, hx] at hstep
    | some x =>
      simp only [step, hx, Option.map_eq_some_iff] at hstep
      obtain ⟨y, hbody, rfl⟩ := hstep
      exact inv_body h hx hbody

theorem inv_always (worker_num : ℕ) (msg : Bool) (ops : List ThreadsOp)
    (h : Meets (step worker_num msg) AfterStart init ops) :
    Always (step worker_num msg) (Inv worker_num msg) init ops :=
  always_of_meets (fun _ _ _ h hg hstep => inv_step h hg hstep) inv_init h

/-- **What the return of `shutdown()` means**, when no callback calls it before `start()` has
returned.  A call of `shutdown()` that has returned was made by the application, and every thread
that had been started when it was made has ended and is joined, so that it runs nothing any more
and may be deleted. -/
theorem shutdown_returned (worker_num : ℕ) (msg : Bool) (ops : List ThreadsOp)
    (h : Meets (step worker_num msg) AfterStart init ops) :
    Always (step worker_num msg) (fun s => ∀ r ∈ s.returns, r.function = .shutdown →
      r.caller = .app ∧ ∀ t ∈ r.started, s.Down t) init ops :=
  (inv_always worker_num msg ops h).mono fun s h r hr hfun => by
    obtain ⟨hcaller, hsub, hdown⟩ := h.returned r hr (by simp [hfun])
    exact ⟨hcaller, fun t ht => hdown t ht (hfun ▸ h.subset (hsub ht))⟩

/-- `start()` with one worker, until it returns. -/
def startOne : List ThreadsOp :=
  [.call .app .start, .exec .app, .exec .app, .exec .app, .exec .app, .exec .app]

/-- The application shuts the service down, and meanwhile so does a callback on the event thread,
which stops and joins what is left and ends with the exception of a thread that joins itself. -/
def shutdownTwice : List ThreadsOp :=
  startOne ++ [.call .app .shutdown, .exec .app, .exec .app, .exec .app, .body .eq .enter,
    .call (.thread .eq) .shutdown, .body (.cq 0) .enter, .body (.cq 0) (.leave 0),
    .body (.cq 0) .check, .exec .app, .exec .app, .exec .app, .exec .app,
    .exec (.thread .eq), .exec (.thread .eq), .exec (.thread .eq), .exec (.thread .eq),
    .exec (.thread .eq), .exec (.thread .eq), .exec .app, .exec .app, .exec .app]

/-- The call of the application returns. -/
theorem shutdown_returned_twice :
    (run (step 1 true) init shutdownTwice).map (fun s => s.returns.map (·.function)) =
        some [.shutdown, .start] ∧
      Always (step 1 true) (fun s => ∀ r ∈ s.returns, r.function = .shutdown →
        r.caller = .app ∧ ∀ t ∈ r.started, s.Down t) init shutdownTwice :=
  ⟨by decide +kernel, shutdown_returned 1 true shutdownTwice (by decide +kernel)⟩

/-- A callback on a thread that `start()` has not assigned yet finds nothing to join. -/
example : (run (step 1 true) init [.call .app .start, .exec .app, .body .eq .enter,
    .call (.thread .eq) .shutdown, .exec (.thread .eq), .exec (.thread .eq), .exec (.thread .eq),
    .exec (.thread .eq), .exec (.thread .eq), .exec (.thread .eq)]).map
      (fun s => s.returns.map (·.caller)) = some [.thread .eq] := by
  decide +kernel

end ServiceThreads

/-- Of the entries that a thread begins after it has been stopped there is at most one. -/
structure ThreadWrapper.Counted (x : ThreadWrapper) : Prop where
  once : x.afterStop ≤ 1
  loop : x.body = .loop → x.afterStop = 0
  running : x.done = false → x.afterStop = 0

namespace ServiceThreads

variable {worker_num : ℕ} {msg : Bool} {s s' : ServiceThreads} {c : Caller} {t : ServiceThread}
  {x y : ThreadWrapper} {k : FunctionCall}

/-! ## Entries after `stop()` -/

theorem counted_started : ThreadWrapper.started.Counted :=
  ⟨by decide, fun _ => rfl, fun _ => rfl⟩

/-- What a call does to a thread adds no entry. -/
theorem counted_of (h : x.Counted) (hbody : y.body = x.body) (hcount : y.afterStop = x.afterStop)
    (hdone : x.done = true → y.done = true) : y.Counted where
  once := hcount ▸ h.once
  loop := fun hb => hcount.trans (h.loop (hbody ▸ hb))
  running := fun hd => by
    refine hcount.trans (h.running ?_)
    by_contra hx
    exact absurd (hd.symm.trans (hdone (by simpa using hx))) (by simp)

theorem counted_body {calling : Bool} {b : BodyStep} (h : x.Counted)
    (hstep : body calling x b = some y) : y.Counted := by
  obtain ⟨-, hdone, -, hcases⟩ := body_cases hstep
  have hrunning : y.done = false → x.afterStop = 0 := fun hd => h.running (hdone ▸ hd)
  rcases hcases with ⟨hb, hentry, hcount⟩ | ⟨-, -, hb, hcount⟩ | ⟨-, hb, hcount⟩ |
    ⟨⟨ret, -, hb⟩, hcount⟩
  · have hzero : x.afterStop = 0 := h.loop hb
    refine ⟨?_, fun hloop => absurd (hentry.symm.trans hloop) (by simp), fun hd => ?_⟩
    · rw [hcount, hzero]
      split <;> simp
    · simp [hcount, hzero, hdone.symm.trans hd]
  · exact ⟨hcount ▸ h.once, fun hloop => absurd hloop hb, fun hd => hcount.trans (hrunning hd)⟩
  · exact ⟨hcount ▸ h.once, fun hloop => absurd (hb.symm.trans hloop) (by simp),
      fun hd => hcount.trans (hrunning hd)⟩
  · refine ⟨hcount ▸ h.once, fun hloop => ?_, fun hd => hcount.trans (hrunning hd)⟩
    rw [hcount]
    refine h.running ?_
    by_contra hd
    simp [hb, hd] at hloop

/-- Every thread is so. -/
def AllCounted (s : ServiceThreads) : Prop := ∀ t x, s.thread t = some x → x.Counted

theorem allCounted_setThread (h : s.AllCounted) (hy : y.Counted) :
    (s.setThread t y).AllCounted := by
  intro u z hz
  rcases of_update hz with ⟨-, hyz⟩ | ⟨-, hz⟩
  · exact Option.some.inj hyz ▸ hy
  · exact h u z hz

theorem allCounted_raise (h : s.AllCounted) : (s.raise c).AllCounted := by
  cases c with
  | app => exact h
  | thread t =>
    cases hx : s.thread t with
    | none => rwa [raise_thread_of_none hx]
    | some x =>
      have hx := h t x hx
      have hy : ({ x with body := .ended } : ThreadWrapper).Counted :=
        ⟨hx.once, fun hb => absurd hb (by simp), hx.running⟩
      rw [raise_thread ‹_›]
      exact allCounted_setThread (s := s.setCall (.thread t) none) h hy

/-- A step keeps it, whoever calls what. -/
theorem allCounted_step (h : s.AllCounted) {op : ThreadsOp}
    (hstep : step worker_num msg s op = some s') : s'.AllCounted := by
  cases op with
  | call c f =>
    simp only [step, Option.ite_none_right_eq_some, Option.some.injEq] at hstep
    obtain ⟨-, rfl⟩ := hstep
    exact h
  | exec c =>
    cases hk : s.call c with
    | none => simp [step, hk] at hstep
    | some k =>
      cases ha : k.rest with
      | nil =>
        simp only [step, hk, ha, Option.some.injEq] at hstep
        subst hstep
        exact h
      | cons a rest =>
        simp only [step, hk, ha] at hstep
        obtain ⟨t, rfl⟩ | rfl | ⟨rest', rfl⟩ | ⟨t, x, y, rest', hx, rfl, hbody, hcount, hdone⟩ :=
          statement_cases hstep
        · exact allCounted_setThread h counted_started
        · exact allCounted_raise h
        · exact h
        · exact allCounted_setThread h (counted_of (h t x hx) hbody hcount hdone)
  | body t b =>
    cases hx : s.thread t with
    | none => simp [step, hx] at hstep
    | some x =>
      simp only [step, hx, Option.map_eq_some_iff] at hstep
      obtain ⟨y, hbody, rfl⟩ := hstep
      exact allCounted_setThread h (counted_body (h t x hx) hbody)

/-- **A stopped thread begins at most one more entry**, in every run. -/
theorem one_more_entry (worker_num : ℕ) (msg : Bool) (ops : List ThreadsOp) :
    Always (step worker_num msg) (fun s => ∀ t x, s.thread t = some x → x.afterStop ≤ 1)
      init ops := by
  have hinit : AllCounted init := by simp [AllCounted, init]
  refine (always_of_meets (fun _ _ _ h _ hstep => allCounted_step h hstep) hinit
    (meets_true _ _)).mono fun _ h t x hx => (h t x hx).once

end ServiceThreads

end Hpnl
