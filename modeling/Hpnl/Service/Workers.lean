import Hpnl.MsgStack.RoundRobin

/-!
# The number of workers

`worker_num` comes from the constructor of a `Client` or a `Server` and is checked nowhere.  It
bounds the loops over `MsgStack::cqs`, over the `cq_demultiplexer` and `cqThread` arrays of the
`Service` and over the array of the `Proactor`, which have `MAX_WORKERS` entries each, and
`connect` and `accept` take `seq_num` modulo it.  `init` may be called again, and for the other
kind of stack.

* `WorkerService` — a service, and the accesses that it has made.
* `InRange`, `InRangeAfter` — unless an `init` has reported an error, every access is inside its
  array and no divisor is 0; the same for what is done after a successful `init`.
* `Allowed` — the condition on `worker_num`.
* `inRange_tfae` — **every call is safe if and only if the number is allowed**: at most
  `MAX_WORKERS`, and not 0 where there is a `MsgStack`.
-/

namespace Hpnl

open MachineInt Transition

/-- An access to the arrays: `MsgStack::cqs`, `Service::cq_demultiplexer`, `Service::cqThread`
and `Proactor::cqDemultiplexer`; or the divisor of `seq_num % worker_num`. -/
inductive WorkerAccess where
  | cqs (i : ℕ)
  | cq_demultiplexer (i : ℕ)
  | cqThread (i : ℕ)
  | cqDemultiplexer (i : ℕ)
  | modulo (divisor : ℕ)
  deriving DecidableEq, Repr

def WorkerAccess.InRange : WorkerAccess → Prop
  | cqs i | cq_demultiplexer i | cqThread i | cqDemultiplexer i => i < MAX_WORKERS
  | modulo divisor => divisor ≠ 0

instance : (a : WorkerAccess) → Decidable a.InRange
  | .cqs i | .cq_demultiplexer i | .cqThread i | .cqDemultiplexer i =>
      inferInstanceAs (Decidable (i < MAX_WORKERS))
  | .modulo divisor => inferInstanceAs (Decidable (divisor ≠ 0))

/-- A `MsgStack`.  What lies behind the array `cqs` is taken to be more of it. -/
structure WorkerQueues where
  initialized : Bool
  cqs : ℕ → Addr
  seq_num : ℕ

/-- The `stack` of a `Service`. -/
inductive WorkerServiceStack where
  | null
  | msg (s : WorkerQueues)
  | rdm

/-- A `Service`.  `proactor` is whether that pointer is not null, `cqThread` the threads that
have been made and `alive` whether the object is there and the process running.  `failed`: an
`init` has reported an error; `ready`: one has returned 0.  The accesses that were made until
then are in `before`, the others in `after`. -/
structure WorkerService where
  worker_num : Int32
  is_server : Bool
  msg : Bool
  stack : WorkerServiceStack
  proactor : Bool
  cqThread : ℕ → Bool
  alive : Bool
  failed : Bool
  ready : Bool
  before : List WorkerAccess
  after : List WorkerAccess

/-- What the calls of `init` to the libraries return.  `fabric` is for those that `MsgStack::init`
makes before it opens the queues, `opens` for `fi_cq_open`, which fails with a null pointer,
`eq`, `cq` and `rdm` for the `init` of the demultiplexers and of the `RdmStack`. -/
structure WorkerInit where
  fabric : Bool
  opens : ℕ → Addr
  eq : Bool
  cq : ℕ → Bool
  rdm : Bool

/-- A call.  `args` is whether the arguments are there and `fi_getinfo` succeeds, `init` whether
the connection's `init` does but for the queue, `res` what its `connect` returns. -/
inductive WorkerServiceOp where
  | init (msg_ : Bool) (c : WorkerInit)
  | start
  | connect (args init : Bool) (res : ℤ)
  /-- The thread of the events gets a request for a connection. -/
  | accept (args init : Bool)
  /-- A round of the thread of a worker. -/
  | cq_service (i : ℕ)
  | shutdown
  /-- `~Service`. -/
  | destroy

namespace WorkerService

/-- `Service::Service`. -/
def construct (worker_num : Int32) (is_server : Bool) : WorkerService :=
  { worker_num := worker_num
    is_server := is_server
    msg := true
    stack := .null
    proactor := false
    cqThread := fun _ => false
    alive := true
    failed := false
    ready := false
    before := []
    after := [] }

/-! ## The loops -/

/-- `for (int i = 0; i < worker_num; i++)`. -/
def workers (worker_num : Int32) : List ℕ := List.range worker_num.toInt.toNat

/-- A loop that is left at the first failure: the rounds that are begun, and whether all
succeed. -/
def untilFailure (ok : ℕ → Bool) : List ℕ → List ℕ × Bool
  | [] => ([], true)
  | i :: is => if ok i then (i :: (untilFailure ok is).1, (untilFailure ok is).2) else ([i], false)

def log (w : WorkerService) (accesses : List WorkerAccess) : WorkerService :=
  if w.ready then { w with after := w.after ++ accesses }
  else { w with before := w.before ++ accesses }

def fail (w : WorkerService) : WorkerService := { w with failed := true }

/-- `MsgStack::init` of a new stack: the stack, and whether it is a success. -/
def openQueues (w : WorkerService) (c : WorkerInit) : WorkerService × Bool :=
  let r := untilFailure (fun i => c.opens i ≠ nullptr) (workers w.worker_num)
  let cqs := fun i => if i ∈ r.1 then c.opens i else nullptr
  if c.fabric = false then ({ w with stack := .msg ⟨false, fun _ => nullptr, 0⟩ }, false)
  else if r.2 = false then
    ({ w.log (r.1.map .cqs ++ (workers w.worker_num).map .cqs) with
        stack := .msg ⟨false, cqs, 0⟩ }, false)
  else ({ w.log (r.1.map .cqs) with stack := .msg ⟨true, cqs, 0⟩ }, true)

/-- The `CqDemultiplexer`s are made and initialized. -/
def openDemultiplexers (w : WorkerService) (c : WorkerInit) : WorkerService × Bool :=
  let r := untilFailure c.cq (workers w.worker_num)
  (w.log (r.1.flatMap fun i => [.cq_demultiplexer i, .cqs i]), r.2)

/-- `Proactor::Proactor`. -/
def newProactor (w : WorkerService) : WorkerService :=
  { w.log ((workers w.worker_num).flatMap fun i => [.cqDemultiplexer i, .cq_demultiplexer i]) with
    proactor := true, ready := true }

/-- `Service::init`. -/
def init (w : WorkerService) (msg_ : Bool) (c : WorkerInit) : WorkerService :=
  if msg_ then
    let s := { w with msg := msg_ }.openQueues c
    if s.2 = false ∨ c.eq = false then s.1.fail
    else
      let d := s.1.openDemultiplexers c
      if d.2 = false then d.1.fail else d.1.newProactor
  else if c.rdm = false then { w with msg := msg_, stack := .rdm }.fail
  else { w with msg := msg_, stack := .rdm, proactor := true, ready := true }

/-- `Service::start`. -/
def start (w : WorkerService) : WorkerService :=
  if w.proactor ∧ w.msg then
    { w.log ((workers w.worker_num).map .cqThread) with
      cqThread := fun i => i ∈ workers w.worker_num || w.cqThread i }
  else w

/-- A new connection is bound to `cqs[seq_num % worker_num]`, where `worker_num` is converted to
`uint64_t`; it is recorded unless its `init` fails or it is given up.  The `fi_ep_bind` in `init`
gets a null queue where none was opened. -/
def bindConnection (bindsNull : Bool) (w : WorkerService) (s : WorkerQueues)
    (init recorded : Bool) : WorkerService :=
  let divisor := toUInt64 w.worker_num.toInt
  if divisor = 0 then { w.log [.modulo divisor] with alive := false }
  else
    let i := s.seq_num % divisor
    if init ∧ recorded ∧ (bindsNull ∨ s.cqs i ≠ nullptr) then
      { w.log [.modulo divisor, .cqs i, .modulo divisor] with
        stack := .msg { s with seq_num := toUInt64 (s.seq_num + 1) } }
    else w.log [.modulo divisor, .cqs i, .modulo divisor]

/-- `~Service`, with `~MsgStack`.  Two of the loops are left after one round by a client. -/
def destroy (w : WorkerService) : WorkerService :=
  let made := if w.is_server then workers w.worker_num else (workers w.worker_num).take 1
  let cqs := match w.stack with
    | .msg _ => (workers w.worker_num).map .cqs
    | .null | .rdm => []
  { w.log (cqs ++ made.map .cq_demultiplexer ++ made.map .cqThread) with
    stack := .null, alive := false }

/-- One call of a service whose `init` is called for one kind of stack only, if `mode` is one;
`bindsNull` is whether `fi_ep_bind` succeeds for a null queue.  A connection without a `MsgStack`
is a null dereference. -/
def step (mode : Option Bool) (bindsNull : Bool) (w : WorkerService) (op : WorkerServiceOp) :
    Option WorkerService :=
  if w.alive = false then none
  else
    match op with
    | .init msg_ c => if mode = some (!msg_) then none else some (w.init msg_ c)
    | .start => some w.start
    | .connect args init res =>
        if w.is_server then some w
        else
          match w.stack with
          | .null | .rdm => none
          | .msg s =>
              if s.initialized = false ∨ args = false then some w
              else some (w.bindConnection bindsNull s init (res = 0 ∨ res = WorkerStack.EAGAIN))
    | .accept args init =>
        match w.is_server, w.stack with
        | true, .msg s =>
            if s.initialized = false ∨ args = false then some w
            else some (w.bindConnection bindsNull s init true)
        | _, _ => none
    | .cq_service i => if w.cqThread i then some (w.log [.cqDemultiplexer i]) else none
    | .shutdown => some (w.log ((workers w.worker_num).map .cqThread))
    | .destroy => some w.destroy

/-! ## The accesses -/

/-- An `init` has reported an error, or every access is in range. -/
def InRange (w : WorkerService) : Prop :=
  w.failed = true ∨ ∀ a ∈ w.before ++ w.after, a.InRange

/-- Of those after a successful `init`. -/
def InRangeAfter (w : WorkerService) : Prop := w.failed = true ∨ ∀ a ∈ w.after, a.InRange

/-- At most `MAX_WORKERS` workers; where there may be a `MsgStack`, not 0, and not less than 0
either if connections can be bound to no queue. -/
def Allowed (mode : Option Bool) (bindsNull : Bool) (worker_num : Int32) : Prop :=
  worker_num.toInt ≤ MAX_WORKERS ∧
    (mode ≠ some false → worker_num.toInt ≠ 0 ∧ (0 < worker_num.toInt ∨ bindsNull = false))

/-- What the calls keep when the number is allowed: with no workers no connection is ever
recorded. -/
structure Inv (mode : Option Bool) (n : Int32) (w : WorkerService) : Prop where
  worker_num : w.worker_num = n
  inRange : ∀ a ∈ w.before ++ w.after, a.InRange
  stack : ∀ s, w.stack = .msg s → mode ≠ some false ∧
    (n.toInt ≤ 0 → s.seq_num = 0 ∧ ∀ i, s.cqs i = nullptr)
  cqThread : ∀ i, w.cqThread i = true → i < MAX_WORKERS

variable {mode : Option Bool} {msg bindsNull : Bool} {n : Int32} {w w' : WorkerService}
  {l : List WorkerAccess}

/-! ### The loops -/

theorem lt_of_mem_workers (hn : n.toInt ≤ MAX_WORKERS) {i : ℕ} (hi : i ∈ workers n) :
    i < MAX_WORKERS := by
  have hlt := List.mem_range.mp hi
  omega

theorem workers_eq_nil (hn : n.toInt ≤ 0) : workers n = [] := by
  rw [workers, Int.toNat_eq_zero.mpr hn]
  rfl

theorem mem_of_mem_untilFailure {ok : ℕ → Bool} {i : ℕ} {is : List ℕ}
    (hi : i ∈ (untilFailure ok is).1) : i ∈ is := by
  induction is with
  | nil => cases hi
  | cons j js ih =>
    simp only [untilFailure] at hi
    split at hi
    · rcases List.mem_cons.mp hi with rfl | htail
      · exact List.mem_cons_self
      · exact List.mem_cons_of_mem j (ih htail)
    · rcases List.mem_cons.mp hi with rfl | hnil
      · exact List.mem_cons_self
      · cases hnil

@[simp] theorem untilFailure_true (is : List ℕ) : untilFailure (fun _ => true) is = (is, true) := by
  induction is with
  | nil => rfl
  | cons i is ih => rw [untilFailure, if_pos rfl, ih]

/-- The accesses of a loop over the workers, whatever they are. -/
theorem inRange_flatMap (hn : n.toInt ≤ MAX_WORKERS) {is : List ℕ}
    (his : ∀ i ∈ is, i ∈ workers n) {f : ℕ → List WorkerAccess}
    (hf : ∀ i < MAX_WORKERS, ∀ a ∈ f i, a.InRange) : ∀ a ∈ is.flatMap f, a.InRange := by
  intro a ha
  obtain ⟨i, hi, ha⟩ := List.mem_flatMap.mp ha
  exact hf i (lt_of_mem_workers hn (his i hi)) a ha

theorem inRange_map (hn : n.toInt ≤ MAX_WORKERS) {is : List ℕ} (his : ∀ i ∈ is, i ∈ workers n)
    {f : ℕ → WorkerAccess} (hf : ∀ i < MAX_WORKERS, (f i).InRange) :
    ∀ a ∈ is.map f, a.InRange := by
  intro a ha
  obtain ⟨i, hi, rfl⟩ := List.mem_map.mp ha
  exact hf i (lt_of_mem_workers hn (his i hi))

/-! ### The record -/

@[simp] theorem log_worker_num : (w.log l).worker_num = w.worker_num := by
  unfold log
  split <;> rfl

@[simp] theorem log_is_server : (w.log l).is_server = w.is_server := by
  unfold log
  split <;> rfl

@[simp] theorem log_stack : (w.log l).stack = w.stack := by
  unfold log
  split <;> rfl

@[simp] theorem log_cqThread : (w.log l).cqThread = w.cqThread := by
  unfold log
  split <;> rfl

@[simp] theorem log_alive : (w.log l).alive = w.alive := by
  unfold log
  split <;> rfl

@[simp] theorem log_failed : (w.log l).failed = w.failed := by
  unfold log
  split <;> rfl

@[simp] theorem log_ready : (w.log l).ready = w.ready := by
  unfold log
  split <;> rfl

theorem mem_log {a : WorkerAccess} :
    a ∈ (w.log l).before ++ (w.log l).after ↔ a ∈ w.before ++ w.after ∨ a ∈ l := by
  unfold log
  split
  · simp only [List.mem_append]
    tauto
  · simp only [List.mem_append]
    tauto

/-! ### Each call -/

/-- The accesses that are made are all that matters. -/
theorem Inv.log (h : w.Inv mode n) (hl : ∀ a ∈ l, a.InRange) : (w.log l).Inv mode n where
  worker_num := by rw [log_worker_num, h.worker_num]
  inRange := by
    intro a ha
    rcases mem_log.mp ha with hold | hnew
    · exact h.inRange a hold
    · exact hl a hnew
  stack := by
    rw [log_stack]
    exact h.stack
  cqThread := by
    rw [log_cqThread]
    exact h.cqThread

theorem Inv.openQueues (h : w.Inv mode n) (hn : n.toInt ≤ MAX_WORKERS) (hmode : mode ≠ some false)
    (c : WorkerInit) : (w.openQueues c).1.Inv mode n := by
  obtain rfl := h.worker_num
  have hcqs : ∀ is : List ℕ, (∀ i ∈ is, i ∈ workers w.worker_num) →
      ∀ a ∈ is.map WorkerAccess.cqs, a.InRange :=
    fun is his => inRange_map hn his fun i hi => hi
  have hr : ∀ i ∈ (untilFailure (fun i => c.opens i ≠ nullptr) (workers w.worker_num)).1,
      i ∈ workers w.worker_num := fun i hi => mem_of_mem_untilFailure hi
  -- no queue is opened when there are no workers
  have hnull : w.worker_num.toInt ≤ 0 → ∀ i,
      (if i ∈ (untilFailure (fun i => c.opens i ≠ nullptr) (workers w.worker_num)).1 then
        c.opens i else nullptr) = nullptr := by
    intro hle i
    rw [workers_eq_nil hle]
    exact if_neg List.not_mem_nil
  unfold WorkerService.openQueues
  simp only
  split
  · refine { h with stack := fun s hs => ?_ }
    cases hs
    exact ⟨hmode, fun _ => ⟨rfl, fun _ => rfl⟩⟩
  · split
    · have hlog : ∀ a ∈ (untilFailure (fun i => c.opens i ≠ nullptr)
          (workers w.worker_num)).1.map WorkerAccess.cqs ++
          (workers w.worker_num).map WorkerAccess.cqs, a.InRange := by
        intro a ha
        rcases List.mem_append.mp ha with hopen | hclose
        · exact hcqs _ hr a hopen
        · exact hcqs _ (fun i hi => hi) a hclose
      refine { h.log hlog with stack := fun s hs => ?_ }
      cases hs
      exact ⟨hmode, fun hle => ⟨rfl, hnull hle⟩⟩
    · refine { h.log (hcqs _ hr) with stack := fun s hs => ?_ }
      cases hs
      exact ⟨hmode, fun hle => ⟨rfl, hnull hle⟩⟩

theorem Inv.openDemultiplexers (h : w.Inv mode n) (hn : n.toInt ≤ MAX_WORKERS) (c : WorkerInit) :
    (w.openDemultiplexers c).1.Inv mode n := by
  refine h.log (inRange_flatMap hn (fun i hi => ?_) fun i hi a ha => ?_)
  · rw [← h.worker_num]
    exact mem_of_mem_untilFailure hi
  · rcases List.mem_pair.mp ha with rfl | rfl
    · exact hi
    · exact hi

theorem Inv.newProactor (h : w.Inv mode n) (hn : n.toInt ≤ MAX_WORKERS) :
    w.newProactor.Inv mode n := by
  have hlog : ∀ a ∈ (workers w.worker_num).flatMap
      fun i => [WorkerAccess.cqDemultiplexer i, .cq_demultiplexer i], a.InRange := by
    refine inRange_flatMap hn (fun i hi => h.worker_num ▸ hi) fun i hi a ha => ?_
    rcases List.mem_pair.mp ha with rfl | rfl
    · exact hi
    · exact hi
  exact { h.log hlog with }

theorem Inv.fail (h : w.Inv mode n) : w.fail.Inv mode n := { h with }

theorem Inv.init (h : w.Inv mode n) (hn : n.toInt ≤ MAX_WORKERS) {msg_ : Bool}
    (hmode : mode ≠ some (!msg_)) (c : WorkerInit) : (w.init msg_ c).Inv mode n := by
  have hset : ({ w with msg := msg_ } : WorkerService).Inv mode n := { h with }
  cases msg_ with
  | true =>
    have hqueues := hset.openQueues hn hmode c
    have hdemultiplexers := hqueues.openDemultiplexers hn c
    simp only [WorkerService.init, if_true]
    split
    · exact hqueues.fail
    · split
      · exact hdemultiplexers.fail
      · exact hdemultiplexers.newProactor hn
  | false =>
    have hrdm : ∀ s, WorkerServiceStack.rdm = .msg s → mode ≠ some false ∧
        (n.toInt ≤ 0 → s.seq_num = 0 ∧ ∀ i, s.cqs i = nullptr) := by
      intro s hs
      cases hs
    simp only [WorkerService.init, Bool.false_eq_true, if_false]
    split
    · exact { h with stack := hrdm }
    · exact { h with stack := hrdm }

theorem Inv.start (h : w.Inv mode n) (hn : n.toInt ≤ MAX_WORKERS) : w.start.Inv mode n := by
  unfold WorkerService.start
  split
  · have hlog : ∀ a ∈ (workers w.worker_num).map WorkerAccess.cqThread, a.InRange :=
      inRange_map hn (fun i hi => h.worker_num ▸ hi) fun i hi => hi
    exact { h.log hlog with
      cqThread := fun i hi => by
        rcases Bool.or_eq_true_iff.mp hi with hnew | hold
        · rw [h.worker_num] at hnew
          exact lt_of_mem_workers hn (of_decide_eq_true hnew)
        · exact h.cqThread i hold }
  · exact h

/-! ### The divisor -/

/-- The conversion of an `int` to `uint64_t` is 0 for 0 only. -/
theorem toUInt64_ne_zero (hn : n.toInt ≠ 0) : toUInt64 n.toInt ≠ 0 := by
  have hlo := n.le_toInt
  have hhi := n.toInt_lt
  simp only [toUInt64]
  omega

theorem toUInt64_of_pos (hn : 0 < n.toInt) : (toUInt64 n.toInt : ℤ) = n.toInt := by
  have hhi := n.toInt_lt
  simp only [toUInt64]
  omega

/-- A negative `int` becomes very large. -/
theorem lt_toUInt64_of_neg (hn : n.toInt < 0) : 2 ^ 63 < toUInt64 n.toInt := by
  have hlo := n.le_toInt
  simp only [toUInt64]
  omega

/-- **A connection is bound**: the index is the remainder by the number of workers, or 0 when
there are none. -/
theorem Inv.bindConnection (h : w.Inv mode n) (hn : Allowed mode bindsNull n) {s : WorkerQueues}
    (hs : w.stack = .msg s) (init recorded : Bool) :
    (w.bindConnection bindsNull s init recorded).Inv mode n := by
  obtain ⟨hmsg, hnone⟩ := h.stack s hs
  obtain ⟨hne, hor⟩ := hn.2 hmsg
  obtain rfl := h.worker_num
  have hdivisor := toUInt64_ne_zero hne
  have hindex : s.seq_num % toUInt64 w.worker_num.toInt < MAX_WORKERS := by
    rcases lt_or_gt_of_ne hne with hneg | hpos
    · rw [(hnone hneg.le).1, Nat.zero_mod]
      decide
    · have hlt := Nat.mod_lt s.seq_num (Nat.pos_of_ne_zero hdivisor)
      have heq := toUInt64_of_pos hpos
      have hle := hn.1
      omega
  have hlog : ∀ a ∈ [WorkerAccess.modulo (toUInt64 w.worker_num.toInt),
      .cqs (s.seq_num % toUInt64 w.worker_num.toInt),
      .modulo (toUInt64 w.worker_num.toInt)], a.InRange := by
    intro a ha
    simp only [List.mem_cons, List.not_mem_nil, or_false] at ha
    rcases ha with rfl | rfl | rfl
    · exact hdivisor
    · exact hindex
    · exact hdivisor
  unfold WorkerService.bindConnection
  simp only
  rw [if_neg hdivisor]
  split
  · rename_i hbound
    refine { h.log hlog with stack := fun s' hs' => ?_ }
    cases hs'
    refine ⟨hmsg, fun hle => ?_⟩
    -- the queue is a null pointer, which is refused
    rcases hbound.2.2 with htrue | hqueue
    · rcases hor with hpos | hfalse
      · exact absurd hle (not_le.mpr hpos)
      · rw [hfalse] at htrue
        cases htrue
    · exact absurd ((hnone hle).2 _) hqueue
  · exact h.log hlog

theorem Inv.destroy (h : w.Inv mode n) (hn : n.toInt ≤ MAX_WORKERS) : w.destroy.Inv mode n := by
  obtain rfl := h.worker_num
  have hmade : ∀ i ∈ (if w.is_server then workers w.worker_num else
      (workers w.worker_num).take 1), i ∈ workers w.worker_num := by
    intro i hi
    split at hi
    · exact hi
    · exact List.mem_of_mem_take hi
  unfold WorkerService.destroy
  simp only
  refine { h.log (l := _) fun a ha => ?_ with stack := fun s hs => by cases hs }
  rcases List.mem_append.mp ha with ha | hthread
  · rcases List.mem_append.mp ha with hcqs | hdemultiplexer
    · split at hcqs
      · exact inRange_map hn (f := .cqs) (fun i hi => hi) (fun i hi => hi) a hcqs
      · cases hcqs
      · cases hcqs
    · exact inRange_map hn (f := .cq_demultiplexer) hmade (fun i hi => hi) a hdemultiplexer
  · exact inRange_map hn (f := .cqThread) hmade (fun i hi => hi) a hthread

theorem inv_construct (mode : Option Bool) (is_server : Bool) (n : Int32) :
    (construct n is_server).Inv mode n where
  worker_num := rfl
  inRange := by simp [construct]
  stack := by simp [construct]
  cqThread := by simp [construct]

theorem inv_step (hn : Allowed mode bindsNull n) (op : WorkerServiceOp) (h : w.Inv mode n)
    (hstep : step mode bindsNull w op = some w') : w'.Inv mode n := by
  unfold step at hstep
  split at hstep
  · cases hstep
  · cases op with
    | init msg_ c =>
      simp only at hstep
      split at hstep
      · cases hstep
      · rename_i hmode
        cases hstep
        exact h.init hn.1 hmode c
    | start =>
      cases hstep
      exact h.start hn.1
    | connect args init res =>
      simp only at hstep
      split at hstep
      · cases hstep
        exact h
      · split at hstep
        · cases hstep
        · cases hstep
        · rename_i s hs
          split at hstep
          · cases hstep
            exact h
          · cases hstep
            exact h.bindConnection hn hs ..
    | accept args init =>
      simp only at hstep
      split at hstep
      · rename_i s _ hs
        split at hstep
        · cases hstep
          exact h
        · cases hstep
          exact h.bindConnection hn hs ..
      · cases hstep
    | cq_service i =>
      simp only at hstep
      split at hstep
      · rename_i hi
        cases hstep
        refine h.log fun a ha => ?_
        cases List.mem_singleton.mp ha
        exact h.cqThread i hi
      · cases hstep
    | shutdown =>
      cases hstep
      exact h.log (inRange_map hn.1 (fun i hi => h.worker_num ▸ hi) fun i hi => hi)
    | destroy =>
      cases hstep
      exact h.destroy hn.1

/-! ## Too many workers, and none -/

/-- Everything `init` calls succeeds. -/
def allOpen : WorkerInit :=
  { fabric := true, opens := fun i => i + 1, eq := true, cq := fun _ => true, rdm := true }

/-- What makes a connection. -/
def request (is_server : Bool) : WorkerServiceOp :=
  if is_server then .accept true true else .connect true true 0

/-- `init` has returned 0, and since then `k` connections have been recorded. -/
structure Opened (msg : Bool) (n : Int32) (is_server : Bool) (k : ℕ) (w : WorkerService) :
    Prop where
  worker_num : w.worker_num = n
  is_server : w.is_server = is_server
  alive : w.alive = true
  failed : w.failed = false
  ready : w.ready = true
  stack : msg = true → ∃ s, w.stack = .msg s ∧ s.initialized = true ∧ s.seq_num = k

theorem opened_init (msg is_server : Bool) (n : Int32) :
    ((construct n is_server).init msg allOpen).Opened msg n is_server 0 := by
  cases msg with
  | true =>
    constructor <;>
      simp [init, openQueues, openDemultiplexers, newProactor, construct, allOpen]
  | false => constructor <;> simp [init, construct, allOpen]

theorem run_init (hmode : mode ≠ some (!msg)) (bindsNull is_server : Bool) (n : Int32) :
    run (step mode bindsNull) (construct n is_server) [.init msg allOpen] =
      some ((construct n is_server).init msg allOpen) := by
  refine run_one ?_
  have halive : (construct n is_server).alive = true := rfl
  simp [step, halive, hmode]

/-- A request for a connection gets to the choice of the queue. -/
theorem Opened.step_request {is_server : Bool} {k : ℕ} (h : w.Opened true n is_server k)
    (mode : Option Bool) (bindsNull : Bool) :
    ∃ s, s.seq_num = k ∧ w.stack = .msg s ∧ s.initialized = true ∧
      step mode bindsNull w (request is_server) =
        some (w.bindConnection bindsNull s true true) := by
  obtain ⟨s, hs, hinit, hk⟩ := h.stack rfl
  refine ⟨s, hk, hs, hinit, ?_⟩
  have hserver := h.is_server
  cases is_server with
  | true => simp [step, request, h.alive, hserver, hs, hinit]
  | false => simp [step, request, h.alive, hserver, hs, hinit]

/-- What is recorded from now on. -/
theorem Opened.mem_after {is_server : Bool} {k : ℕ} (h : w.Opened msg n is_server k)
    {a : WorkerAccess} (ha : a ∈ l) : a ∈ (w.log l).after := by
  rw [WorkerService.log, if_pos h.ready]
  exact List.mem_append_right _ ha

/-- An access that is out of range is not forgiven. -/
theorem not_inRangeAfter {a : WorkerAccess} (hfailed : w.failed = false) (ha : a ∈ w.after)
    (hbad : ¬ a.InRange) : ¬ w.InRangeAfter := by
  rintro (htrue | hall)
  · rw [hfailed] at htrue
    cases htrue
  · exact hbad (hall a ha)

/-- With more than `MAX_WORKERS` workers, `shutdown` goes past the end of `cqThread`. -/
theorem exists_of_lt (hn : MAX_WORKERS < n.toInt) (hmode : mode ≠ some (!msg))
    (bindsNull is_server : Bool) :
    ∃ w, run (step mode bindsNull) (construct n is_server) [.init msg allOpen, .shutdown] = some w ∧
      ¬ w.InRangeAfter := by
  set w := (construct n is_server).init msg allOpen with hw
  have h : w.Opened msg n is_server 0 := opened_init msg is_server n
  have hstep : step mode bindsNull w .shutdown =
      some (w.log ((workers w.worker_num).map .cqThread)) := by
    simp [step, h.alive]
  have hmem : WorkerAccess.cqThread MAX_WORKERS ∈ (workers w.worker_num).map .cqThread := by
    rw [h.worker_num]
    refine List.mem_map_of_mem (List.mem_range.mpr ?_)
    omega
  refine ⟨_, run_trans (run_init hmode bindsNull is_server n) (run_one hstep), ?_⟩
  exact not_inRangeAfter (log_failed.trans h.failed) (h.mem_after hmem) (lt_irrefl MAX_WORKERS)

/-- Without a worker, the first connection divides by 0. -/
theorem exists_of_eq_zero (hn : n.toInt = 0) (hmode : mode ≠ some false)
    (bindsNull is_server : Bool) :
    ∃ w, run (step mode bindsNull) (construct n is_server)
      [.init true allOpen, request is_server] = some w ∧ ¬ w.InRangeAfter := by
  have h := opened_init true is_server n
  obtain ⟨s, -, -, -, hstep⟩ := h.step_request mode bindsNull
  refine ⟨_, run_trans (run_init hmode bindsNull is_server n) (run_one hstep), ?_⟩
  have hzero : toUInt64 ((construct n is_server).init true allOpen).worker_num.toInt = 0 := by
    rw [h.worker_num, hn]
    simp [toUInt64]
  unfold bindConnection
  simp only
  rw [if_pos hzero]
  refine not_inRangeAfter (a := .modulo 0) (log_failed.trans h.failed) (h.mem_after ?_) fun hne =>
    hne rfl
  rw [hzero]
  exact List.mem_singleton_self _

/-- A connection is recorded: with a negative number, its index is its number. -/
theorem Opened.bindConnection {is_server : Bool} {k : ℕ} (h : w.Opened true n is_server k)
    (hn : n.toInt < 0) (hk : k < 2 ^ 63) {s : WorkerQueues} (hs : s.seq_num = k)
    (hinit : s.initialized = true) :
    (w.bindConnection true s true true).Opened true n is_server (k + 1) ∧
      .cqs k ∈ (w.bindConnection true s true true).after := by
  have hlt := lt_toUInt64_of_neg hn
  have hbind : w.bindConnection true s true true =
      { w.log [.modulo (toUInt64 n.toInt), .cqs k, .modulo (toUInt64 n.toInt)] with
        stack := .msg { s with seq_num := k + 1 } } := by
    unfold WorkerService.bindConnection
    have hne : toUInt64 n.toInt ≠ 0 := toUInt64_ne_zero hn.ne
    have hmod : k % toUInt64 n.toInt = k := Nat.mod_eq_of_lt (hk.trans hlt)
    have hseq : toUInt64 ((k : ℤ) + 1) = k + 1 := toUInt64_eq_self (x := k + 1) (by omega)
    simp [h.worker_num, hs, hne, hmod, hseq]
  rw [hbind]
  refine ⟨⟨?_, ?_, ?_, ?_, ?_, fun _ => ⟨_, rfl, hinit, rfl⟩⟩, ?_⟩
  · exact log_worker_num.trans h.worker_num
  · exact log_is_server.trans h.is_server
  · exact log_alive.trans h.alive
  · exact log_failed.trans h.failed
  · exact log_ready.trans h.ready
  · exact h.mem_after (by simp)

/-- With a negative number, and connections that can be bound to no queue, the requests are
recorded one after the other. -/
theorem exists_opened (hn : n.toInt < 0) (hmode : mode ≠ some false) (is_server : Bool) {k : ℕ}
    (hk : k ≤ 2 ^ 63) :
    ∃ w, run (step mode true) (construct n is_server)
        (.init true allOpen :: List.replicate k (request is_server)) = some w ∧
      w.Opened true n is_server k := by
  induction k with
  | zero => exact ⟨_, run_init hmode .., opened_init ..⟩
  | succ k ih =>
    obtain ⟨w, hrun, h⟩ := ih (Nat.le_of_succ_le hk)
    obtain ⟨s, hs, -, hinit, hstep⟩ := h.step_request mode true
    refine ⟨_, ?_, (h.bindConnection hn hk hs hinit).1⟩
    rw [List.replicate_succ', ← List.cons_append]
    exact run_trans hrun (run_one hstep)

/-- Then one of them goes past the end of `cqs`. -/
theorem exists_of_neg (hn : n.toInt < 0) (hmode : mode ≠ some false) (is_server : Bool) :
    ∃ ops w, run (step mode true) (construct n is_server) ops = some w ∧ ¬ w.InRangeAfter := by
  obtain ⟨w, hrun, h⟩ := exists_opened hn hmode is_server (k := MAX_WORKERS) (by norm_num)
  obtain ⟨s, hs, -, hinit, hstep⟩ := h.step_request mode true
  obtain ⟨hopened, hmem⟩ := h.bindConnection hn (by norm_num) hs hinit
  exact ⟨_, _, run_trans hrun (run_one hstep),
    not_inRangeAfter hopened.failed hmem (lt_irrefl MAX_WORKERS)⟩

/-- **The exact condition on the number of workers.**  For both roles, and with `init` called for
one kind of stack only or for either: every access of every run is in range, those of `init`
included, if and only if those after a successful `init` are, if and only if the number is
allowed. -/
theorem inRange_tfae (mode : Option Bool) (bindsNull is_server : Bool) (n : Int32) :
    List.TFAE [
      ∀ ops w, run (step mode bindsNull) (construct n is_server) ops = some w → w.InRange,
      ∀ ops w, run (step mode bindsNull) (construct n is_server) ops = some w → w.InRangeAfter,
      Allowed mode bindsNull n] := by
  tfae_have 1 → 2 := by
    intro h ops w hrun
    rcases h ops w hrun with hfailed | hall
    · exact Or.inl hfailed
    · exact Or.inr fun a ha => hall a (List.mem_append_right _ ha)
  tfae_have 2 → 3 := by
    intro h
    refine ⟨not_lt.mp fun hlt => ?_, fun hmode => ?_⟩
    · have hmsg : mode ≠ some (!mode.getD true) := by
        rcases mode with _ | msg
        · simp
        · cases msg <;> simp
      obtain ⟨w, hrun, hbad⟩ := exists_of_lt hlt hmsg bindsNull is_server
      exact hbad (h _ w hrun)
    · have hne : n.toInt ≠ 0 := by
        intro hzero
        obtain ⟨w, hrun, hbad⟩ := exists_of_eq_zero hzero hmode bindsNull is_server
        exact hbad (h _ w hrun)
      refine ⟨hne, ?_⟩
      cases bindsNull with
      | false => exact Or.inr rfl
      | true =>
        refine Or.inl (not_le.mp fun hle => ?_)
        obtain ⟨ops, w, hrun, hbad⟩ := exists_of_neg (lt_of_le_of_ne hle hne) hmode is_server
        exact hbad (h ops w hrun)
  tfae_have 3 → 1 := by
    intro hn ops w hrun
    have hinv : w.Inv mode n :=
      inv_last (fun _ op _ h hstep => inv_step hn op h hstep) (inv_construct ..) hrun
    exact Or.inr hinv.inRange
  tfae_finish

/-- `Client(0)`: `init` returns 0, and `connect` divides by 0. -/
theorem not_inRange_zero :
    ∃ w, run (step none false) (construct 0 false)
      [.init true allOpen, .connect true true 0] = some w ∧ ¬ w.InRangeAfter :=
  exists_of_eq_zero (by decide) (by simp) false false

/-- `Server(11)`: `init` returns 0. -/
theorem not_inRange_eleven :
    ∃ w, run (step none false) (construct 11 true) [.init true allOpen, .shutdown] = some w ∧
      ¬ w.InRangeAfter :=
  exists_of_lt (by decide) (by simp) false true

end WorkerService

end Hpnl
