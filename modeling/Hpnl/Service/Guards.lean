import Hpnl.MsgStack.RmaBuffers

/-!
# Calls of a service that it is not ready for

`Service::init` sets the flag `msg`, creates a stack of that kind, initializes it, and only then
creates the demultiplexers and the proactor.  The other calls test the role, and some of them
the proactor; the kind of the stack is tested by nobody, and whether there is one is not tested
before it is used (`src/service/Service.cc`).

* `ServiceApi` — a service; `reply` — what a call answers, a crash included.
* `Supports`, `Safe` — the service is ready for a call; a call crashes nothing, and is turned
  away when the service is not ready for it.
* `Guard`, `safe_iff_guard` — **the exact condition on a call**.
* `safe_iff_meets` — **every call of a run is safe if and only if** each meets the condition.
-/

namespace Hpnl

open Transition

inductive ServiceMode where
  | msg
  | rdm
  deriving DecidableEq, Repr

/-- A `Stack*` that is not null: a `MsgStack`, as far as RMA buffers go, or an `RdmStack` and
whether it is initialized. -/
inductive ServiceStack where
  | msg (stack : MsgStack.Rma)
  | rdm (initialized : Bool)

namespace ServiceStack

def mode : ServiceStack → ServiceMode
  | msg _ => .msg
  | rdm _ => .rdm

def initialized : ServiceStack → Bool
  | msg stack => stack.initialized
  | rdm i => i

end ServiceStack

/-- A `Service`.  `proactor` is the kind of demultiplexers that the proactor has, if there is
one; `bufMgr` is whether that pointer is not null.  `ready` is a ghost: the last call of `init`
returned 0. -/
structure ServiceApi where
  is_server : Bool
  msg : Bool
  stack : Option ServiceStack
  proactor : Option ServiceMode
  bufMgr : Bool
  threads : Bool
  mem : Mem
  ready : Bool
  crashed : Bool

/-- How far `init` comes. -/
inductive ServiceInit where
  | done
  /-- `stack->init()` fails. -/
  | stack
  /-- The `init` of a demultiplexer fails. -/
  | demultiplexer
  deriving DecidableEq, Repr

/-- A call, with what libfabric answers.  `addr` is whether both addresses are not null. -/
inductive ServiceCall where
  | init (msg_ : Bool) (r : ServiceInit)
  | start
  /-- Whether `bind`, `fi_listen` and the registration of the handler succeed. -/
  | listen (addr bound listening registered : Bool)
  /-- Whether the connection can be set up, and its handler registered. -/
  | connect (addr con registered : Bool)
  | get_con (addr : Bool)
  | set_chunk_mgr (bufMgr_ : Bool)
  | reg_rma_buffer (buffer : Addr) (buffer_size : ℕ) (buffer_id : ℤ) (ck : Addr) (mr : Option Addr)
  | unreg_rma_buffer (buffer_id : ℤ)
  | get_rma_buffer (buffer_id : ℤ)
  | shutdown
  deriving DecidableEq, Repr

/-- What comes of a call. -/
inductive ServiceReply where
  /-- A pointer is dereferenced that is null or uninitialised. -/
  | crash
  /-- -1 or null, or nothing has been done. -/
  | error
  | ok
  deriving DecidableEq, Repr

namespace ServiceApi

/-- `Service::Service`. -/
def construct (is_server : Bool) (mem : Mem) : ServiceApi :=
  { is_server := is_server
    msg := true
    stack := none
    proactor := none
    bufMgr := false
    threads := false
    mem := mem
    ready := false
    crashed := false }

/-- `Proactor::register_handler`, after the test of the proactor itself.  The proactor of an RDM
service has no `eqDemultiplexer`. -/
def register (proactor : Option ServiceMode) (registered : Bool) : ServiceReply :=
  match proactor with
  | none => .error
  | some .rdm => .crash
  | some .msg => if registered then .ok else .error

/-- What a call answers. -/
def reply (w : ServiceApi) : ServiceCall → ServiceReply
  | .init _ r => if r = .done then .ok else .error
  | .start =>
      match w.proactor with
      | none => .error
      -- an `RdmCqThread` goes to the demultiplexer without a test, and a `CqThread` tests a pointer
      -- that the constructor of an RDM proactor leaves uninitialised
      | some mode => if w.msg ↔ mode = .msg then .ok else .crash
  | .listen addr bound listening registered =>
      if w.is_server = false then .error
      else
        match w.stack with
        | none => .crash
        | some stack =>
            if w.msg then
              if stack.initialized ∧ addr ∧ bound ∧ listening then register w.proactor registered
              else .error
            else if stack.initialized ∧ addr ∧ w.bufMgr ∧ bound then .ok else .error
  | .connect addr con registered =>
      if w.is_server then .error
      else
        match w.stack with
        | some (.msg stack) =>
            if stack.initialized ∧ addr ∧ w.bufMgr ∧ con then register w.proactor registered
            else .error
        | _ => .crash
  | .get_con addr =>
      if w.is_server then .error
      else
        match w.stack with
        | some (.rdm initialized) => if initialized ∧ addr ∧ w.bufMgr then .ok else .error
        | _ => .crash
  | .set_chunk_mgr _ => .ok
  | .reg_rma_buffer buffer size id ck mr =>
      match w.stack with
      | some (.msg stack) =>
          if (MsgStack.reg_rma_buffer stack w.mem buffer size id ck mr).2.2 = nullptr then .error
          else .ok
      | _ => .crash
  | .unreg_rma_buffer id =>
      match w.stack with
      | some (.msg stack) =>
          if (MsgStack.unreg_rma_buffer stack id).2 = nullptr then .error else .ok
      | _ => .crash
  | .get_rma_buffer id =>
      match w.stack with
      | some (.msg stack) =>
          if (MsgStack.get_rma_chunk stack id).2 = nullptr then .error else .ok
      | _ => .crash
  | .shutdown => if w.threads then .ok else .error

/-- The stack that `init` creates. -/
def newStack (msg : Bool) (initialized : Bool) : ServiceStack :=
  if msg then .msg { initialized := initialized, rmaChunkMap := ∅ } else .rdm initialized

/-- What a call that does not crash leaves. -/
def after (w : ServiceApi) : ServiceCall → ServiceApi
  | .init msg_ r =>
      { w with
        msg := msg_
        stack := some (newStack msg_ (decide (r ≠ .stack)))
        proactor :=
          if r = .done then some (if msg_ then .msg else .rdm) else w.proactor
        ready := decide (r = .done) }
  | .start => { w with threads := w.threads || w.proactor.isSome }
  | .set_chunk_mgr bufMgr_ => { w with bufMgr := bufMgr_ }
  | .reg_rma_buffer buffer size id ck mr =>
      match w.stack with
      | some (.msg stack) =>
          let (stack', mem, _) := MsgStack.reg_rma_buffer stack w.mem buffer size id ck mr
          { w with stack := some (.msg stack'), mem := mem }
      | _ => w
  | .unreg_rma_buffer id =>
      match w.stack with
      | some (.msg stack) =>
          { w with stack := some (.msg (MsgStack.unreg_rma_buffer stack id).1) }
      | _ => w
  | .get_rma_buffer id =>
      match w.stack with
      | some (.msg stack) => { w with stack := some (.msg (MsgStack.get_rma_chunk stack id).1) }
      | _ => w
  | .shutdown => { w with threads := false }
  | _ => w

/-- `new` does not answer with null. -/
def Possible : ServiceCall → Prop
  | .reg_rma_buffer _ _ _ ck _ => ck ≠ nullptr
  | _ => True

instance : DecidablePred Possible := fun op => by
  unfold Possible
  split <;> infer_instance

/-- One call.  There is none after a crash. -/
def step (w : ServiceApi) (op : ServiceCall) : Option ServiceApi :=
  if w.crashed ∨ ¬ Possible op then none
  else some (if w.reply op = .crash then { w with crashed := true } else w.after op)

/-! ## What calls must not do, and when they do not -/

/-- The service is in a state and a mode for the call. -/
def Supports (w : ServiceApi) : ServiceCall → Prop
  | .start => w.ready
  | .listen .. => w.ready ∧ w.is_server
  | .connect .. => w.ready ∧ w.is_server = false ∧ w.msg
  | .get_con _ => w.ready ∧ w.is_server = false ∧ w.msg = false
  | .reg_rma_buffer .. => w.ready ∧ w.msg
  | .unreg_rma_buffer _ => w.ready ∧ w.msg
  | .get_rma_buffer _ => w.ready ∧ w.msg
  | _ => True

/-- No null or uninitialised pointer is dereferenced, and a call that the service is not ready
for is turned away. -/
def Safe (w : ServiceApi) (op : ServiceCall) : Prop :=
  w.reply op ≠ .crash ∧ (¬ w.Supports op → w.reply op = .error)

/-- The last `init` has failed after its stack had been initialized. -/
def Late (w : ServiceApi) : Prop := w.ready = false ∧ ∃ s, w.stack = some s ∧ s.initialized

/-- The last `init` was for the mode. -/
def Mode (w : ServiceApi) (mode : ServiceMode) : Prop := ∃ s, w.stack = some s ∧ s.mode = mode

/-- There is no proactor, or one that does not take the handler. -/
def TurnsAway (w : ServiceApi) (registered : Bool) : Prop :=
  w.proactor = none ∨ w.proactor = some .msg ∧ registered = false

/-- **The condition.**  The stack is of the kind that the call is for; a service whose last `init`
has failed has no proactor when it is started; and if its stack is initialized, the call fails
on its arguments, in libfabric or at the proactor. -/
def Guard (w : ServiceApi) : ServiceCall → Prop
  | .start => w.proactor ≠ none → w.ready
  | .listen addr bound listening registered => w.is_server → w.stack ≠ none ∧
      (w.Late → addr = false ∨ bound = false ∨
        if w.msg then listening = false ∨ w.TurnsAway registered else w.bufMgr = false)
  | .connect addr con registered => w.is_server = false → w.Mode .msg ∧
      (w.Late → addr = false ∨ w.bufMgr = false ∨ con = false ∨ w.TurnsAway registered)
  | .get_con addr => w.is_server = false → w.Mode .rdm ∧
      (w.Late → addr = false ∨ w.bufMgr = false)
  | .reg_rma_buffer buffer size _ _ mr => w.Mode .msg ∧
      (w.Late → buffer = nullptr ∨ size = 0 ∨ mr = none)
  | .unreg_rma_buffer _ => w.Mode .msg
  | .get_rma_buffer _ => w.Mode .msg
  | _ => True

/-- The stack and the proactor are of the kind that `msg` says, once `init` has been called and
has succeeded; and a stack whose `init` has failed has no RMA buffers. -/
structure Inv (w : ServiceApi) : Prop where
  mode : ∀ s, w.stack = some s → (s.mode = .msg ↔ w.msg = true)
  ready : w.ready = true → ∃ s, w.stack = some s ∧ w.proactor = some s.mode
  empty : w.ready = false → ∀ m id ck, w.stack = some (.msg m) →
    m.rmaChunkMap.find? id = some ck → ck = nullptr

/-! ## One call -/

section

variable {w w' : ServiceApi}

theorem register_eq_error {registered : Bool} :
    register w.proactor registered = .error ↔ w.TurnsAway registered := by
  unfold register TurnsAway
  split
  · rename_i hnone
    simp [hnone]
  · rename_i hrdm
    simp [hrdm]
  · rename_i hmsg
    cases registered <;> simp [hmsg]

/-- Where the service is ready, its proactor takes handlers of its mode. -/
theorem register_ne_crash (h : w.Inv) (hready : w.ready = true) (hmsg : w.msg = true)
    (registered : Bool) : register w.proactor registered ≠ .crash := by
  obtain ⟨s, hs, hproactor⟩ := h.ready hready
  have hmode : s.mode = .msg := (h.mode s hs).mpr hmsg
  rw [hproactor, hmode]
  unfold register
  cases registered <;> simp

/-- A call that can go through is safe where the service is ready for it, and elsewhere if
it is turned away. -/
theorem safe_iff_of_mode {op : ServiceCall} (hcrash : w.Supports op → w.reply op ≠ .crash) :
    w.Safe op ↔ (¬ w.Supports op → w.reply op = .error) := by
  constructor
  · exact fun h => h.2
  · refine fun h => ⟨?_, h⟩
    by_cases hsup : w.Supports op
    · exact hcrash hsup
    · rw [h hsup]
      simp

theorem safe_start (h : w.Inv) : w.Safe .start ↔ w.Guard .start := by
  have hcrash : w.Supports .start → w.reply .start ≠ .crash := by
    intro hready
    obtain ⟨s, hs, hproactor⟩ := h.ready hready
    have hmode := h.mode s hs
    have hsame : w.msg = true ↔ s.mode = .msg := hmode.symm
    simp only [reply, hproactor, if_pos hsame]
    simp
  rw [safe_iff_of_mode hcrash]
  show (¬ w.ready = true → w.reply .start = .error) ↔ (w.proactor ≠ none → w.ready = true)
  cases hp : w.proactor with
  | none => simp [reply, hp]
  | some mode =>
    simp only [reply, hp, ne_eq, reduceCtorEq, not_false_eq_true, forall_true_left]
    constructor
    · intro hall
      by_contra hready
      have hbad := hall hready
      split at hbad
      · cases hbad
      · cases hbad
    · exact fun hready hnot => absurd hready hnot

theorem safe_listen (h : w.Inv) (addr bound listening registered : Bool) :
    w.Safe (.listen addr bound listening registered) ↔
      w.Guard (.listen addr bound listening registered) := by
  cases hserver : w.is_server with
  | false => simp [Safe, Guard, reply, hserver]
  | true =>
    cases hstack : w.stack with
    | none => simp [Safe, Guard, reply, hserver, hstack]
    | some s =>
      have hmode := h.mode s hstack
      have hreply : w.reply (.listen addr bound listening registered) =
          if w.msg then
            if s.initialized ∧ addr ∧ bound ∧ listening then register w.proactor registered
            else .error
          else if s.initialized ∧ addr ∧ w.bufMgr ∧ bound then .ok else .error := by
        simp [reply, hserver, hstack]
      have hsup : w.Supports (.listen addr bound listening registered) ↔ w.ready = true := by
        simp [Supports, hserver]
      rw [safe_iff_of_mode, hsup, hreply]
      · simp only [Guard, Late, hserver, hstack, ne_eq, reduceCtorEq, not_false_eq_true,
          Option.some.injEq, exists_eq_left', forall_true_left, true_and]
        cases w.msg with
        | true =>
          simp only [if_true]
          split
          · rename_i hall
            simp [hall, register_eq_error]
          · rename_i hnot
            cases addr <;> cases bound <;> cases listening <;> simp_all
        | false =>
          simp only [Bool.false_eq_true, if_false]
          split
          · rename_i hall
            simp [hall]
          · rename_i hnot
            cases addr <;> cases bound <;> simp_all
      · intro hready
        rw [hreply]
        split
        · rename_i hmsg
          split
          · exact register_ne_crash h (hsup.mp hready) hmsg registered
          · simp
        · split <;> simp

theorem mode_msg_iff : w.Mode .msg ↔ ∃ m, w.stack = some (.msg m) := by
  constructor
  · rintro ⟨s, hs, hmode⟩
    cases s with
    | msg m => exact ⟨m, hs⟩
    | rdm i => cases hmode
  · rintro ⟨m, hm⟩
    exact ⟨.msg m, hm, rfl⟩

theorem mode_rdm_iff : w.Mode .rdm ↔ ∃ i, w.stack = some (.rdm i) := by
  constructor
  · rintro ⟨s, hs, hmode⟩
    cases s with
    | msg m => cases hmode
    | rdm i => exact ⟨i, hs⟩
  · rintro ⟨i, hi⟩
    exact ⟨.rdm i, hi, rfl⟩

/-- A call that is made on a stack of the other kind, or on none, crashes. -/
theorem reply_of_not_mode {op : ServiceCall} (hmode : ¬ w.Mode .msg)
    (hop : (∃ id, op = .unreg_rma_buffer id ∨ op = .get_rma_buffer id) ∨
      ∃ buffer size id ck mr, op = .reg_rma_buffer buffer size id ck mr) :
    w.reply op = .crash := by
  rw [mode_msg_iff] at hmode
  have hstack : ∀ m, w.stack ≠ some (.msg m) := fun m hm => hmode ⟨m, hm⟩
  obtain ⟨id, rfl | rfl⟩ | ⟨buffer, size, id, ck, mr, rfl⟩ := hop
  all_goals
    rw [reply]
    split
    · rename_i m hm
      exact absurd hm (hstack m)
    · rfl

theorem safe_connect (h : w.Inv) (addr con registered : Bool) :
    w.Safe (.connect addr con registered) ↔ w.Guard (.connect addr con registered) := by
  cases hserver : w.is_server with
  | true => simp [Safe, Guard, reply, hserver]
  | false =>
    by_cases hm : w.Mode .msg
    · obtain ⟨m, hstack⟩ := mode_msg_iff.mp hm
      have hmsg : w.msg = true := (h.mode _ hstack).mp rfl
      have hreply : w.reply (.connect addr con registered) =
          if m.initialized ∧ addr ∧ w.bufMgr ∧ con then register w.proactor registered
          else .error := by
        simp [reply, hserver, hstack]
      have hsup : w.Supports (.connect addr con registered) ↔ w.ready = true := by
        simp [Supports, hserver, hmsg]
      rw [safe_iff_of_mode, hsup, hreply]
      · simp only [Guard, Late, hserver, hstack, hm, Option.some.injEq, exists_eq_left',
          ServiceStack.initialized, forall_true_left, true_and]
        split
        · rename_i hall
          simp [hall, register_eq_error]
        · rename_i hnot
          cases addr <;> cases con <;> cases hmgr : w.bufMgr <;> simp_all
      · intro hready
        rw [hreply]
        split
        · exact register_ne_crash h (hsup.mp hready) hmsg registered
        · simp
    · have hcrash : w.reply (.connect addr con registered) = .crash := by
        rw [mode_msg_iff] at hm
        simp only [reply, hserver, Bool.false_eq_true, if_false]
        split
        · rename_i m hstack
          exact absurd ⟨m, hstack⟩ hm
        · rfl
      simp [Safe, Guard, hcrash, hserver, hm]

theorem safe_get_con (h : w.Inv) (addr : Bool) :
    w.Safe (.get_con addr) ↔ w.Guard (.get_con addr) := by
  cases hserver : w.is_server with
  | true => simp [Safe, Guard, reply, hserver]
  | false =>
    by_cases hm : w.Mode .rdm
    · obtain ⟨i, hstack⟩ := mode_rdm_iff.mp hm
      have hmsg : w.msg = false := by
        have hmode := h.mode _ hstack
        simpa [ServiceStack.mode] using hmode
      have hreply : w.reply (.get_con addr) = if i ∧ addr ∧ w.bufMgr then .ok else .error := by
        simp [reply, hserver, hstack]
      have hsup : w.Supports (.get_con addr) ↔ w.ready = true := by
        simp [Supports, hserver, hmsg]
      rw [safe_iff_of_mode, hsup, hreply]
      · simp only [Guard, Late, hserver, hstack, hm, Option.some.injEq, exists_eq_left',
          ServiceStack.initialized, forall_true_left, true_and]
        split
        · rename_i hall
          simp [hall]
        · rename_i hnot
          cases addr <;> cases hmgr : w.bufMgr <;> simp_all
      · intro hready
        rw [hreply]
        split <;> simp
    · have hcrash : w.reply (.get_con addr) = .crash := by
        rw [mode_rdm_iff] at hm
        simp only [reply, hserver, Bool.false_eq_true, if_false]
        split
        · rename_i i hstack
          exact absurd ⟨i, hstack⟩ hm
        · rfl
      simp [Safe, Guard, hcrash, hserver, hm]

/-- What `reg_rma_buffer` answers. -/
theorem reg_eq_null {m : MsgStack.Rma} {mem : Mem} {buffer : Addr} {size : ℕ} {id : ℤ} {ck : Addr}
    {mr : Option Addr} (hck : ck ≠ nullptr) :
    (MsgStack.reg_rma_buffer m mem buffer size id ck mr).2.2 = nullptr ↔
      MsgStack.rejects m buffer size ∨ mr = none := by
  unfold MsgStack.reg_rma_buffer
  split
  · rename_i hrej
    simp [hrej]
  · rename_i hrej
    cases mr with
    | none => simp
    | some x => simpa [hrej] using hck

theorem safe_reg_rma_buffer (h : w.Inv) {buffer : Addr} {size : ℕ} {id : ℤ} {ck : Addr}
    {mr : Option Addr} (hck : ck ≠ nullptr) :
    w.Safe (.reg_rma_buffer buffer size id ck mr) ↔
      w.Guard (.reg_rma_buffer buffer size id ck mr) := by
  by_cases hm : w.Mode .msg
  · obtain ⟨m, hstack⟩ := mode_msg_iff.mp hm
    have hmsg : w.msg = true := (h.mode _ hstack).mp rfl
    have hreply : w.reply (.reg_rma_buffer buffer size id ck mr) =
        if MsgStack.rejects m buffer size ∨ mr = none then .error else .ok := by
      simp only [reply, hstack, reg_eq_null hck]
    have hsup : w.Supports (.reg_rma_buffer buffer size id ck mr) ↔ w.ready = true := by
      simp [Supports, hmsg]
    rw [safe_iff_of_mode, hsup, hreply]
    · simp only [Guard, Late, hstack, hm, Option.some.injEq, exists_eq_left',
        ServiceStack.initialized, true_and]
      split
      · rename_i hfail
        simp only [implies_true, true_iff]
        rintro ⟨-, hinit⟩
        obtain (hnot | hargs) | hmr := hfail
        · exact absurd (hnot.symm.trans hinit) (by simp)
        · exact hargs.imp_right Or.inl
        · exact Or.inr (Or.inr hmr)
      · rename_i hgo
        obtain ⟨hrej, hmr⟩ := not_or.mp hgo
        obtain ⟨hinit, hbuffer, hsize⟩ :
            m.initialized ≠ false ∧ buffer ≠ nullptr ∧ size ≠ 0 := by
          simpa only [MsgStack.rejects, not_or] using hrej
        simp [hinit, hbuffer, hsize, hmr]
    · intro _
      rw [hreply]
      split <;> simp
  · simp [Safe, Guard, hm, reply_of_not_mode hm (Or.inr ⟨buffer, size, id, ck, mr, rfl⟩)]

/-- A stack of a service that is not ready has no RMA buffers. -/
theorem value_of_not_ready (h : w.Inv) (hready : w.ready = false) {m : MsgStack.Rma}
    (hstack : w.stack = some (.msg m)) (id : ℤ) : m.rmaChunkMap.value id nullptr = nullptr := by
  rw [StdMap.value]
  cases hfind : m.rmaChunkMap.find? id with
  | none => rfl
  | some ck => exact h.empty hready m id ck hstack hfind

theorem safe_unreg_rma_buffer (h : w.Inv) (id : ℤ) :
    w.Safe (.unreg_rma_buffer id) ↔ w.Guard (.unreg_rma_buffer id) := by
  by_cases hm : w.Mode .msg
  · obtain ⟨m, hstack⟩ := mode_msg_iff.mp hm
    have hmsg : w.msg = true := (h.mode _ hstack).mp rfl
    have hguard : w.Guard (.unreg_rma_buffer id) := hm
    have hreply : w.reply (.unreg_rma_buffer id) =
        if (MsgStack.unreg_rma_buffer m id).2 = nullptr then .error else .ok := by
      simp only [reply, hstack]
    refine ⟨fun _ => hguard, fun _ => ?_⟩
    rw [safe_iff_of_mode, hreply]
    · intro hsup
      have hready : w.ready = false := by simpa [Supports, hmsg] using hsup
      obtain ⟨-, hunreg⟩ | ⟨ck, hne, hfind, -⟩ := RmaWorld.unreg_cases m id
      · rw [hunreg, if_pos rfl]
      · exact absurd (h.empty hready m id ck hstack hfind) hne
    · intro _
      rw [hreply]
      split <;> simp
  · simp [Safe, Guard, hm, reply_of_not_mode hm (Or.inl ⟨id, Or.inl rfl⟩)]

theorem safe_get_rma_buffer (h : w.Inv) (id : ℤ) :
    w.Safe (.get_rma_buffer id) ↔ w.Guard (.get_rma_buffer id) := by
  by_cases hm : w.Mode .msg
  · obtain ⟨m, hstack⟩ := mode_msg_iff.mp hm
    have hmsg : w.msg = true := (h.mode _ hstack).mp rfl
    have hguard : w.Guard (.get_rma_buffer id) := hm
    have hreply : w.reply (.get_rma_buffer id) =
        if m.rmaChunkMap.value id nullptr = nullptr then .error else .ok := by
      simp only [reply, hstack]
      rfl
    refine ⟨fun _ => hguard, fun _ => ?_⟩
    rw [safe_iff_of_mode, hreply]
    · intro hsup
      have hready : w.ready = false := by simpa [Supports, hmsg] using hsup
      rw [if_pos (value_of_not_ready h hready hstack id)]
    · intro _
      rw [hreply]
      split <;> simp
  · simp [Safe, Guard, hm, reply_of_not_mode hm (Or.inl ⟨id, Or.inr rfl⟩)]

/-- **The condition on a call is exact.** -/
theorem safe_iff_guard (h : w.Inv) {op : ServiceCall} (hop : Possible op) :
    w.Safe op ↔ w.Guard op := by
  cases op with
  | init msg_ r =>
    refine ⟨fun _ => trivial, fun _ => ⟨?_, fun hnot => absurd trivial hnot⟩⟩
    simp only [reply, ne_eq]
    split <;> simp
  | start => exact safe_start h
  | listen addr bound listening registered => exact safe_listen h addr bound listening registered
  | connect addr con registered => exact safe_connect h addr con registered
  | get_con addr => exact safe_get_con h addr
  | set_chunk_mgr bufMgr_ =>
    exact ⟨fun _ => trivial, fun _ => ⟨by simp [reply], fun hnot => absurd trivial hnot⟩⟩
  | reg_rma_buffer buffer size id ck mr => exact safe_reg_rma_buffer h hop
  | unreg_rma_buffer id => exact safe_unreg_rma_buffer h id
  | get_rma_buffer id => exact safe_get_rma_buffer h id
  | shutdown =>
    refine ⟨fun _ => trivial, fun _ => ⟨?_, fun hnot => absurd trivial hnot⟩⟩
    simp only [reply, ne_eq]
    split <;> simp

/-! ## Runs -/

theorem step_eq_some {op : ServiceCall} (hstep : w.step op = some w') :
    Possible op ∧ (w' = { w with crashed := true } ∨ w' = w.after op) := by
  unfold step at hstep
  split at hstep
  · cases hstep
  · rename_i hcond
    obtain ⟨-, hpossible⟩ := not_or.mp hcond
    refine ⟨not_not.mp hpossible, ?_⟩
    rw [← Option.some.inj hstep]
    split
    · exact Or.inl rfl
    · exact Or.inr rfl

/-- The stack of the same kind, with entries that the old one had. -/
theorem inv_stack (h : w.Inv) {m m' : MsgStack.Rma} (hstack : w.stack = some (.msg m)) (mem : Mem)
    (hentries : w.ready = false → ∀ id ck, m'.rmaChunkMap.find? id = some ck → ck ≠ nullptr →
      m.rmaChunkMap.find? id = some ck) :
    Inv { w with stack := some (.msg m'), mem := mem } := by
  have hmode : ServiceStack.mode (.msg m') = ServiceStack.mode (.msg m) := rfl
  refine ⟨fun s hs => ?_, fun hready => ?_, fun hready x id ck hs hfind => ?_⟩
  · cases hs
    rw [hmode]
    exact h.mode _ hstack
  · obtain ⟨s, hs, hproactor⟩ := h.ready hready
    refine ⟨.msg m', rfl, ?_⟩
    rw [hmode, ← Option.some.inj (hs.symm.trans hstack)]
    exact hproactor
  · cases hs
    by_contra hne
    exact hne (h.empty hready m id ck hstack (hentries hready id ck hfind hne))

theorem inv_init (w : ServiceApi) (msg_ : Bool) (r : ServiceInit) :
    (w.after (.init msg_ r)).Inv := by
  refine ⟨fun s hs => ?_, fun hready => ?_, fun _ m id ck hs hfind => ?_⟩
  · cases hs
    show _ ↔ msg_ = true
    cases msg_ <;> simp [newStack, ServiceStack.mode]
  · have hdone : r = .done := of_decide_eq_true hready
    refine ⟨newStack msg_ (decide (r ≠ .stack)), rfl, ?_⟩
    show (if r = .done then _ else w.proactor) = _
    rw [if_pos hdone]
    cases msg_ <;> rfl
  · replace hs : newStack msg_ (decide (r ≠ .stack)) = .msg m := Option.some.inj hs
    cases msg_ with
    | false => cases hs
    | true =>
      cases hs
      simp at hfind

/-- **A call that meets the condition keeps the invariant.** -/
theorem inv_step (h : w.Inv) {op : ServiceCall} (hguard : w.Guard op)
    (hstep : w.step op = some w') : w'.Inv := by
  obtain ⟨-, rfl | rfl⟩ := step_eq_some hstep
  · exact ⟨h.mode, h.ready, h.empty⟩
  cases op with
  | init msg_ r => exact inv_init w msg_ r
  | start => exact ⟨h.mode, h.ready, h.empty⟩
  | listen addr bound listening registered => exact h
  | connect addr con registered => exact h
  | get_con addr => exact h
  | set_chunk_mgr bufMgr_ => exact ⟨h.mode, h.ready, h.empty⟩
  | shutdown => exact ⟨h.mode, h.ready, h.empty⟩
  | reg_rma_buffer buffer size id ck mr =>
    obtain ⟨hm, hlate⟩ := hguard
    obtain ⟨m, hstack⟩ := mode_msg_iff.mp hm
    simp only [after, hstack]
    refine inv_stack h hstack _ fun hready j a hfind _ => ?_
    have hfail : MsgStack.rejects m buffer size ∨ mr = none := by
      cases hinit : m.initialized with
      | false => exact Or.inl (Or.inl hinit)
      | true =>
        obtain hbuffer | hsize | hmr := hlate ⟨hready, .msg m, hstack, hinit⟩
        · exact Or.inl (Or.inr (Or.inl hbuffer))
        · exact Or.inl (Or.inr (Or.inr hsize))
        · exact Or.inr hmr
    have hsame : (MsgStack.reg_rma_buffer m w.mem buffer size id ck mr).1 = m := by
      unfold MsgStack.reg_rma_buffer
      split
      · rfl
      · rename_i hrej
        rw [hfail.resolve_left hrej]
    rwa [hsame] at hfind
  | unreg_rma_buffer id =>
    obtain ⟨m, hstack⟩ := mode_msg_iff.mp hguard
    simp only [after, hstack]
    refine inv_stack h hstack _ fun hready j a hfind hne => ?_
    obtain ⟨-, hunreg⟩ | ⟨ck, hne', hfind', -⟩ := RmaWorld.unreg_cases m id
    · rw [hunreg] at hfind
      exact RmaWorld.find?_get_rma_chunk hfind hne
    · exact absurd (h.empty hready m id ck hstack hfind') hne'
  | get_rma_buffer id =>
    obtain ⟨m, hstack⟩ := mode_msg_iff.mp hguard
    simp only [after, hstack]
    exact inv_stack h hstack _ fun _ j a hfind hne => RmaWorld.find?_get_rma_chunk hfind hne

end

theorem inv_construct (is_server : Bool) (mem : Mem) : (construct is_server mem).Inv where
  mode := fun s hs => by cases hs
  ready := fun hready => by cases hready
  empty := fun _ m id ck hs => by cases hs

/-- **Every call of a run is safe if and only if each meets the condition.** -/
theorem safe_iff_meets (is_server : Bool) (mem : Mem) (calls : List ServiceCall) :
    Meets step Safe (construct is_server mem) calls ↔
      Meets step Guard (construct is_server mem) calls := by
  have hkeep : ∀ (w : ServiceApi) op w', w.Inv → w.Guard op → w.step op = some w' → w'.Inv :=
    fun _ _ _ h hg ht => inv_step h hg ht
  have hexact : ∀ (w : ServiceApi) op w', w.Inv → w.step op = some w' →
      (w.Safe op ↔ w.Guard op) :=
    fun _ _ _ h ht => safe_iff_guard h (step_eq_some ht).1
  exact meets_iff_meets hkeep hexact (inv_construct is_server mem) calls

/-- A client that connects before it has been initialized goes through a null stack. -/
theorem not_safe_connect :
    ¬ Meets step Safe (construct false fun _ => {}) [.connect false false false] := by
  intro h
  obtain ⟨hsafe, -⟩ := h _ rfl
  exact hsafe.1 rfl

end ServiceApi

end Hpnl
