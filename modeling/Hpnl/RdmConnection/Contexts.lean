import Hpnl.Connection.Basic
import Hpnl.RdmConnection.SetUp

/-!
# The contexts of RDM operations

libfabric hands the context of an operation back with its completion.  The receives and the
sends of a chunk pass `&ck->ctx`, and the handlers find the chunk in `internal[4]` of it; who
writes it there depends on the chunk manager and on the call.  `sendBuf` and `sendBufTo`
allocate a context and leave it null.

* `ContextWorld` — the connections of a service, with the operations in flight.
* `found` — the chunk and the connection that a handler finds; `RdmCqDemultiplexer_handle`,
  `ExternalRdmCqDemultiplexer_handle`.
* `Right` — no null chunk is dereferenced, every completion has led to the chunk and the
  connection of its operation, and an allocated context is freed when it is done with.
* `Sound` — also the completions that are still to come.
* `resolves_of_right` — an operation in flight is resolved unless its completion goes wrong.
* `sound_iff` — **a run is sound exactly when** nothing is sent without a chunk, every chunk
  that is posted has its own address in its context, none is taken over by a connection while
  another one has it in flight, and none is null.
-/

namespace Hpnl

open Transition

/-! ## Operations -/

/-- The context of an operation. -/
inductive FiContext where
  /-- `&ck->ctx`. -/
  | chunk (ck : Addr)
  /-- The `n`th that has been allocated. -/
  | allocated (n : ℕ)
  deriving DecidableEq, Repr

/-- A receive or a send. -/
structure RdmOperation where
  con : ConId
  receive : Bool
  context : FiContext
  deriving DecidableEq, Repr

/-- What a handler has made of a completion. -/
structure Resolution where
  operation : RdmOperation
  ck : Addr
  con : Addr
  deriving DecidableEq, Repr

/-- A service, with the contexts that have been allocated and how often each has been freed.
`activating` is what the handler of a receive has still to call `activate_recv_chunk` with,
and `resolved` the completions that have been handled. -/
structure ContextWorld extends ConnectionWorld where
  send_chunks_map : ConId → StdMap ℤ Addr
  inFlight : List RdmOperation
  allocated : ℕ
  freed : ℕ → ℕ
  activating : Option (ConId × Addr)
  resolved : List Resolution
  crashed : Bool

/-- A call, or a completion.  `accepted` is whether libfabric takes the operation, and
`peer_addr` what the address of the peer has been resolved to. -/
inductive ContextOp where
  | construct (con : ConId) (buffer_num : ℤ)
  | open (con : ConId) (ok : Bool)
  /-- The receive of a round of `init`. -/
  | init_recv (con : ConId) (r : GetReply) (accepted : Bool)
  /-- The send chunk of a round of `init`. -/
  | init_send (con : ConId) (r : GetReply)
  | get (con : ConId) (r : GetReply)
  /-- `get(con)` of a pool that finds no memory. -/
  | getFails (con : ConId)
  | reclaim (con : ConId) (ck : Addr) (link : ℕ)
  /-- The external manager is given a new chunk. -/
  | set_buffer (ck : Addr) (header : Chunk)
  /-- `encode_`; the size and the address if the message fits. -/
  | encode_ (con : ConId) (ck : Addr) (written : Option (ℕ × ℕ))
  /-- `send(Chunk*)`. -/
  | send (con : ConId) (ck : Addr) (accepted : Bool)
  /-- `send(int, int)`. -/
  | send_by_id (con : ConId) (buffer_id : ℤ) (peer_addr : ℕ) (accepted : Bool)
  | sendBuf (con : ConId) (accepted : Bool)
  | sendTo (con : ConId) (buffer_id : ℤ) (peer_addr : ℕ) (accepted : Bool)
  | sendBufTo (con : ConId) (accepted : Bool)
  /-- A completion is read, and handled up to the end of the callback. -/
  | completion (o : RdmOperation) (len : ℕ)
  /-- An error is read, which is only printed. -/
  | completion_error (o : RdmOperation)
  /-- The handler of a receive goes on. -/
  | activate_recv_chunk (r : GetReply) (accepted : Bool)
  deriving DecidableEq, Repr

namespace ChunkMgr

/-- The chunk that `get` is about to return. -/
def next (mgr : ChunkMgr) (r : GetReply) : Addr :=
  match mgr with
  | pool _ => r.pick
  | external m => m.bufs.headD nullptr

/-- It will have its own address in its context: a pool writes it there, the external manager
relies on whoever added the chunk. -/
def LinksNext (mgr : ChunkMgr) (mem : Mem) : Prop :=
  match mgr with
  | pool _ => True
  | external m => (mem (m.bufs.headD nullptr)).ctx4 = m.bufs.headD nullptr

/-- An external manager has no null chunk. -/
def NullFree : ChunkMgr → Prop
  | pool _ => True
  | external m => nullptr ∉ m.bufs

end ChunkMgr

namespace ContextWorld

/-- A service without connections. -/
def init (mem : Mem) (mgr : ChunkMgr) : ContextWorld :=
  { ConnectionWorld.init mem mgr with
    send_chunks_map := fun _ => ∅
    inFlight := []
    allocated := 0
    freed := fun _ => 0
    activating := none
    resolved := []
    crashed := false }

def crash (w : ContextWorld) : ContextWorld := { w with crashed := true }

/-- What a step does to the chunks and the connections. -/
def stepConnection (w : ContextWorld) (op : ConnectionOp) : Option ContextWorld :=
  (w.toConnectionWorld.step op).map fun s => { w with toConnectionWorld := s }

/-- `fi_recv`, `fi_send` or `fi_sendmsg`. -/
def post (w : ContextWorld) (accepted : Bool) (o : RdmOperation) : ContextWorld :=
  if accepted then { w with inFlight := o :: w.inFlight } else w

/-- `ck->con = this`. -/
def stamp (w : ContextWorld) (con : ConId) (ck : Addr) : ContextWorld :=
  { w with toConnectionWorld := w.toConnectionWorld.stamp con ck none }

/-! ## The sends -/

def encode_ (w : ContextWorld) (con : ConId) (ck : Addr) (written : Option (ℕ × ℕ)) :
    ContextWorld :=
  let header := { w.mem ck with ctx4 := ck, con := con }
  let header := match written with
    | none => header
    | some (size, peer_addr) => { header with size := size, peer_addr := peer_addr }
  { w with mem := Function.update w.mem ck header }

/-- `send(Chunk*)`. -/
def send (w : ContextWorld) (con : ConId) (ck : Addr) (accepted : Bool) : ContextWorld :=
  w.post accepted ⟨con, false, .chunk ck⟩

/-- `send(int, int)`; an id that is not in the map gives a null chunk. -/
def send_by_id (w : ContextWorld) (con : ConId) (buffer_id : ℤ) (peer_addr : ℕ)
    (accepted : Bool) : ContextWorld :=
  let ck := (w.send_chunks_map con).value buffer_id nullptr
  if ck = nullptr then w.crash
  else
    let header := { w.mem ck with con := con, peer_addr := peer_addr, ctx4 := ck }
    { w with mem := Function.update w.mem ck header }.post accepted ⟨con, false, .chunk ck⟩

/-- `sendTo`, which differs from `send(int, int)` in whose address it looks up. -/
def sendTo (w : ContextWorld) (con : ConId) (buffer_id : ℤ) (peer_addr : ℕ) (accepted : Bool) :
    ContextWorld :=
  w.send_by_id con buffer_id peer_addr accepted

/-- `sendBuf`: the context is allocated before the send. -/
def sendBuf (w : ContextWorld) (con : ConId) (accepted : Bool) : ContextWorld :=
  { w with allocated := w.allocated + 1 }.post accepted ⟨con, false, .allocated w.allocated⟩

/-- `sendBufTo`, which differs from `sendBuf` in whose address it looks up. -/
def sendBufTo (w : ContextWorld) (con : ConId) (accepted : Bool) : ContextWorld :=
  w.sendBuf con accepted

/-! ## The handlers -/

/-- `ctx->internal[4]`. -/
def internal4 (w : ContextWorld) : FiContext → Addr
  | .chunk ck => (w.mem ck).ctx4
  | .allocated _ => nullptr

/-- The chunk and its connection; `none` is a null dereference. -/
def found (w : ContextWorld) (o : RdmOperation) : Option (Addr × Addr) :=
  let ck := w.internal4 o.context
  if ck = nullptr then none else some (ck, (w.mem ck).con)

/-- `RdmCqDemultiplexer::wait_event`, a completion: `activate_recv_chunk` is called without a
chunk. -/
def RdmCqDemultiplexer_handle (w : ContextWorld) (o : RdmOperation) (len : ℕ) : ContextWorld :=
  match w.found o with
  | none => w.crash
  | some (ck, con) =>
      let w := { w with resolved := ⟨o, ck, con⟩ :: w.resolved }
      if o.receive then
        { w with
          mem := Function.update w.mem ck { w.mem ck with size := len }
          activating := some (con, nullptr) }
      else w

/-- `std::free(ctx)`, of a context that has been allocated. -/
def free (w : ContextWorld) : FiContext → ContextWorld
  | .chunk _ => w
  | .allocated n => { w with freed := Function.update w.freed n (w.freed n + 1) }

/-- `ExternalRdmCqDemultiplexer::wait_event`, which frees a context without a chunk, and
`RdmService.wait_event`, which looks for the connection in the chunk all the same. -/
def ExternalRdmCqDemultiplexer_handle (w : ContextWorld) (o : RdmOperation) : ContextWorld :=
  match w.found o with
  | none => (if o.receive then w else w.free o.context).crash
  | some (ck, con) =>
      { w with
        resolved := ⟨o, ck, con⟩ :: w.resolved
        activating := if o.receive then some (con, ck) else none }

/-- A completion is handled. -/
def handle (w : ContextWorld) (k : RdmServiceKind) (o : RdmOperation) (len : ℕ) :
    ContextWorld :=
  match k with
  | .cpp => w.RdmCqDemultiplexer_handle o len
  | .java => w.ExternalRdmCqDemultiplexer_handle o

/-- `activate_recv_chunk(ck)`. -/
def activate_recv_chunk (w : ContextWorld) (con : ConId) (ck : Addr) (r : GetReply)
    (accepted : Bool) : Option ContextWorld :=
  if ck = nullptr then
    (w.stepConnection (.get con r)).map fun w' =>
      let ck := w.chunk_mgr.next r
      if ck = nullptr then w'.crash
      else (w'.stamp con ck).post accepted ⟨con, true, .chunk ck⟩
  else some ((w.stamp con ck).post accepted ⟨con, true, .chunk ck⟩)

/-! ## Steps -/

/-- The chunk can be new. -/
def New (w : ContextWorld) (ck : Addr) : Prop :=
  ck ≠ nullptr ∧ (∀ o ∈ w.inFlight, o.context ≠ .chunk ck) ∧
    ∀ a ∈ w.activating, a.2 ≠ ck

instance (w : ContextWorld) (ck : Addr) : Decidable (w.New ck) :=
  inferInstanceAs (Decidable (_ ∧ _ ∧ _))

/-- A call, or a step of the thread that reads completions. -/
def act (w : ContextWorld) (k : RdmServiceKind) : ContextOp → Option ContextWorld
  | .construct con buffer_num =>
      w.stepConnection (.construct con .rdm (decide (k = .java)) buffer_num)
  | .open con ok => w.stepConnection (.open con ok)
  | .init_recv con r accepted =>
      (w.stepConnection (.init_recv con r ⟨none, accepted⟩)).map fun w' =>
        if w.chunk_mgr.free_size = 0 then w'
        else w'.post accepted ⟨con, true, .chunk (w.chunk_mgr.next r)⟩
  | .init_send con r =>
      (w.stepConnection (.init_send con r ⟨none, true⟩)).map fun w' =>
        if w.chunk_mgr.free_size = 0 then w'
        else
          let sck := w.chunk_mgr.next r
          let map := (w.send_chunks_map con).insertNew (w'.mem sck).key sck
          { w' with send_chunks_map := Function.update w.send_chunks_map con map }
  | .get con r => w.stepConnection (.get con r)
  | .getFails con =>
      match w.cons con, w.chunk_mgr with
      | some _, .pool p => if p.store = [] then some w.crash else none
      | _, _ => none
  | .reclaim con ck link => w.stepConnection (.reclaim con ck link)
  | .set_buffer ck header => if w.New ck then w.stepConnection (.set_buffer ck header) else none
  | .encode_ con ck written =>
      if (w.cons con).isSome ∧ ck ≠ nullptr then some (w.encode_ con ck written) else none
  | .send con ck accepted =>
      if (w.cons con).isSome ∧ ck ≠ nullptr then some (w.send con ck accepted) else none
  | .send_by_id con buffer_id peer_addr accepted =>
      if (w.cons con).isSome then some (w.send_by_id con buffer_id peer_addr accepted) else none
  | .sendBuf con accepted =>
      if (w.cons con).isSome then some (w.sendBuf con accepted) else none
  | .sendTo con buffer_id peer_addr accepted =>
      if (w.cons con).isSome then some (w.sendTo con buffer_id peer_addr accepted) else none
  | .sendBufTo con accepted =>
      if (w.cons con).isSome then some (w.sendBufTo con accepted) else none
  | .completion o len =>
      if w.activating = none ∧ o ∈ w.inFlight then
        some ({ w with inFlight := w.inFlight.erase o }.handle k o len)
      else none
  | .completion_error o =>
      if w.activating = none ∧ o ∈ w.inFlight then
        some { w with inFlight := w.inFlight.erase o }
      else none
  | .activate_recv_chunk r accepted =>
      match w.activating with
      | none => none
      | some (con, ck) =>
          { w with activating := none }.activate_recv_chunk con ck r accepted

/-- One step.  Nothing happens after a crash. -/
def step (k : RdmServiceKind) (w : ContextWorld) (op : ContextOp) : Option ContextWorld :=
  if w.crashed then none else w.act k op

/-! ## The properties, and the condition -/

/-- The completion of the operation will be resolved: no null chunk is dereferenced, and the
operation of a chunk leads to the chunk and to its own connection. -/
def Resolves (w : ContextWorld) (o : RdmOperation) : Prop :=
  (w.found o).isSome ∧ ∀ ck, o.context = .chunk ck → w.found o = some (ck, o.con)

/-- What has happened so far is right. -/
structure Right (w : ContextWorld) : Prop where
  alive : w.crashed = false
  resolved : ∀ r ∈ w.resolved, ∀ ck, r.operation.context = .chunk ck →
    r.ck = ck ∧ r.con = r.operation.con
  freed : ∀ n < w.allocated,
    w.freed n = if ∃ o ∈ w.inFlight, o.context = .allocated n then 0 else 1

/-- It is, and so it will be with the operations in flight. -/
structure Sound (w : ContextWorld) : Prop extends w.Right where
  inFlight : ∀ o ∈ w.inFlight, w.Resolves o

/-- No other connection has the chunk in flight. -/
def Stampable (w : ContextWorld) (con : ConId) (ck : Addr) : Prop :=
  ∀ o ∈ w.inFlight, o.context = .chunk ck → o.con = con

/-- The next chunk of the manager can be posted as a receive, if libfabric accepts it. -/
def Postable (w : ContextWorld) (con : ConId) (r : GetReply) (accepted : Bool) : Prop :=
  w.Stampable con (w.chunk_mgr.next r) ∧ (accepted = true → w.chunk_mgr.LinksNext w.mem)

instance (mgr : ChunkMgr) (mem : Mem) : Decidable (mgr.LinksNext mem) :=
  match mgr with
  | .pool _ => isTrue trivial
  | .external m =>
      inferInstanceAs (Decidable ((mem (m.bufs.headD nullptr)).ctx4 = m.bufs.headD nullptr))

instance (w : ContextWorld) (con : ConId) (ck : Addr) : Decidable (w.Stampable con ck) :=
  inferInstanceAs (Decidable (∀ o ∈ w.inFlight, _ → _))

instance (w : ContextWorld) (con : ConId) (r : GetReply) (accepted : Bool) :
    Decidable (w.Postable con r accepted) :=
  inferInstanceAs (Decidable (_ ∧ (_ → _)))

/-- The handler of a receive can post the next chunk of the manager, or the one it has. -/
def Activatable (w : ContextWorld) (con : ConId) (ck : Addr) (r : GetReply) (accepted : Bool) :
    Prop :=
  if ck = nullptr then w.chunk_mgr.next r ≠ nullptr ∧ w.Postable con r accepted
  else w.Stampable con ck

instance (w : ContextWorld) (con : ConId) (ck : Addr) (r : GetReply) (accepted : Bool) :
    Decidable (w.Activatable con ck r accepted) := by
  unfold Activatable
  infer_instance

/-- **The condition.** -/
def Guard (w : ContextWorld) : ContextOp → Prop
  | .init_recv con r accepted => w.chunk_mgr.free_size ≠ 0 → w.Postable con r accepted
  | .getFails _ => False
  | .encode_ con ck _ => w.Stampable con ck
  | .send con ck accepted => accepted = true → (w.mem ck).ctx4 = ck ∧ (w.mem ck).con = con
  | .send_by_id con buffer_id _ _ | .sendTo con buffer_id _ _ =>
      (w.send_chunks_map con).value buffer_id nullptr ≠ nullptr ∧
        w.Stampable con ((w.send_chunks_map con).value buffer_id nullptr)
  | .sendBuf .. | .sendBufTo .. => False
  | .activate_recv_chunk r accepted => ∀ a ∈ w.activating, w.Activatable a.1 a.2 r accepted
  | .construct .. | .open .. | .init_send .. | .get .. | .reclaim .. | .set_buffer ..
  | .completion .. | .completion_error _ => True

instance (w : ContextWorld) : DecidablePred w.Guard
  | .init_recv .. | .getFails _ | .encode_ .. | .send .. | .send_by_id .. | .sendTo ..
  | .sendBuf .. | .sendBufTo .. | .activate_recv_chunk .. | .construct .. | .open ..
  | .init_send .. | .get .. | .reclaim .. | .set_buffer .. | .completion ..
  | .completion_error _ => by unfold Guard; infer_instance

end ContextWorld

/-! ## What the manager does -/

/-- No connection has changed, and no context has lost its chunk. -/
structure Keeps (mem mem' : Mem) : Prop where
  con : ∀ a, (mem' a).con = (mem a).con
  link : ∀ a, (mem a).ctx4 = a → (mem' a).ctx4 = a

theorem Keeps.refl (mem : Mem) : Keeps mem mem := ⟨fun _ => rfl, fun _ h => h⟩

/-- A header is written, with the connection it had. -/
theorem keeps_update {mem : Mem} {ck : Addr} {header : Chunk} (hcon : header.con = (mem ck).con)
    (hlink : (mem ck).ctx4 = ck → header.ctx4 = ck) :
    Keeps mem (Function.update mem ck header) := by
  constructor
  · intro a
    by_cases ha : a = ck
    · rw [ha, Function.update_self, hcon]
    · rw [Function.update_of_ne ha]
  · intro a h
    by_cases ha : a = ck
    · subst ha
      rw [Function.update_self]
      exact hlink h
    · rw [Function.update_of_ne ha]
      exact h

/-- **What `get` does**: it returns the next chunk, which it links if it is to be linked. -/
structure Gets (mgr : ChunkMgr) (mem : Mem) (r : GetReply) (mgr' : ChunkMgr) (mem' : Mem)
    (ck : Addr) : Prop where
  next : ck = mgr.next r
  keeps : Keeps mem mem'
  nullFree : mgr.NullFree → mgr'.NullFree
  linked : (mem' ck).ctx4 = ck ↔ mgr.LinksNext mem

theorem gets_of_get {mgr mgr' : ChunkMgr} {mem mem' : Mem} {impl impl' : ConnectionImpl}
    {r : GetReply} {ck : Addr} (hans : mgr.Answers r)
    (hget : mgr.get mem impl r = some (mgr', mem', impl', ck)) : Gets mgr mem r mgr' mem' ck := by
  cases mgr with
  | pool p =>
    obtain ⟨⟨p', m', c', a⟩, hp, heq⟩ := Option.map_eq_some_iff.mp hget
    cases heq
    rw [ChunkPool.get_eq hans] at hp
    split at hp
    · cases hp
    · cases hp
      refine ⟨rfl, keeps_update rfl fun _ => rfl, fun _ => trivial, ?_⟩
      exact ⟨fun _ => trivial, fun _ => by simp only [ChunkPool.prepare, Function.update_self]⟩
  | external m =>
    obtain ⟨rfl, rfl, ⟨hbufs, rfl, rfl⟩ | ⟨bufs, hbufs, rfl⟩⟩ := ChunkMgr.get_external_iff.mp hget
    · refine ⟨?_, Keeps.refl _, fun h => h, ?_⟩
      · simp [ChunkMgr.next, hbufs]
      · simp [ChunkMgr.LinksNext, hbufs]
    · refine ⟨?_, Keeps.refl _, fun h hmem => h ?_, ?_⟩
      · simp [ChunkMgr.next, hbufs]
      · rw [hbufs]
        exact List.mem_cons_of_mem _ hmem
      · simp [ChunkMgr.LinksNext, hbufs]

namespace ConnectionWorld

variable {s t : ConnectionWorld} {con : ConId} {c c' : Connection} {r : GetReply} {ck : Addr}

/-- All connections are RDM connections, and null is not among the chunks. -/
structure Rdm (s : ConnectionWorld) : Prop where
  kind : ∀ con c, s.cons con = some c → c.kind = .rdm
  nullFree : s.chunk_mgr.NullFree
  held : s.holder nullptr = none

theorem rdm_setCon (h : s.Rdm) (hkind : c.kind = .rdm) : (s.setCon con c).Rdm := by
  refine ⟨fun d x hx => ?_, h.nullFree, h.held⟩
  rcases of_update hx with ⟨-, hx⟩ | ⟨-, hx⟩
  · cases hx
    exact hkind
  · exact h.kind d x hx

theorem get_spec (h : s.Rdm) (hget : s.get con c r = some (t, c', ck)) :
    Gets s.chunk_mgr s.mem r t.chunk_mgr t.mem ck ∧ t.Rdm ∧ c'.kind = c.kind := by
  unfold get at hget
  split at hget
  · rename_i hans
    obtain ⟨⟨mgr, mem, impl, a⟩, hmgr, heq⟩ := Option.map_eq_some_iff.mp hget
    cases heq
    have hgets := gets_of_get hans hmgr
    refine ⟨hgets, ⟨h.kind, hgets.nullFree h.nullFree, ?_⟩, rfl⟩
    show (if ck = nullptr then s.holder else Function.update s.holder ck (some con)) nullptr = none
    split
    · exact h.held
    · rw [Function.update_of_ne (Ne.symm ‹_›)]
      exact h.held
  · cases hget

/-- A chunk that is out goes back. -/
theorem reclaim_spec (h : s.Rdm) (hck : ck ≠ nullptr) (link : ℕ) :
    Keeps s.mem (s.reclaim c ck link).1.mem ∧ (s.reclaim c ck link).1.Rdm ∧
      (s.reclaim c ck link).2.kind = c.kind := by
  have hheld : Function.update s.holder ck none nullptr = none := by
    rw [Function.update_of_ne (Ne.symm hck)]
    exact h.held
  have hnull := h.nullFree
  unfold reclaim ChunkMgr.reclaim
  cases hm : s.chunk_mgr with
  | pool p => exact ⟨keeps_update rfl id, ⟨h.kind, trivial, hheld⟩, rfl⟩
  | external m =>
    rw [hm] at hnull
    refine ⟨Keeps.refl _, ⟨h.kind, ?_, hheld⟩, rfl⟩
    intro hmem
    exact (List.mem_cons.mp hmem).elim (Ne.symm hck) hnull

/-- The calls that post nothing and write no connection into a chunk. -/
def PostsNothing : ConnectionOp → Prop
  | .construct _ kind _ _ => kind = .rdm
  | .open .. | .init_send .. | .get .. | .reclaim .. => True
  | .init_recv .. | .send .. | .set_buffer .. | .destroy .. => False

/-- **They keep connections and links.** -/
theorem step_keeps (h : s.Rdm) (op : ConnectionOp) (hop : PostsNothing op)
    (hstep : s.step op = some t) : Keeps s.mem t.mem ∧ t.Rdm := by
  cases op with
  | construct con kind e n =>
    simp only [step] at hstep
    split at hstep
    · cases hstep
      exact ⟨Keeps.refl _, rdm_setCon h hop⟩
    · cases hstep
  | «open» con ok =>
    obtain ⟨c, hc, hopen⟩ := Option.bind_eq_some_iff.mp hstep
    split at hopen
    · cases hopen
      exact ⟨Keeps.refl _, rdm_setCon h (h.kind con c hc)⟩
    · cases hopen
  | init_send con r fab =>
    obtain ⟨c, hc, hsend⟩ := Option.bind_eq_some_iff.mp hstep
    have hkind := h.kind con c hc
    split at hsend
    · simp_all
    · unfold rdmSend at hsend
      split at hsend
      · cases hsend
        exact ⟨Keeps.refl _, rdm_setCon h hkind⟩
      · obtain ⟨⟨s', c', a⟩, hget, hrest⟩ := Option.bind_eq_some_iff.mp hsend
        obtain ⟨hgets, hrdm, hkind'⟩ := get_spec h hget
        by_cases ha : a = nullptr
        · simp only [if_pos ha, reduceCtorEq] at hrest
        · simp only [if_neg ha, Option.some.injEq] at hrest
          subst hrest
          exact ⟨hgets.keeps, rdm_setCon hrdm (hkind'.trans hkind)⟩
    · cases hsend
  | get con r =>
    obtain ⟨c, hc, hmap⟩ := Option.bind_eq_some_iff.mp hstep
    obtain ⟨⟨s', c', a⟩, hget, heq⟩ := Option.map_eq_some_iff.mp hmap
    cases heq
    obtain ⟨hgets, hrdm, hkind'⟩ := get_spec h hget
    exact ⟨hgets.keeps, rdm_setCon hrdm (hkind'.trans (h.kind con c hc))⟩
  | reclaim con ck link =>
    obtain ⟨c, hc, hreclaim⟩ := Option.bind_eq_some_iff.mp hstep
    split at hreclaim
    · rename_i hout
      cases hreclaim
      have hck : ck ≠ nullptr := by
        rintro rfl
        rw [h.held] at hout
        cases hout
      obtain ⟨hkeeps, hrdm, hkind⟩ := reclaim_spec (c := c) h hck link
      exact ⟨hkeeps, rdm_setCon hrdm (hkind.trans (h.kind con c hc))⟩
    · cases hreclaim
  | init_recv | send | set_buffer | destroy => exact hop.elim

/-- **The receive of a round**: nothing without a free chunk, or the next chunk is stamped. -/
theorem init_recv_spec (h : s.Rdm) {fab : FabricReply}
    (hstep : s.step (.init_recv con r fab) = some t) :
    t.Rdm ∧ (s.chunk_mgr.free_size = 0 ∧ t.mem = s.mem ∨
      s.chunk_mgr.free_size ≠ 0 ∧ s.chunk_mgr.next r ≠ nullptr ∧
        ∃ mem mgr, Gets s.chunk_mgr s.mem r mgr mem (s.chunk_mgr.next r) ∧
          t.mem = Function.update mem (s.chunk_mgr.next r)
            { mem (s.chunk_mgr.next r) with con := con }) := by
  obtain ⟨c, hc, hrecv⟩ := Option.bind_eq_some_iff.mp hstep
  have hkind := h.kind con c hc
  split at hrecv
  · simp_all
  · simp only [rdmRecv] at hrecv
    by_cases hfree : s.chunk_mgr.free_size = 0
    · simp only [if_pos hfree, Option.some.injEq] at hrecv
      subst hrecv
      exact ⟨rdm_setCon h hkind, Or.inl ⟨hfree, rfl⟩⟩
    · simp only [if_neg hfree] at hrecv
      obtain ⟨⟨s', c', a⟩, hget, hrest⟩ := Option.bind_eq_some_iff.mp hrecv
      obtain ⟨hgets, hrdm, hkind'⟩ := get_spec h hget
      have hstamped : (s'.stamp con a none).Rdm := ⟨hrdm.kind, hrdm.nullFree, hrdm.held⟩
      obtain rfl := hgets.next
      by_cases ha : s.chunk_mgr.next r = nullptr
      · simp only [if_pos ha, reduceCtorEq] at hrest
      · simp only [if_neg ha] at hrest
        refine ⟨?_, Or.inr ⟨hfree, ha, s'.mem, s'.chunk_mgr, hgets, ?_⟩⟩
        · split at hrest <;> cases hrest <;> exact rdm_setCon hstamped (hkind'.trans hkind)
        · split at hrest <;> cases hrest <;> rfl
  · cases hrecv

end ConnectionWorld

namespace ConnectionWorld

/-- `get` outside `init`, for which null is an answer. -/
theorem get_step_spec {s t : ConnectionWorld} {con : ConId} {r : GetReply} (h : s.Rdm)
    (hstep : s.step (.get con r) = some t) :
    t.Rdm ∧ Gets s.chunk_mgr s.mem r t.chunk_mgr t.mem (s.chunk_mgr.next r) := by
  obtain ⟨c, hc, hmap⟩ := Option.bind_eq_some_iff.mp hstep
  obtain ⟨⟨s', c', a⟩, hget, heq⟩ := Option.map_eq_some_iff.mp hmap
  cases heq
  obtain ⟨hgets, hrdm, hkind⟩ := get_spec h hget
  obtain rfl := hgets.next
  exact ⟨rdm_setCon hrdm (hkind.trans (h.kind con c hc)), hgets⟩

end ConnectionWorld

namespace ContextWorld

/-! ## What will be resolved -/

variable {k : RdmServiceKind} {w w' : ContextWorld} {o : RdmOperation} {con : ConId} {ck : Addr}
  {header : Chunk} {accepted : Bool} {r : GetReply}

/-- The context belongs to a chunk that has its own address and the operation's connection. -/
theorem resolves_iff : w.Resolves o ↔ ∃ ck, o.context = .chunk ck ∧ ck ≠ nullptr ∧
    (w.mem ck).ctx4 = ck ∧ (w.mem ck).con = o.con := by
  cases hctx : o.context with
  | chunk a =>
    simp only [FiContext.chunk.injEq, exists_eq_left']
    by_cases hnull : (w.mem a).ctx4 = nullptr
    · have hfound : w.found o = none := by
        unfold found
        rw [hctx]
        exact if_pos hnull
      constructor
      · rintro ⟨hsome, -⟩
        rw [hfound] at hsome
        cases hsome
      · rintro ⟨ha, hlink, -⟩
        exact absurd (hlink.symm.trans hnull) ha
    · have hfound : w.found o = some ((w.mem a).ctx4, (w.mem (w.mem a).ctx4).con) := by
        unfold found
        rw [hctx]
        exact if_neg hnull
      constructor
      · rintro ⟨-, hown⟩
        have heq := hfound.symm.trans (hown a hctx)
        simp only [Option.some.injEq, Prod.mk.injEq] at heq
        obtain ⟨hlink, hcon⟩ := heq
        rw [hlink] at hcon
        exact ⟨fun ha => hnull (hlink.trans ha), hlink, hcon⟩
      · rintro ⟨-, hlink, hcon⟩
        rw [hlink, hcon] at hfound
        refine ⟨by rw [hfound]; rfl, fun b hb => ?_⟩
        rw [hctx] at hb
        cases hb
        exact hfound
  | allocated n =>
    have hfound : w.found o = none := by
      unfold found
      rw [hctx]
      rfl
    simp [Resolves, hfound]

theorem Resolves.keep (h : w.Resolves o) (hkeeps : Keeps w.mem w'.mem) : w'.Resolves o := by
  obtain ⟨ck, hctx, hnull, hlink, hcon⟩ := resolves_iff.mp h
  exact resolves_iff.mpr ⟨ck, hctx, hnull, hkeeps.link ck hlink, (hkeeps.con ck).trans hcon⟩

/-- A header is written. -/
theorem Resolves.write (h : w.Resolves o) (hmem : w'.mem = Function.update w.mem ck header)
    (hck : o.context = .chunk ck → (w.mem ck).ctx4 = ck →
      header.ctx4 = ck ∧ header.con = o.con) : w'.Resolves o := by
  obtain ⟨a, hctx, hnull, hlink, hcon⟩ := resolves_iff.mp h
  refine resolves_iff.mpr ⟨a, hctx, hnull, ?_⟩
  rw [hmem]
  by_cases ha : a = ck
  · subst ha
    rw [Function.update_self]
    exact hck hctx hlink
  · rw [Function.update_of_ne ha]
    exact ⟨hlink, hcon⟩

/-- What has been written into the chunk of an operation that will be resolved. -/
theorem Resolves.written (h : w.Resolves o) (hmem : w.mem ck = header)
    (hctx : o.context = .chunk ck) : header.ctx4 = ck ∧ header.con = o.con := by
  obtain ⟨a, hctx', -, hlink, hcon⟩ := resolves_iff.mp h
  rw [hctx] at hctx'
  cases hctx'
  rw [← hmem]
  exact ⟨hlink, hcon⟩

/-! ## The invariant -/

/-- The run has been sound; nothing has been allocated; the chunk that is about to be posted
again is linked. -/
structure Inv (w : ContextWorld) : Prop where
  rdm : w.toConnectionWorld.Rdm
  sound : w.Sound
  allocated : w.allocated = 0
  freed : ∀ n, w.freed n = 0
  activating : ∀ con ck, w.activating = some (con, ck) → ck ≠ nullptr → (w.mem ck).ctx4 = ck

/-- A new manager has no chunk at all. -/
theorem inv_init {mem : Mem} {mgr : ChunkMgr} (h : mgr.free = []) : (init mem mgr).Inv where
  rdm := by
    refine ⟨by simp [init, ConnectionWorld.init], ?_, rfl⟩
    show mgr.NullFree
    cases mgr with
    | pool p => trivial
    | external m =>
      have hbufs : m.bufs = [] := h
      simp [ChunkMgr.NullFree, hbufs]
  sound := ⟨⟨rfl, by simp [init], by simp [init]⟩, by simp [init]⟩
  allocated := rfl
  freed _ := rfl
  activating := by simp [init]

/-- Without allocated contexts there is nothing to free. -/
theorem right_freed (hzero : w.allocated = 0) (n : ℕ) (hn : n < w.allocated) :
    w.freed n = if ∃ o ∈ w.inFlight, o.context = .allocated n then 0 else 1 :=
  absurd hn (by omega)

/-- Chunks and connections change, and every header keeps its connection and its link. -/
theorem inv_keeps (h : w.Inv) {s : ConnectionWorld} (hkeeps : Keeps w.mem s.mem) (hrdm : s.Rdm)
    (map : ConId → StdMap ℤ Addr) :
    Inv { w with toConnectionWorld := s, send_chunks_map := map } where
  rdm := hrdm
  sound := ⟨⟨h.sound.alive, h.sound.resolved, h.sound.freed⟩,
    fun o ho => (h.sound.inFlight o ho).keep hkeeps⟩
  allocated := h.allocated
  freed := h.freed
  activating con ck hact hck := hkeeps.link ck (h.activating con ck hact hck)

/-- A header is written that suits the operations in flight. -/
theorem inv_write (header : Chunk) (h : w.Inv) (hlink : (w.mem ck).ctx4 = ck → header.ctx4 = ck)
    (hcon : ∀ o ∈ w.inFlight, o.context = .chunk ck → header.con = o.con) :
    Inv { w with mem := Function.update w.mem ck header } where
  rdm := ⟨h.rdm.kind, h.rdm.nullFree, h.rdm.held⟩
  sound := ⟨⟨h.sound.alive, h.sound.resolved, h.sound.freed⟩,
    fun o ho => (h.sound.inFlight o ho).write rfl fun hctx hold => ⟨hlink hold, hcon o ho hctx⟩⟩
  allocated := h.allocated
  freed := h.freed
  activating con' a hact ha := by
    have hold := h.activating con' a hact ha
    show (Function.update w.mem ck header a).ctx4 = a
    by_cases hck : a = ck
    · subst hck
      rw [Function.update_self]
      exact hlink hold
    · rw [Function.update_of_ne hck]
      exact hold

/-- A connection that may stamp a chunk does. -/
theorem inv_stamp (header : Chunk) (h : w.Inv) (hstamp : w.Stampable con ck)
    (hlink : (w.mem ck).ctx4 = ck → header.ctx4 = ck) (hcon : header.con = con) :
    Inv { w with mem := Function.update w.mem ck header } :=
  inv_write header h hlink fun o ho hctx => hcon.trans (hstamp o ho hctx).symm

/-- An operation is posted that will be resolved. -/
theorem inv_post (h : w.Inv) (ho : accepted = true → w.Resolves o) : (w.post accepted o).Inv := by
  cases accepted with
  | false => exact h
  | true =>
    refine ⟨h.rdm, ⟨⟨h.sound.alive, h.sound.resolved, right_freed h.allocated⟩, ?_⟩,
      h.allocated, h.freed, h.activating⟩
    intro p hp
    rcases List.mem_cons.mp hp with rfl | hp
    · exact ho rfl
    · exact h.sound.inFlight p hp

/-- A completion is read. -/
theorem inv_erase (h : w.Inv) (o : RdmOperation) :
    Inv { w with inFlight := w.inFlight.erase o } where
  rdm := h.rdm
  sound := ⟨⟨h.sound.alive, h.sound.resolved, right_freed h.allocated⟩,
    fun p hp => h.sound.inFlight p (List.mem_of_mem_erase hp)⟩
  allocated := h.allocated
  freed := h.freed
  activating := h.activating

/-- The external manager is given a new chunk. -/
theorem inv_set_buffer (h : w.Inv) (hnew : w.New ck)
    (hstep : w.stepConnection (.set_buffer ck header) = some w') : w'.Inv := by
  obtain ⟨s, hs, rfl⟩ := Option.map_eq_some_iff.mp hstep
  simp only [ConnectionWorld.step] at hs
  split at hs
  · obtain ⟨mgr, hmgr, rfl⟩ := Option.map_eq_some_iff.mp hs
    have hnull := h.rdm.nullFree
    cases hm : w.chunk_mgr with
    | pool p =>
      rw [hm] at hmgr
      cases hmgr
    | external m =>
      rw [hm] at hmgr hnull
      cases hmgr
      refine ⟨⟨h.rdm.kind, fun hmem => ?_, h.rdm.held⟩,
        ⟨⟨h.sound.alive, h.sound.resolved, h.sound.freed⟩, fun o ho => ?_⟩,
        h.allocated, h.freed, fun con a hact ha => ?_⟩
      · exact (List.mem_cons.mp hmem).elim (Ne.symm hnew.1) hnull
      · exact (h.sound.inFlight o ho).write rfl fun hctx _ => absurd hctx (hnew.2.1 o ho)
      · show (Function.update w.mem ck header a).ctx4 = a
        rw [Function.update_of_ne (hnew.2.2 (con, a) hact)]
        exact h.activating con a hact ha
  · cases hs

/-- What the handler has still to do is remembered. -/
theorem inv_activating (h : w.Inv) {a : Option (ConId × Addr)}
    (ha : ∀ con ck, a = some (con, ck) → ck ≠ nullptr → (w.mem ck).ctx4 = ck) :
    Inv { w with activating := a } where
  rdm := h.rdm
  sound := ⟨⟨h.sound.alive, h.sound.resolved, h.sound.freed⟩, h.sound.inFlight⟩
  allocated := h.allocated
  freed := h.freed
  activating := ha

/-- **A completion is handled**: the chunk and the connection are found. -/
theorem inv_handle (h : w.Inv) (ho : w.Resolves o) (len : ℕ) : (w.handle k o len).Inv := by
  obtain ⟨ck, hctx, hnull, hlink, hcon⟩ := resolves_iff.mp ho
  have hfound := ho.2 ck hctx
  have hresolved : ∀ x ∈ (⟨o, ck, o.con⟩ : Resolution) :: w.resolved, ∀ a,
      x.operation.context = .chunk a → x.ck = a ∧ x.con = x.operation.con := by
    intro x hx a ha
    rcases List.mem_cons.mp hx with rfl | hx
    · rw [hctx] at ha
      cases ha
      exact ⟨rfl, rfl⟩
    · exact h.sound.resolved x hx a ha
  have hrecord : Inv { w with resolved := ⟨o, ck, o.con⟩ :: w.resolved } :=
    ⟨h.rdm, ⟨⟨h.sound.alive, hresolved, h.sound.freed⟩, h.sound.inFlight⟩, h.allocated, h.freed,
      h.activating⟩
  cases k with
  | cpp =>
    simp only [handle, RdmCqDemultiplexer_handle, hfound]
    split
    · have hsize := inv_write { w.mem ck with size := len } hrecord (fun h => h)
        fun p hp hpctx => ((h.sound.inFlight p hp).written rfl hpctx).2
      exact inv_activating hsize (by rintro _ _ ⟨⟩ hne; exact absurd rfl hne)
    · exact hrecord
  | java =>
    simp only [handle, ExternalRdmCqDemultiplexer_handle, hfound]
    refine inv_activating hrecord fun con' a hact _ => ?_
    split at hact
    · cases hact
      exact hlink
    · cases hact

/-! ## Posting a receive -/

/-- The next chunk of the manager is stamped and posted. -/
theorem inv_postNext (h : w.Inv) {s : ConnectionWorld} {mem : Mem} {mgr : ChunkMgr}
    (hgets : Gets w.chunk_mgr w.mem r mgr mem (w.chunk_mgr.next r))
    (hmem : s.mem = Function.update mem (w.chunk_mgr.next r)
      { mem (w.chunk_mgr.next r) with con := con }) (hrdm : s.Rdm)
    (hnull : w.chunk_mgr.next r ≠ nullptr) (hpost : w.Postable con r accepted) :
    Inv ({ w with toConnectionWorld := s }.post accepted
      ⟨con, true, .chunk (w.chunk_mgr.next r)⟩) := by
  have hgot : Inv { w with mem := mem } :=
    inv_keeps h (s := { w.toConnectionWorld with mem := mem }) hgets.keeps
      ⟨h.rdm.kind, h.rdm.nullFree, h.rdm.held⟩ w.send_chunks_map
  have hstamped := inv_stamp { mem (w.chunk_mgr.next r) with con := con } hgot hpost.1 id rfl
  have hs := inv_keeps hstamped (s := s) (by rw [hmem]; exact Keeps.refl _) hrdm
    w.send_chunks_map
  refine inv_post hs fun haccepted => resolves_iff.mpr ⟨_, rfl, hnull, ?_⟩
  show (s.mem _).ctx4 = _ ∧ (s.mem _).con = con
  rw [hmem, Function.update_self]
  exact ⟨hgets.linked.mpr (hpost.2 haccepted), rfl⟩

/-- Otherwise some operation in flight will not be resolved. -/
theorem postable_of_sound {s : ConnectionWorld} {mem : Mem} {mgr : ChunkMgr}
    (hgets : Gets w.chunk_mgr w.mem r mgr mem (w.chunk_mgr.next r))
    (hmem : s.mem = Function.update mem (w.chunk_mgr.next r)
      { mem (w.chunk_mgr.next r) with con := con })
    (hsound : ({ w with toConnectionWorld := s }.post accepted
      ⟨con, true, .chunk (w.chunk_mgr.next r)⟩).Sound) : w.Postable con r accepted := by
  have hheader : s.mem (w.chunk_mgr.next r) =
      { mem (w.chunk_mgr.next r) with con := con } := by
    rw [hmem]
    exact Function.update_self ..
  cases accepted with
  | false =>
    exact ⟨fun o ho hctx => ((hsound.inFlight o ho).written hheader hctx).2.symm,
      fun hf => by cases hf⟩
  | true =>
    refine ⟨fun o ho hctx => ?_, fun _ => ?_⟩
    · exact ((hsound.inFlight o (List.mem_cons_of_mem _ ho)).written hheader hctx).2.symm
    · exact hgets.linked.mp ((hsound.inFlight _ List.mem_cons_self).written hheader rfl).1

/-- A chunk that has been received into is posted again. -/
theorem inv_repost (h : w.Inv) (hnull : ck ≠ nullptr) (hlink : (w.mem ck).ctx4 = ck)
    (hstamp : w.Stampable con ck) :
    ((w.stamp con ck).post accepted ⟨con, true, .chunk ck⟩).Inv := by
  have hstamped : (w.stamp con ck).Inv := inv_stamp { w.mem ck with con := con } h hstamp id rfl
  refine inv_post hstamped fun _ => resolves_iff.mpr ⟨ck, rfl, hnull, ?_⟩
  show (Function.update w.mem ck _ ck).ctx4 = ck ∧ (Function.update w.mem ck _ ck).con = con
  rw [Function.update_self]
  exact ⟨hlink, rfl⟩

/-- An operation in flight shows what has been written into its chunk. -/
theorem stampable_of_sound (hsound : w'.Sound) (hflight : ∀ o ∈ w.inFlight, o ∈ w'.inFlight)
    (hcon : (w'.mem ck).con = con) : w.Stampable con ck :=
  fun o ho hctx => ((hsound.inFlight o (hflight o ho)).written rfl hctx).2.symm.trans hcon

theorem mem_post (w : ContextWorld) (accepted : Bool) (o : RdmOperation) :
    (w.post accepted o).mem = w.mem := by
  cases accepted <;> rfl

theorem inFlight_post {p : RdmOperation} (hp : p ∈ w.inFlight) :
    p ∈ (w.post accepted o).inFlight := by
  cases accepted with
  | false => exact hp
  | true => exact List.mem_cons_of_mem _ hp

/-! ## The sends -/

theorem inv_encode (h : w.Inv) (hstamp : w.Stampable con ck) (written : Option (ℕ × ℕ)) :
    (w.encode_ con ck written).Inv := by
  cases written with
  | none => exact inv_stamp _ h hstamp (fun _ => rfl) rfl
  | some x => exact inv_stamp _ h hstamp (fun _ => rfl) rfl

theorem inv_send_by_id (h : w.Inv) {buffer_id : ℤ} {peer_addr : ℕ}
    (hguard : w.Guard (.send_by_id con buffer_id peer_addr accepted)) :
    (w.send_by_id con buffer_id peer_addr accepted).Inv := by
  obtain ⟨hnull, hstamp⟩ := hguard
  unfold send_by_id
  rw [if_neg hnull]
  have hwritten := inv_stamp { w.mem ((w.send_chunks_map con).value buffer_id nullptr) with
    con := con, peer_addr := peer_addr,
    ctx4 := (w.send_chunks_map con).value buffer_id nullptr } h hstamp (fun _ => rfl) rfl
  refine inv_post hwritten fun _ => resolves_iff.mpr ⟨_, rfl, hnull, ?_⟩
  simp only [Function.update_self, and_self]

theorem guard_send_by_id {buffer_id : ℤ} {peer_addr : ℕ}
    (hsound : (w.send_by_id con buffer_id peer_addr accepted).Sound) :
    w.Guard (.send_by_id con buffer_id peer_addr accepted) := by
  unfold send_by_id at hsound
  by_cases hnull : (w.send_chunks_map con).value buffer_id nullptr = nullptr
  · rw [if_pos hnull] at hsound
    cases hsound.alive
  · rw [if_neg hnull] at hsound
    refine ⟨hnull, stampable_of_sound hsound (fun o ho => inFlight_post ho) ?_⟩
    rw [mem_post]
    simp only [Function.update_self]

/-- A context that has been allocated is lost, or will be taken for a chunk's. -/
theorem not_sound_sendBuf (h : w.Inv) : ¬ (w.sendBuf con accepted).Sound := by
  intro hsound
  have hfreed := hsound.freed w.allocated (by cases accepted <;> exact Nat.lt_succ_self _)
  have hzero : (w.sendBuf con accepted).freed w.allocated = 0 := by
    cases accepted <;> exact h.freed _
  rw [hzero] at hfreed
  split at hfreed
  · rename_i hin
    obtain ⟨o, ho, hctx⟩ := hin
    obtain ⟨ck, hck, -⟩ := resolves_iff.mp (hsound.inFlight o ho)
    rw [hctx] at hck
    cases hck
  · cases hfreed

/-! ## The steps -/

/-- A step that only moves chunks and connections. -/
theorem inv_stepConnection (h : w.Inv) (op : ConnectionOp)
    (hop : ConnectionWorld.PostsNothing op) (hstep : w.stepConnection op = some w') :
    w'.Inv := by
  obtain ⟨s, hs, rfl⟩ := Option.map_eq_some_iff.mp hstep
  obtain ⟨hkeeps, hrdm⟩ := ConnectionWorld.step_keeps h.rdm op hop hs
  exact inv_keeps h hkeeps hrdm w.send_chunks_map

theorem inv_init_recv (h : w.Inv) (hguard : w.Guard (.init_recv con r accepted))
    (hstep : w.act k (.init_recv con r accepted) = some w') : w'.Inv := by
  obtain ⟨t, ht, rfl⟩ := Option.map_eq_some_iff.mp hstep
  obtain ⟨s, hs, rfl⟩ := Option.map_eq_some_iff.mp ht
  obtain ⟨hrdm, ⟨hfree, hmem⟩ | ⟨hfree, hnull, mem, mgr, hgets, hmem⟩⟩ :=
    ConnectionWorld.init_recv_spec h.rdm hs
  · rw [if_pos hfree]
    exact inv_keeps h (hmem ▸ Keeps.refl _) hrdm w.send_chunks_map
  · rw [if_neg hfree]
    exact inv_postNext h hgets hmem hrdm hnull (hguard hfree)

theorem inv_activate (h : w.Inv) (hguard : w.Guard (.activate_recv_chunk r accepted))
    (hact : w.activating = some (con, ck))
    (hstep : { w with activating := none }.activate_recv_chunk con ck r accepted = some w') :
    w'.Inv := by
  have hidle : Inv { w with activating := none } := inv_activating h (by simp)
  have hguard : w.Activatable con ck r accepted := hguard (con, ck) hact
  unfold Activatable at hguard
  unfold activate_recv_chunk at hstep
  by_cases hck : ck = nullptr
  · rw [if_pos hck] at hstep hguard
    obtain ⟨t, ht, hrest⟩ := Option.map_eq_some_iff.mp hstep
    obtain ⟨s, hs, rfl⟩ := Option.map_eq_some_iff.mp ht
    obtain ⟨hrdm, hgets⟩ := ConnectionWorld.get_step_spec h.rdm hs
    simp only [if_neg hguard.1] at hrest
    subst hrest
    exact inv_postNext hidle hgets rfl ⟨hrdm.kind, hrdm.nullFree, hrdm.held⟩ hguard.1 hguard.2
  · rw [if_neg hck] at hstep hguard
    cases hstep
    exact inv_repost hidle hck (h.activating con ck hact hck) hguard

/-- **A step that meets the condition keeps the invariant.** -/
theorem inv_step (op : ContextOp) (h : w.Inv) (hguard : w.Guard op)
    (hstep : w.step k op = some w') : w'.Inv := by
  rw [step, h.sound.alive, if_neg Bool.false_ne_true] at hstep
  cases op with
  | construct con n =>
    exact inv_stepConnection h (.construct con .rdm (decide (k = .java)) n) rfl hstep
  | «open» con ok => exact inv_stepConnection h (.open con ok) trivial hstep
  | get con r => exact inv_stepConnection h (.get con r) trivial hstep
  | reclaim con ck link => exact inv_stepConnection h (.reclaim con ck link) trivial hstep
  | init_recv con r accepted => exact inv_init_recv h hguard hstep
  | init_send con r =>
    obtain ⟨t, ht, rfl⟩ := Option.map_eq_some_iff.mp hstep
    have hinv := inv_stepConnection h (.init_send con r ⟨none, true⟩) trivial ht
    split
    · exact hinv
    · exact inv_keeps hinv (Keeps.refl _) hinv.rdm _
  | getFails | sendBuf | sendBufTo => exact hguard.elim
  | set_buffer ck header =>
    simp only [act] at hstep
    split at hstep
    · exact inv_set_buffer h ‹_› hstep
    · cases hstep
  | encode_ con ck written =>
    simp only [act] at hstep
    split at hstep
    · cases hstep
      exact inv_encode h hguard written
    · cases hstep
  | send con ck accepted =>
    simp only [act] at hstep
    split at hstep
    · rename_i hsend
      cases hstep
      exact inv_post h fun haccepted => resolves_iff.mpr ⟨ck, rfl, hsend.2, hguard haccepted⟩
    · cases hstep
  | send_by_id con buffer_id peer_addr accepted | sendTo con buffer_id peer_addr accepted =>
    simp only [act] at hstep
    split at hstep
    · cases hstep
      exact inv_send_by_id h hguard
    · cases hstep
  | completion o len =>
    simp only [act] at hstep
    split at hstep
    · rename_i hread
      cases hstep
      exact inv_handle (inv_erase h o) (h.sound.inFlight o hread.2) len
    · cases hstep
  | completion_error o =>
    simp only [act] at hstep
    split at hstep
    · cases hstep
      exact inv_erase h o
    · cases hstep
  | activate_recv_chunk r accepted =>
    cases hact : w.activating with
    | none =>
      simp only [act, hact] at hstep
      cases hstep
    | some a =>
      simp only [act, hact] at hstep
      exact inv_activate h hguard hact hstep

/-- The receive that is posted again is sound, so the chunk could be. -/
theorem activatable_of_sound (h : w.Inv)
    (hstep : { w with activating := none }.activate_recv_chunk con ck r accepted = some w')
    (hsound : w'.Sound) : w.Activatable con ck r accepted := by
  unfold activate_recv_chunk at hstep
  unfold Activatable
  by_cases hck : ck = nullptr
  · rw [if_pos hck] at hstep ⊢
    obtain ⟨t, ht, hrest⟩ := Option.map_eq_some_iff.mp hstep
    obtain ⟨s, hs, rfl⟩ := Option.map_eq_some_iff.mp ht
    obtain ⟨-, hgets⟩ := ConnectionWorld.get_step_spec h.rdm hs
    by_cases hnext : w.chunk_mgr.next r = nullptr
    · simp only [if_pos hnext] at hrest
      subst hrest
      cases hsound.alive
    · simp only [if_neg hnext] at hrest
      subst hrest
      exact ⟨hnext, postable_of_sound (w := { w with activating := none })
        (s := s.stamp con (w.chunk_mgr.next r) none) hgets rfl hsound⟩
  · rw [if_neg hck] at hstep ⊢
    cases hstep
    refine stampable_of_sound hsound (fun o ho => inFlight_post ho) ?_
    rw [mem_post]
    show (Function.update w.mem ck _ ck).con = con
    rw [Function.update_self]

/-- **A step that does not meet it is unsound.** -/
theorem guard_of_sound (op : ContextOp) (h : w.Inv) (hstep : w.step k op = some w')
    (hsound : w'.Sound) : w.Guard op := by
  rw [step, h.sound.alive, if_neg Bool.false_ne_true] at hstep
  cases op with
  | construct | «open» | get | reclaim | init_send | set_buffer | completion | completion_error =>
    trivial
  | init_recv con r accepted =>
    intro hfree
    obtain ⟨t, ht, rfl⟩ := Option.map_eq_some_iff.mp hstep
    obtain ⟨s, hs, rfl⟩ := Option.map_eq_some_iff.mp ht
    obtain ⟨-, ⟨hzero, -⟩ | ⟨-, -, mem, mgr, hgets, hmem⟩⟩ :=
      ConnectionWorld.init_recv_spec h.rdm hs
    · exact absurd hzero hfree
    · rw [if_neg hfree] at hsound
      exact postable_of_sound hgets hmem hsound
  | getFails con =>
    simp only [act] at hstep
    split at hstep
    · split at hstep
      · cases hstep
        cases hsound.alive
      · cases hstep
    · cases hstep
  | encode_ con ck written =>
    simp only [act] at hstep
    split at hstep
    · cases hstep
      refine stampable_of_sound hsound (fun o ho => ho) ?_
      show (Function.update w.mem ck _ ck).con = con
      rw [Function.update_self]
      cases written <;> rfl
    · cases hstep
  | send con ck accepted =>
    intro haccepted
    simp only [act] at hstep
    split at hstep
    · subst haccepted
      cases hstep
      exact (hsound.inFlight _ List.mem_cons_self).written rfl rfl
    · cases hstep
  | send_by_id con buffer_id peer_addr accepted | sendTo con buffer_id peer_addr accepted =>
    simp only [act] at hstep
    split at hstep
    · cases hstep
      exact guard_send_by_id hsound
    · cases hstep
  | sendBuf con accepted | sendBufTo con accepted =>
    simp only [act] at hstep
    split at hstep
    · cases hstep
      exact not_sound_sendBuf h hsound
    · cases hstep
  | activate_recv_chunk r accepted =>
    rintro ⟨con, ck⟩ hact
    simp only [act, Option.mem_def.mp hact] at hstep
    exact activatable_of_sound h hstep hsound

/-- An operation in flight that will not be resolved: the handler goes wrong. -/
theorem resolves_of_right {len : ℕ} (hstep : w.step k (.completion o len) = some w')
    (hright : w'.Right) : w.Resolves o := by
  unfold step at hstep
  split at hstep
  · cases hstep
  simp only [act] at hstep
  split at hstep
  · cases hstep
    cases hfound : w.found o with
    | none =>
      have hnone : { w with inFlight := w.inFlight.erase o }.found o = none := hfound
      cases k <;> simp only [handle, RdmCqDemultiplexer_handle, ExternalRdmCqDemultiplexer_handle,
        hnone] at hright <;> cases hright.alive
    | some x =>
      have hsome : { w with inFlight := w.inFlight.erase o }.found o = some x := hfound
      have hmem : (⟨o, x.1, x.2⟩ : Resolution) ∈
          ({ w with inFlight := w.inFlight.erase o }.handle k o len).resolved := by
        cases k with
        | cpp =>
          simp only [handle, RdmCqDemultiplexer_handle, hsome]
          split <;> exact List.mem_cons_self
        | java =>
          simp only [handle, ExternalRdmCqDemultiplexer_handle, hsome]
          exact List.mem_cons_self
      refine ⟨by rw [hfound]; rfl, fun ck hctx => ?_⟩
      obtain ⟨hck, hcon⟩ := hright.resolved _ hmem ck hctx
      rw [hfound, ← hck, ← hcon]
  · cases hstep

/-- **When the completions of RDM operations are resolved.**  Along a run nothing goes wrong,
nor will with the operations in flight, if and only if every step meets the condition. -/
theorem sound_iff (k : RdmServiceKind) (mem : Mem) (mgr : ChunkMgr) (hmgr : mgr.free = [])
    (ops : List ContextOp) :
    Always (step k) Sound (init mem mgr) ops ↔ Meets (step k) Guard (init mem mgr) ops :=
  always_iff_meets (fun _ h => h.sound) (fun _ op _ h hg hstep => inv_step op h hg hstep)
    (fun _ op _ h hstep ht => guard_of_sound op h hstep ht) (inv_init hmgr) ops

/-! ## Runs -/

/-- A Java connection with a receive and a send: both complete, and the receive is posted
again. -/
def roundTrip : List ContextOp :=
  let r : GetReply := ⟨⟨0, none⟩, ⟨0, none⟩, 0⟩
  [.set_buffer 100 { buffer_id := 1, ctx4 := 100 },
    .set_buffer 200 { buffer_id := 2, ctx4 := 200 },
    .construct 8 1, .open 8 true, .init_recv 8 r true, .init_send 8 r,
    .send_by_id 8 1 7 true, .completion ⟨8, false, .chunk 100⟩ 0,
    .completion ⟨8, true, .chunk 200⟩ 64, .activate_recv_chunk r true]

theorem sound_roundTrip :
    Always (step .java) Sound (init (fun _ => {}) (.external {})) roundTrip :=
  (sound_iff .java (fun _ => {}) (.external {}) rfl roundTrip).mpr (by decide +kernel)

/-- A run that ends in a crash. -/
theorem not_right_of_crashed {s : ContextWorld} {ops : List ContextOp}
    (hrun : (run (step k) s ops).map (fun w => w.crashed) = some true) :
    ¬ Always (step k) Right s ops := by
  intro h
  obtain ⟨w, hw, hcrashed⟩ := Option.map_eq_some_iff.mp hrun
  rw [(h.last hw).alive] at hcrashed
  cases hcrashed

/-- `RdmCqDemultiplexer` looks for the connection of a send without a chunk. -/
theorem not_right_sendBuf :
    ¬ Always (step .cpp) Right (init (fun _ => {}) (.pool (ChunkPool.new 0 64 1)))
      [.construct 8 0, .open 8 true, .sendBuf 8 true,
        .completion ⟨8, false, .allocated 0⟩ 0] :=
  not_right_of_crashed (by decide +kernel)

/-- So does `RdmService.wait_event`, when the context has been freed. -/
theorem not_right_sendBufTo :
    ¬ Always (step .java) Right (init (fun _ => {}) (.external {}))
      [.construct 8 0, .open 8 true, .sendBufTo 8 true,
        .completion ⟨8, false, .allocated 0⟩ 0] :=
  not_right_of_crashed (by decide +kernel)

/-- A chunk of `ExternalChunkMgr(1, 64)` has no address in its context. -/
theorem not_right_unlinked :
    ¬ Always (step .cpp) Right (init (fun _ => {}) (.external {}))
      [.set_buffer 100 { buffer_id := 0, capacity := 64 }, .construct 8 1, .open 8 true,
        .init_recv 8 ⟨⟨0, none⟩, ⟨0, none⟩, 0⟩ true,
        .completion ⟨8, true, .chunk 100⟩ 64] :=
  not_right_of_crashed (by decide +kernel)

/-- The context is lost when libfabric does not accept the send. -/
theorem not_right_refused :
    ¬ Always (step .cpp) Right (init (fun _ => {}) (.pool (ChunkPool.new 0 64 1)))
      [.construct 8 0, .open 8 true, .sendBuf 8 false] := by
  intro h
  have hrun : (run (step .cpp) (init (fun _ => {}) (.pool (ChunkPool.new 0 64 1)))
      [.construct 8 0, .open 8 true, .sendBuf 8 false]).map
        (fun w => (w.allocated, w.freed 0, w.inFlight)) = some (1, 0, []) := by
    decide +kernel
  obtain ⟨w, hw, hfields⟩ := Option.map_eq_some_iff.mp hrun
  simp only [Prod.mk.injEq] at hfields
  obtain ⟨hallocated, hfreed, hflight⟩ := hfields
  have honce := (h.last hw).freed 0 (by omega)
  rw [hfreed, hflight] at honce
  simp at honce

end ContextWorld

end Hpnl
