import Hpnl.Chunk
import Hpnl.Lib.Transition

/-!
# The life of a connection

`MsgStack::connect` and `accept` create a `MsgConnection` and file it in `conMap`
under the fid of its event queue.  Three places end it: the `CLOSE_EVENT` branch of
`EqHandler::handle_event` takes it out of `conMap`, `Service::shutdown(con)` takes it
out and deletes it, and `~MsgStack` deletes what is still there.

* `ServiceWorld.step` — the EQ thread reads an event and handles it, a shutdown in
  two steps around the callback; the application connects, shuts down connections it
  was handed, and destroys the service.
* `Inv` — a connection that was created is filed, deleted, or closed by its peer.
* `connections_accounted` — **every connection is deleted exactly once, and no
  assertion fails, if** none that its peer has closed is shut down or left to the
  destructor, and no event is handled for one that has been shut down since the
  event was read; and only if, when event queues do not reuse addresses.
* `connections_unaccounted` — one connection whose peer closes it is never deleted;
  shutting it down fails the assertion of `reap`.
-/

namespace Hpnl

open Transition

/-- A `MsgConnection`: which one it is, counting from the first that was created,
and `get_fid()`, the fid of its event queue. -/
structure MsgConnection where
  id : ℕ
  fid : Addr
  deriving DecidableEq, Repr

/-- `EventType`, as far as event queues have it. -/
inductive EventType where
  | accept_event
  | connected_event
  | close_event
  deriving DecidableEq, Repr

/-- Where the EQ thread is. -/
inductive EqHandling where
  | idle
  /-- An event has been read from the queue of this fid. -/
  | read (et : EventType) (id : Addr)
  /-- The shutdown callback of the connection with this fid runs. -/
  | closing (id : Addr)
  /-- A handler without an event queue has been registered. -/
  | crashed
  deriving DecidableEq, Repr

/-- The fid whose connection the EQ thread is about to use. -/
def EqHandling.awaits : EqHandling → Option Addr
  | read .connected_event id => some id
  | read .close_event id => some id
  | closing id => some id
  | _ => none

/-- A service with its stack, its proactor and its application.  `eventMap` are the
fids with a handler, `peq` is the queue of the listening endpoint, `handed` the
connections the application has; `asserts` says that no assertion has failed.
Ghosts: the connections `created`, `removed` from `conMap`, `deleted`, and `closed` by
a `CLOSE_EVENT`; `overtaken` says that the connection that the EQ thread is about to
use has been shut down since its event was read. -/
structure ServiceWorld where
  conMap : StdMap Addr MsgConnection
  eventMap : Finset Addr
  peq : Option Addr
  eqThread : EqHandling
  handed : Finset MsgConnection
  asserts : Bool
  destroyed : Bool
  created : List MsgConnection
  removed : List MsgConnection
  deleted : List MsgConnection
  closed : Finset MsgConnection
  overtaken : Bool

/-- A step of the EQ thread or of the application. -/
inductive ServiceOp where
  /-- `Service::listen`. -/
  | listen (id : Addr)
  /-- `Service::connect`; whether `init` and `connect` of the connection succeed. -/
  | connect (id : Addr) (init connect : Bool)
  /-- The EQ thread reads an event from a queue with a handler. -/
  | read (et : EventType) (id : Addr)
  /-- `handle_event(ACCEPT_EVENT)`; whether `init` and `accept` of the connection
  succeed. -/
  | accept (id : Addr) (init accept : Bool)
  /-- `handle_event(CONNECTED_EVENT)`, whose callback hands the connection over. -/
  | connected
  /-- `handle_event(CLOSE_EVENT)` up to the callback. -/
  | close
  /-- The rest of it. -/
  | reap
  /-- `Service::shutdown(con)`. -/
  | shutdown (con : MsgConnection)
  /-- `~Service`, which deletes the stack. -/
  | destroy
  deriving DecidableEq, Repr

namespace ServiceWorld

/-- A service without connections. -/
def init : ServiceWorld :=
  { conMap := ∅
    eventMap := ∅
    peq := none
    eqThread := .idle
    handed := ∅
    asserts := true
    destroyed := false
    created := []
    removed := []
    deleted := []
    closed := ∅
    overtaken := false }

/-- `proactor->register_handler`. -/
def register_handler (s : ServiceWorld) (id : Addr) : ServiceWorld :=
  { s with eventMap := insert id s.eventMap }

/-- `proactor->remove_handler`. -/
def remove_handler (s : ServiceWorld) (id : Addr) : ServiceWorld :=
  { s with eventMap := s.eventMap.erase id }

/-- The next connection, with the fid of its queue. -/
def next (s : ServiceWorld) (id : Addr) : MsgConnection := ⟨s.created.length, id⟩

/-- A connection that is created and, because `init` or `connect` fails, deleted. -/
def discard (s : ServiceWorld) (con : MsgConnection) : ServiceWorld :=
  { s with created := con :: s.created, deleted := con :: s.deleted }

/-- A connection that is created and filed. -/
def enter (s : ServiceWorld) (con : MsgConnection) : ServiceWorld :=
  { s with conMap := s.conMap.insertNew con.fid con, created := con :: s.created }

/-- `MsgStack::get_connection`. -/
def get_connection (s : ServiceWorld) (id : Addr) : Option MsgConnection := s.conMap.find? id

/-- `MsgStack::reap`. -/
def reap (s : ServiceWorld) (con_id : Addr) : ServiceWorld :=
  match s.conMap.find? con_id with
  | none => { s with asserts := false }
  | some con => { s with conMap := s.conMap.remove con_id, removed := con :: s.removed }

/-- The `CLOSE_EVENT` branch from `remove_handler` on. -/
def close (s : ServiceWorld) (id : Addr) : ServiceWorld :=
  { (s.remove_handler id).reap id with
    eqThread := .idle
    closed := s.closed ∪ (s.conMap.find? id).toFinset }

/-- `Service::shutdown(con)`; the application has no use for `con` afterwards. -/
def shutdown (s : ServiceWorld) (con : MsgConnection) : ServiceWorld :=
  if ((s.remove_handler con.fid).reap con.fid).asserts then
    { (s.remove_handler con.fid).reap con.fid with
      deleted := con :: s.deleted
      handed := s.handed.erase con
      overtaken := s.overtaken || s.eqThread.awaits == some con.fid }
  else (s.remove_handler con.fid).reap con.fid

/-- `~MsgStack` deletes the connections in `conMap`. -/
def destroy (s : ServiceWorld) : ServiceWorld :=
  { s with
    conMap := ∅
    removed := s.conMap.entries.map Prod.snd ++ s.removed
    deleted := s.conMap.entries.map Prod.snd ++ s.deleted
    destroyed := true }

/-- No assertion has failed, and the service is there. -/
def Running (s : ServiceWorld) : Prop :=
  s.asserts = true ∧ s.destroyed = false ∧ s.eqThread ≠ .crashed

/-- An event queue that is opened has a fid that no other open queue has: those of
connections that have not been deleted, and the listening one's. -/
def Unused (s : ServiceWorld) (id : Addr) : Prop :=
  s.peq ≠ some id ∧ ∀ con ∈ s.created, con.fid = id → con ∈ s.deleted

instance (s : ServiceWorld) : Decidable s.Running :=
  inferInstanceAs (Decidable (_ ∧ _ ∧ _))

instance (s : ServiceWorld) (id : Addr) : Decidable (s.Unused id) :=
  inferInstanceAs (Decidable (_ ∧ _))

/-- One step.  When `accept` of the connection fails the handler is registered with a
null queue, whose descriptor `register_event` asks for. -/
def step (s : ServiceWorld) (op : ServiceOp) : Option ServiceWorld :=
  if s.Running then
    match op with
    | .listen id =>
        if s.peq = none ∧ s.Unused id then some { s.register_handler id with peq := some id }
        else none
    | .connect id init connect =>
        if s.Unused id then
          if init ∧ connect then some ((s.enter (s.next id)).register_handler id)
          else some (s.discard (s.next id))
        else none
    | .read et id =>
        -- only the listening queue has connection requests, and it has nothing else
        if s.eqThread = .idle ∧ id ∈ s.eventMap ∧ (et = .accept_event ↔ s.peq = some id) then
          some { s with eqThread := .read et id, overtaken := false }
        else none
    | .accept id init accept =>
        match s.eqThread with
        | .read .accept_event _ =>
            if s.Unused id then
              if init = false then some { s.discard (s.next id) with eqThread := .crashed }
              else if accept = false then some { s.enter (s.next id) with eqThread := .crashed }
              else some { (s.enter (s.next id)).register_handler id with eqThread := .idle }
            else none
        | _ => none
    | .connected =>
        match s.eqThread with
        | .read .connected_event id =>
            match s.get_connection id with
            | none => some { s with asserts := false }
            | some con => some { s with eqThread := .idle, handed := insert con s.handed }
        | _ => none
    | .close =>
        match s.eqThread with
        | .read .close_event id =>
            match s.get_connection id with
            | none => some { s with asserts := false }
            | some _ => some { s with eqThread := .closing id }
        | _ => none
    | .reap =>
        match s.eqThread with
        | .closing id => some (s.close id)
        | _ => none
    | .shutdown con => if con ∈ s.handed then some (s.shutdown con) else none
    | .destroy => if s.eqThread = .idle then some s.destroy else none
  else none

/-- No assertion has failed, no connection has been removed twice, and when the stack
has been destroyed each connection has been deleted exactly once. -/
def Accounted (s : ServiceWorld) : Prop :=
  s.asserts = true ∧ (∀ con, s.removed.count con ≤ 1) ∧
    (s.destroyed = true → ∀ con ∈ s.created, s.deleted.count con = 1)

/-- The peer has not closed the connections that the application shuts down and those
that are left to the destructor, and the connection whose event is handled has not
been shut down since the event was read. -/
def Guarded (s : ServiceWorld) : ServiceOp → Prop
  | .shutdown con => con ∉ s.closed
  | .destroy => s.closed = ∅
  | .connected | .close | .reap => s.overtaken = false
  | _ => True

/-- A queue that is opened has a fid that no connection has had. -/
def Fresh (s : ServiceWorld) : ServiceOp → Prop
  | .connect id _ _ | .accept id _ _ => ∀ con ∈ s.created, con.fid ≠ id
  | _ => True

instance (s : ServiceWorld) : (op : ServiceOp) → Decidable (s.Guarded op)
  | .shutdown con => inferInstanceAs (Decidable (con ∉ s.closed))
  | .destroy => inferInstanceAs (Decidable (s.closed = ∅))
  | .connected | .close | .reap => inferInstanceAs (Decidable (s.overtaken = false))
  | .listen _ | .connect _ _ _ | .read _ _ | .accept _ _ _ => isTrue trivial

/-! ## What each step does -/

section

variable {s t : ServiceWorld} {id : Addr} {con : MsgConnection}

/-- A step is taken while the service runs. -/
theorem running_of_step {op : ServiceOp} (h : s.step op = some t) : s.Running := by
  by_contra hrun
  unfold step at h
  rw [if_neg hrun] at h
  exact absurd h (by simp)

theorem step_listen (h : s.step (.listen id) = some t) :
    s.peq = none ∧ s.Unused id ∧ t = { s.register_handler id with peq := some id } := by
  simp only [step, Option.ite_none_right_eq_some, Option.some.injEq] at h
  exact ⟨h.2.1.1, h.2.1.2, h.2.2.symm⟩

theorem step_connect {init connect : Bool} (h : s.step (.connect id init connect) = some t) :
    s.Unused id ∧ t = if init ∧ connect then (s.enter (s.next id)).register_handler id
      else s.discard (s.next id) := by
  simp only [step, Option.ite_none_right_eq_some] at h
  obtain ⟨-, hid, h⟩ := h
  rw [← apply_ite some, Option.some.injEq] at h
  exact ⟨hid, h.symm⟩

theorem step_read {et : EventType} (h : s.step (.read et id) = some t) :
    s.eqThread = .idle ∧ id ∈ s.eventMap ∧ (et = .accept_event ↔ s.peq = some id) ∧
      t = { s with eqThread := .read et id, overtaken := false } := by
  simp only [step, Option.ite_none_right_eq_some, Option.some.injEq] at h
  exact ⟨h.2.1.1, h.2.1.2.1, h.2.1.2.2, h.2.2.symm⟩

theorem step_accept {init accept : Bool} (h : s.step (.accept id init accept) = some t) :
    s.Unused id ∧ (∃ f, s.eqThread = .read .accept_event f) ∧
      (init = false ∧ t = { s.discard (s.next id) with eqThread := .crashed } ∨
        accept = false ∧ t = { s.enter (s.next id) with eqThread := .crashed } ∨
        t = { (s.enter (s.next id)).register_handler id with eqThread := .idle }) := by
  simp only [step, Option.ite_none_right_eq_some] at h
  obtain ⟨-, h⟩ := h
  split at h
  · rename_i f hthread
    obtain ⟨hid, h⟩ := Option.ite_none_right_eq_some.mp h
    refine ⟨hid, ⟨f, hthread⟩, ?_⟩
    split at h
    · rename_i hinit
      exact Or.inl ⟨hinit, (Option.some.inj h).symm⟩
    split at h
    · rename_i haccept
      exact Or.inr (Or.inl ⟨haccept, (Option.some.inj h).symm⟩)
    · exact Or.inr (Or.inr (Option.some.inj h).symm)
  · cases h

theorem step_connected (h : s.step .connected = some t) :
    ∃ id, s.eqThread = .read .connected_event id ∧
      (s.conMap.find? id = none ∧ t = { s with asserts := false } ∨
        ∃ con, s.conMap.find? id = some con ∧
          t = { s with eqThread := .idle, handed := insert con s.handed }) := by
  simp only [step, Option.ite_none_right_eq_some] at h
  obtain ⟨-, h⟩ := h
  split at h
  · rename_i id hthread
    refine ⟨id, hthread, ?_⟩
    split at h
    · rename_i hnone
      exact Or.inl ⟨hnone, (Option.some.inj h).symm⟩
    · rename_i con hcon
      exact Or.inr ⟨con, hcon, (Option.some.inj h).symm⟩
  · cases h

theorem step_close (h : s.step .close = some t) :
    ∃ id, s.eqThread = .read .close_event id ∧
      (s.conMap.find? id = none ∧ t = { s with asserts := false } ∨
        (∃ con, s.conMap.find? id = some con) ∧ t = { s with eqThread := .closing id }) := by
  simp only [step, Option.ite_none_right_eq_some] at h
  obtain ⟨-, h⟩ := h
  split at h
  · rename_i id hthread
    refine ⟨id, hthread, ?_⟩
    split at h
    · rename_i hnone
      exact Or.inl ⟨hnone, (Option.some.inj h).symm⟩
    · rename_i con hcon
      exact Or.inr ⟨⟨con, hcon⟩, (Option.some.inj h).symm⟩
  · cases h

theorem step_reap (h : s.step .reap = some t) :
    ∃ id, s.eqThread = .closing id ∧ t = s.close id := by
  simp only [step, Option.ite_none_right_eq_some] at h
  obtain ⟨-, h⟩ := h
  split at h
  · rename_i id hthread
    exact ⟨id, hthread, (Option.some.inj h).symm⟩
  · cases h

theorem step_shutdown (h : s.step (.shutdown con) = some t) :
    con ∈ s.handed ∧ t = s.shutdown con := by
  simp only [step, Option.ite_none_right_eq_some, Option.some.injEq] at h
  exact ⟨h.2.1, h.2.2.symm⟩

theorem step_destroy (h : s.step .destroy = some t) : s.eqThread = .idle ∧ t = s.destroy := by
  simp only [step, Option.ite_none_right_eq_some, Option.some.injEq] at h
  exact ⟨h.2.1, h.2.2.symm⟩

end

/-! ## The invariant -/

/-- What holds while the service runs.  `fate`: a connection is filed, deleted, or
closed; `ready`: unless it has been overtaken, the EQ thread finds the connection that
it is about to use. -/
structure Inv (s : ServiceWorld) : Prop where
  numbered : ∀ con ∈ s.created, con.id < s.created.length
  filed : ∀ f con, s.conMap.find? f = some con →
    con.fid = f ∧ con ∈ s.created ∧ con ∉ s.deleted ∧ con ∉ s.removed
  fate : ∀ con ∈ s.created,
    s.conMap.find? con.fid = some con ∨ con ∈ s.deleted ∨ con ∈ s.closed
  closed : ∀ con ∈ s.closed,
    con ∈ s.created ∧ con ∉ s.deleted ∧ s.conMap.find? con.fid = none
  removed : s.removed.Nodup ∧ ∀ con ∈ s.removed, con ∈ s.created
  deleted : s.deleted.Nodup ∧ ∀ con ∈ s.deleted, con ∈ s.created
  handed : ∀ con ∈ s.handed, con ∈ s.created ∧ con ∉ s.deleted
  registered : ∀ f ∈ s.eventMap, s.peq = some f ∨ ∃ con, s.conMap.find? f = some con
  awaited : ∀ f, s.eqThread.awaits = some f → ∃ con ∈ s.created, con.fid = f
  ready : s.overtaken = false → ∀ f, s.eqThread.awaits = some f →
    ∃ con, s.conMap.find? f = some con

theorem inv_init : init.Inv := by
  have hfind : ∀ f, init.conMap.find? f = none := StdMap.find?_empty
  refine ⟨by simp [init], fun f con h => ?_, by simp [init], by simp [init], by simp [init],
    by simp [init], by simp [init], by simp [init], by simp [init, EqHandling.awaits],
    by simp [init, EqHandling.awaits]⟩
  exact absurd ((hfind f).symm.trans h) (by simp)

theorem next_notMem {s : ServiceWorld} (h : s.Inv) (id : Addr) : s.next id ∉ s.created :=
  fun hin => absurd (h.numbered _ hin) (lt_irrefl _)

theorem find?_of_unused {s : ServiceWorld} (h : s.Inv) {id : Addr} (hid : s.Unused id) :
    s.conMap.find? id = none := by
  cases hfind : s.conMap.find? id with
  | none => rfl
  | some con =>
    obtain ⟨hfid, hcreated, hdeleted, -⟩ := h.filed id con hfind
    exact absurd (hid.2 con hcreated hfid) hdeleted

theorem inv_register {s : ServiceWorld} (h : s.Inv) {id : Addr} {con : MsgConnection}
    (hid : s.conMap.find? id = some con) : (s.register_handler id).Inv := by
  refine ⟨h.numbered, h.filed, h.fate, h.closed, h.removed, h.deleted, h.handed,
    fun f hf => ?_, h.awaited, h.ready⟩
  rcases Finset.mem_insert.mp hf with rfl | hold
  · exact Or.inr ⟨con, hid⟩
  · exact h.registered f hold

theorem inv_thread {s : ServiceWorld} (h : s.Inv) {e : EqHandling} {b : Bool}
    (hready : ∀ f, e.awaits = some f → ∃ con, s.conMap.find? f = some con) :
    Inv { s with eqThread := e, overtaken := b } := by
  refine ⟨h.numbered, h.filed, h.fate, h.closed, h.removed, h.deleted, h.handed, h.registered,
    fun f hf => ?_, fun _ => hready⟩
  obtain ⟨con, hcon⟩ := hready f hf
  obtain ⟨hfid, hcreated, -⟩ := h.filed f con hcon
  exact ⟨con, hcreated, hfid⟩

theorem inv_discard {s : ServiceWorld} (h : s.Inv) (id : Addr) : (s.discard (s.next id)).Inv := by
  have hnew := next_notMem h id
  have hold : ∀ {con}, con ∈ s.created → con ∉ s.deleted → con ∉ s.next id :: s.deleted := by
    intro con hcreated hdeleted hin
    rcases List.mem_cons.mp hin with rfl | hin
    · exact hnew hcreated
    · exact hdeleted hin
  refine ⟨?_, ?_, ?_, ?_, ⟨h.removed.1, ?_⟩, ⟨?_, ?_⟩, ?_, h.registered, ?_, h.ready⟩
  · intro con hcon
    show con.id < s.created.length + 1
    rcases List.mem_cons.mp hcon with rfl | hcon
    · exact Nat.lt_succ_self _
    · exact Nat.lt_succ_of_lt (h.numbered con hcon)
  · intro f con hf
    obtain ⟨hfid, hcreated, hdeleted, hremoved⟩ := h.filed f con hf
    exact ⟨hfid, List.mem_cons_of_mem _ hcreated, hold hcreated hdeleted, hremoved⟩
  · intro con hcon
    rcases List.mem_cons.mp hcon with rfl | hcon
    · exact Or.inr (Or.inl List.mem_cons_self)
    · exact (h.fate con hcon).imp_right (Or.imp_left (List.mem_cons_of_mem _))
  · intro con hcon
    obtain ⟨hcreated, hdeleted, hnone⟩ := h.closed con hcon
    exact ⟨List.mem_cons_of_mem _ hcreated, hold hcreated hdeleted, hnone⟩
  · exact fun con hcon => List.mem_cons_of_mem _ (h.removed.2 con hcon)
  · exact List.nodup_cons.mpr ⟨fun hin => hnew (h.deleted.2 _ hin), h.deleted.1⟩
  · intro con hcon
    rcases List.mem_cons.mp hcon with rfl | hcon
    · exact List.mem_cons_self
    · exact List.mem_cons_of_mem _ (h.deleted.2 con hcon)
  · intro con hcon
    obtain ⟨hcreated, hdeleted⟩ := h.handed con hcon
    exact ⟨List.mem_cons_of_mem _ hcreated, hold hcreated hdeleted⟩
  · intro f hf
    obtain ⟨con, hcon, hfid⟩ := h.awaited f hf
    exact ⟨con, List.mem_cons_of_mem _ hcon, hfid⟩

/-- The map after a connection has been filed, whose fid was not there. -/
theorem find?_enter {s : ServiceWorld} (h : s.Inv) {id : Addr} (hid : s.Unused id) (f : Addr) :
    (s.enter (s.next id)).conMap.find? f =
      if id = f then some (s.next id) else s.conMap.find? f := by
  show (s.conMap.insertNew id (s.next id)).find? f = _
  rw [StdMap.insertNew_of_none _ (find?_of_unused h hid), StdMap.find?_assign]

theorem inv_enter {s : ServiceWorld} (h : s.Inv) {id : Addr} (hid : s.Unused id) :
    (s.enter (s.next id)).Inv := by
  have hnew := next_notMem h id
  have hkeep : ∀ {f con}, s.conMap.find? f = some con →
      (s.enter (s.next id)).conMap.find? f = some con := by
    intro f con hf
    rw [find?_enter h hid, if_neg, hf]
    rintro rfl
    rw [find?_of_unused h hid] at hf
    exact absurd hf (by simp)
  refine ⟨?_, ?_, ?_, ?_, ⟨h.removed.1, ?_⟩, ⟨h.deleted.1, ?_⟩, ?_, ?_, ?_, ?_⟩
  · intro con hcon
    show con.id < s.created.length + 1
    rcases List.mem_cons.mp hcon with rfl | hcon
    · exact Nat.lt_succ_self _
    · exact Nat.lt_succ_of_lt (h.numbered con hcon)
  · intro f con hf
    rw [find?_enter h hid] at hf
    split at hf
    · rename_i hfid
      cases hf
      exact ⟨hfid, List.mem_cons_self, fun hin => hnew (h.deleted.2 _ hin),
        fun hin => hnew (h.removed.2 _ hin)⟩
    · obtain ⟨hfid, hcreated, hrest⟩ := h.filed f con hf
      exact ⟨hfid, List.mem_cons_of_mem _ hcreated, hrest⟩
  · intro con hcon
    rcases List.mem_cons.mp hcon with rfl | hcon
    · exact Or.inl (by rw [find?_enter h hid]; exact if_pos rfl)
    · exact (h.fate con hcon).imp_left hkeep
  · intro con hcon
    obtain ⟨hcreated, hdeleted, hnone⟩ := h.closed con hcon
    refine ⟨List.mem_cons_of_mem _ hcreated, hdeleted, ?_⟩
    rw [find?_enter h hid, if_neg, hnone]
    -- a closed connection keeps its queue, so no other has its fid
    exact fun hfid => hdeleted (hid.2 con hcreated hfid.symm)
  · exact fun con hcon => List.mem_cons_of_mem _ (h.removed.2 con hcon)
  · exact fun con hcon => List.mem_cons_of_mem _ (h.deleted.2 con hcon)
  · exact fun con hcon => (h.handed con hcon).imp_left (List.mem_cons_of_mem _)
  · intro f hf
    refine (h.registered f hf).imp_right ?_
    rintro ⟨con, hcon⟩
    exact ⟨con, hkeep hcon⟩
  · intro f hf
    obtain ⟨con, hcon, hfid⟩ := h.awaited f hf
    exact ⟨con, List.mem_cons_of_mem _ hcon, hfid⟩
  · intro hover f hf
    obtain ⟨con, hcon⟩ := h.ready hover f hf
    exact ⟨con, hkeep hcon⟩

/-- The entries that are left when one is taken out. -/
theorem find?_remove_iff {s : ServiceWorld} {id f : Addr} {con con' : MsgConnection}
    (h : s.Inv) (hid : s.conMap.find? id = some con) :
    (s.conMap.remove id).find? f = some con' ↔ s.conMap.find? f = some con' ∧ con' ≠ con := by
  rw [StdMap.find?_remove]
  by_cases hf : id = f
  · subst hf
    rw [if_pos rfl, hid]
    exact ⟨fun hn => absurd hn (by simp), fun hc => absurd (Option.some.inj hc.1).symm hc.2⟩
  · rw [if_neg hf]
    refine ⟨fun hc => ⟨hc, ?_⟩, fun hc => hc.1⟩
    rintro rfl
    exact hf ((h.filed id _ hid).1.symm.trans (h.filed f _ hc).1)

/-- The state after `remove_handler` and a `reap` that finds its connection. -/
def takeOut (s : ServiceWorld) (id : Addr) (con : MsgConnection) : ServiceWorld :=
  { s with
    conMap := s.conMap.remove id
    eventMap := s.eventMap.erase id
    removed := con :: s.removed }

theorem reap_of_some {s : ServiceWorld} {id : Addr} {con : MsgConnection}
    (hid : s.conMap.find? id = some con) : (s.remove_handler id).reap id = s.takeOut id con := by
  unfold reap
  rw [show (s.remove_handler id).conMap.find? id = some con from hid]
  rfl

theorem close_eq {s : ServiceWorld} {id : Addr} {con : MsgConnection}
    (hid : s.conMap.find? id = some con) :
    s.close id = { s.takeOut id con with eqThread := .idle, closed := s.closed ∪ {con} } := by
  rw [close, reap_of_some hid, hid]
  rfl

theorem shutdown_eq {s : ServiceWorld} {con con' : MsgConnection}
    (hid : s.conMap.find? con.fid = some con') (hasserts : s.asserts = true) :
    s.shutdown con = { s.takeOut con.fid con' with
      deleted := con :: s.deleted
      handed := s.handed.erase con
      overtaken := s.overtaken || s.eqThread.awaits == some con.fid } := by
  rw [shutdown, reap_of_some hid]
  exact if_pos hasserts

/-- The handlers that are left when one has been removed with its connection. -/
theorem registered_erase {s : ServiceWorld} (h : s.Inv) (id : Addr) :
    ∀ f ∈ s.eventMap.erase id,
      s.peq = some f ∨ ∃ con, (s.conMap.remove id).find? f = some con := by
  intro f hf
  obtain ⟨hne, hold⟩ := Finset.mem_erase.mp hf
  rw [StdMap.find?_remove_of_ne _ hne.symm]
  exact h.registered f hold

/-- A closed connection is out of the map, and not deleted. -/
theorem inv_close {s : ServiceWorld} (h : s.Inv) {id : Addr} {con : MsgConnection}
    (hid : s.conMap.find? id = some con) : (s.close id).Inv := by
  rw [close_eq hid]
  obtain ⟨hfid, hcreated, hdeleted, hremoved⟩ := h.filed id con hid
  refine ⟨h.numbered, ?_, ?_, ?_, ⟨?_, ?_⟩, h.deleted, h.handed, registered_erase h id,
    fun _ hf => (nomatch hf), fun _ _ hf => (nomatch hf)⟩
  · intro f con' hf
    obtain ⟨hf, hne⟩ := (find?_remove_iff h hid).mp hf
    obtain ⟨hfid', hcreated', hdeleted', hremoved'⟩ := h.filed f con' hf
    exact ⟨hfid', hcreated', hdeleted', List.not_mem_cons_of_ne_of_not_mem hne hremoved'⟩
  · intro con' hcon'
    by_cases hne : con' = con
    · exact Or.inr (Or.inr (Finset.mem_union_right _ (Finset.mem_singleton.mpr hne)))
    · refine (h.fate con' hcon').imp (fun hf => (find?_remove_iff h hid).mpr ⟨hf, hne⟩) ?_
      exact Or.imp_right (Finset.mem_union_left _)
  · intro con' hcon'
    show _ ∧ _ ∧ (s.conMap.remove id).find? con'.fid = none
    rcases Finset.mem_union.mp hcon' with hold | hnew
    · obtain ⟨hcreated', hdeleted', hnone⟩ := h.closed con' hold
      refine ⟨hcreated', hdeleted', ?_⟩
      rw [StdMap.find?_remove, hnone, ite_self]
    · rw [Finset.mem_singleton.mp hnew, ← hfid]
      exact ⟨hcreated, hdeleted, StdMap.find?_remove_self _ _⟩
  · exact List.nodup_cons.mpr ⟨hremoved, h.removed.1⟩
  · intro con' hcon'
    rcases List.mem_cons.mp hcon' with rfl | hcon'
    · exact hcreated
    · exact h.removed.2 con' hcon'

/-- A connection that has been shut down is out of the map and deleted. -/
theorem inv_shutdown {s : ServiceWorld} (h : s.Inv) (hasserts : s.asserts = true)
    {con : MsgConnection} (hid : s.conMap.find? con.fid = some con) : (s.shutdown con).Inv := by
  rw [shutdown_eq hid hasserts]
  obtain ⟨-, hcreated, hdeleted, hremoved⟩ := h.filed _ con hid
  refine ⟨h.numbered, ?_, ?_, ?_, ⟨?_, ?_⟩, ⟨?_, ?_⟩, ?_, registered_erase h con.fid,
    h.awaited, ?_⟩
  · intro f con' hf
    obtain ⟨hf, hne⟩ := (find?_remove_iff h hid).mp hf
    obtain ⟨hfid', hcreated', hdeleted', hremoved'⟩ := h.filed f con' hf
    exact ⟨hfid', hcreated', List.not_mem_cons_of_ne_of_not_mem hne hdeleted',
      List.not_mem_cons_of_ne_of_not_mem hne hremoved'⟩
  · intro con' hcon'
    by_cases hne : con' = con
    · exact Or.inr (Or.inl (hne ▸ List.mem_cons_self))
    · refine (h.fate con' hcon').imp (fun hf => (find?_remove_iff h hid).mpr ⟨hf, hne⟩) ?_
      exact Or.imp_left (List.mem_cons_of_mem _)
  · intro con' hcon'
    obtain ⟨hcreated', hdeleted', hnone⟩ := h.closed con' hcon'
    have hne : con' ≠ con := by
      rintro rfl
      exact absurd (hid.symm.trans hnone) (by simp)
    refine ⟨hcreated', List.not_mem_cons_of_ne_of_not_mem hne hdeleted', ?_⟩
    show (s.conMap.remove con.fid).find? con'.fid = none
    rw [StdMap.find?_remove, hnone, ite_self]
  · exact List.nodup_cons.mpr ⟨hremoved, h.removed.1⟩
  · intro con' hcon'
    rcases List.mem_cons.mp hcon' with rfl | hcon'
    · exact hcreated
    · exact h.removed.2 con' hcon'
  · exact List.nodup_cons.mpr ⟨hdeleted, h.deleted.1⟩
  · intro con' hcon'
    rcases List.mem_cons.mp hcon' with rfl | hcon'
    · exact hcreated
    · exact h.deleted.2 con' hcon'
  · intro con' hcon'
    obtain ⟨hne, hold⟩ := Finset.mem_erase.mp hcon'
    obtain ⟨hcreated', hdeleted'⟩ := h.handed con' hold
    exact ⟨hcreated', List.not_mem_cons_of_ne_of_not_mem hne hdeleted'⟩
  · intro hover f hf
    obtain ⟨hover, hother⟩ := Bool.or_eq_false_iff.mp hover
    obtain ⟨con', hcon'⟩ := h.ready hover f hf
    refine ⟨con', ?_⟩
    show (s.conMap.remove con.fid).find? f = some con'
    rw [StdMap.find?_remove_of_ne, hcon']
    intro hfid
    have hawaits : s.eqThread.awaits = some f := hf
    rw [hawaits, hfid] at hother
    exact absurd hother (by simp)

/-- A connection that has been handed over and not closed is filed. -/
theorem find?_of_handed {s : ServiceWorld} (h : s.Inv) {con : MsgConnection}
    (hcon : con ∈ s.handed) (hclosed : con ∉ s.closed) :
    s.conMap.find? con.fid = some con := by
  obtain ⟨hcreated, hdeleted⟩ := h.handed con hcon
  rcases h.fate con hcreated with hfiled | hdel | hcl
  · exact hfiled
  · exact absurd hdel hdeleted
  · exact absurd hcl hclosed

/-! ## The destructor -/

theorem mem_values {s : ServiceWorld} {con : MsgConnection} :
    con ∈ s.conMap.entries.map Prod.snd ↔ ∃ f, s.conMap.find? f = some con := by
  constructor
  · intro h
    obtain ⟨⟨f, con'⟩, hmem, rfl⟩ := List.mem_map.mp h
    exact ⟨f, StdMap.mem_entries.mp hmem⟩
  · rintro ⟨f, hf⟩
    exact List.mem_map.mpr ⟨(f, con), StdMap.mem_entries.mpr hf, rfl⟩

/-- The destructor visits each connection once, since each is filed under its own fid. -/
theorem values_nodup {s : ServiceWorld} (h : s.Inv) :
    (s.conMap.entries.map Prod.snd).Nodup := by
  refine List.Nodup.of_map MsgConnection.fid ?_
  have hkeys : (s.conMap.entries.map Prod.snd).map MsgConnection.fid =
      s.conMap.entries.map Prod.fst := by
    rw [List.map_map]
    exact List.map_congr_left fun e he => (h.filed e.1 e.2 (StdMap.mem_entries.mp he)).1
  rw [hkeys]
  exact StdMap.entries_keys_nodup _

theorem values_disjoint {s : ServiceWorld} {l : List MsgConnection}
    (hl : ∀ f con, s.conMap.find? f = some con → con ∉ l) :
    (s.conMap.entries.map Prod.snd).Disjoint l := by
  intro con hvalue hin
  obtain ⟨f, hf⟩ := mem_values.mp hvalue
  exact hl f con hf hin

/-- The destructor deletes each connection that has not been deleted, if none has been
closed. -/
theorem accounted_destroy {s : ServiceWorld} (h : s.Inv) (hasserts : s.asserts = true)
    (hclosed : s.closed = ∅) : s.destroy.Accounted := by
  refine ⟨hasserts, fun con => ?_, fun _ con hcon => ?_⟩
  · refine List.nodup_iff_count_le_one.mp (List.Nodup.append (values_nodup h) h.removed.1 ?_) con
    exact values_disjoint fun f con hf => (h.filed f con hf).2.2.2
  · refine List.count_eq_one_of_mem (List.Nodup.append (values_nodup h) h.deleted.1 ?_) ?_
    · exact values_disjoint fun f con hf => (h.filed f con hf).2.2.1
    · refine List.mem_append.mpr ?_
      rcases h.fate con hcon with hfiled | hdeleted | hcl
      · exact Or.inl (mem_values.mpr ⟨_, hfiled⟩)
      · exact Or.inr hdeleted
      · rw [hclosed] at hcl
        exact absurd hcl (Finset.notMem_empty con)

/-- A closed connection is not deleted by the destructor. -/
theorem closed_of_accounted_destroy {s : ServiceWorld} (h : s.Inv)
    (hacc : s.destroy.Accounted) : s.closed = ∅ := by
  refine Finset.eq_empty_of_forall_notMem fun con hcon => ?_
  obtain ⟨hcreated, hdeleted, hnone⟩ := h.closed con hcon
  have hcount : s.destroy.deleted.count con = 1 := hacc.2.2 rfl con hcreated
  have hmem : con ∈ s.destroy.deleted := List.count_pos_iff.mp (by rw [hcount]; exact one_pos)
  rcases List.mem_append.mp hmem with hvalue | hdel
  · obtain ⟨f, hf⟩ := mem_values.mp hvalue
    rw [(h.filed f con hf).1] at hnone
    exact absurd (hf.symm.trans hnone) (by simp)
  · exact hdeleted hdel

/-! ## Steps -/

/-- The service runs and its connections are in order, or it has been destroyed and
they are accounted for. -/
def Sound (s : ServiceWorld) : Prop :=
  (s.asserts = true ∧ s.destroyed = false ∧ s.Inv) ∨ (s.destroyed = true ∧ s.Accounted)

theorem accounted_of_sound {s : ServiceWorld} (h : s.Sound) : s.Accounted := by
  rcases h with ⟨hasserts, hlive, hinv⟩ | ⟨-, hacc⟩
  · refine ⟨hasserts, fun con => List.nodup_iff_count_le_one.mp hinv.removed.1 con, ?_⟩
    intro hdestroyed
    exact absurd (hlive.symm.trans hdestroyed) (by simp)
  · exact hacc

theorem inv_of_running {s : ServiceWorld} (h : s.Sound) (hrun : s.Running) : s.Inv := by
  rcases h with ⟨-, -, hinv⟩ | ⟨hdestroyed, -⟩
  · exact hinv
  · exact absurd (hrun.2.1.symm.trans hdestroyed) (by simp)

/-- **A step that meets the guard keeps the connections in order.** -/
theorem sound_step {s t : ServiceWorld} {op : ServiceOp} (hs : s.Sound) (hg : s.Guarded op)
    (hstep : s.step op = some t) : t.Sound := by
  have hrun := running_of_step hstep
  have h := inv_of_running hs hrun
  have hasserts := hrun.1
  have hlive := hrun.2.1
  have hsound : ∀ u : ServiceWorld, u.asserts = s.asserts → u.destroyed = s.destroyed →
      u.Inv → u.Sound := fun u ha hd hu => Or.inl ⟨ha.trans hasserts, hd.trans hlive, hu⟩
  have hidle : ∀ {u : ServiceWorld}, u.Inv → ∀ e : EqHandling, e.awaits = none →
      Inv { u with eqThread := e } := fun hu e he =>
    inv_thread hu fun f hf => absurd (he.symm.trans hf) (by simp)
  have hentered : ∀ {id}, s.Unused id →
      ((s.enter (s.next id)).register_handler id).Inv := fun hid =>
    inv_register (inv_enter h hid) (by rw [find?_enter h hid]; exact if_pos rfl)
  cases op with
  | listen id =>
    obtain ⟨hpeq, -, rfl⟩ := step_listen hstep
    refine hsound _ rfl rfl ⟨h.numbered, h.filed, h.fate, h.closed, h.removed, h.deleted,
      h.handed, fun f hf => ?_, h.awaited, h.ready⟩
    rcases Finset.mem_insert.mp hf with rfl | hold
    · exact Or.inl rfl
    · have hreg := h.registered f hold
      rw [hpeq] at hreg
      exact Or.inr (hreg.resolve_left (by simp))
  | connect id init connect =>
    obtain ⟨hid, rfl⟩ := step_connect hstep
    split
    · exact hsound _ rfl rfl (hentered hid)
    · exact hsound _ rfl rfl (inv_discard h id)
  | read et id =>
    obtain ⟨-, hmem, haccept, rfl⟩ := step_read hstep
    refine hsound _ rfl rfl (inv_thread h fun f hf => ?_)
    -- the queue has a handler, and is not the listening one
    rcases h.registered id hmem with hpeq | hcon
    · rw [haccept.mpr hpeq] at hf
      exact absurd hf (by simp [EqHandling.awaits])
    · cases et with
      | accept_event => exact absurd hf (by simp [EqHandling.awaits])
      | connected_event | close_event => exact Option.some.inj hf ▸ hcon
  | accept id init accept =>
    obtain ⟨hid, -, ⟨-, rfl⟩ | ⟨-, rfl⟩ | rfl⟩ := step_accept hstep
    · exact hsound _ rfl rfl (hidle (inv_discard h id) _ rfl)
    · exact hsound _ rfl rfl (hidle (inv_enter h hid) _ rfl)
    · exact hsound _ rfl rfl (hidle (hentered hid) _ rfl)
  | connected =>
    obtain ⟨id, hthread, ⟨hnone, -⟩ | ⟨con, hcon, rfl⟩⟩ := step_connected hstep
    · obtain ⟨con, hcon⟩ := h.ready hg id (by rw [hthread]; rfl)
      exact absurd (hnone.symm.trans hcon) (by simp)
    · obtain ⟨-, hcreated, hdeleted, -⟩ := h.filed id con hcon
      have hhanded : Inv { s with handed := insert con s.handed } := by
        refine ⟨h.numbered, h.filed, h.fate, h.closed, h.removed, h.deleted,
          fun con' hcon' => ?_, h.registered, h.awaited, h.ready⟩
        rcases Finset.mem_insert.mp hcon' with rfl | hold
        · exact ⟨hcreated, hdeleted⟩
        · exact h.handed con' hold
      exact hsound _ rfl rfl (hidle hhanded _ rfl)
  | close =>
    obtain ⟨id, hthread, ⟨hnone, -⟩ | ⟨⟨con, hcon⟩, rfl⟩⟩ := step_close hstep
    · obtain ⟨con, hcon⟩ := h.ready hg id (by rw [hthread]; rfl)
      exact absurd (hnone.symm.trans hcon) (by simp)
    · exact hsound _ rfl rfl (inv_thread h fun f hf => ⟨con, Option.some.inj hf ▸ hcon⟩)
  | reap =>
    obtain ⟨id, hthread, rfl⟩ := step_reap hstep
    obtain ⟨con, hcon⟩ := h.ready hg id (by rw [hthread]; rfl)
    refine hsound _ ?_ ?_ (inv_close h hcon) <;> rw [close_eq hcon] <;> rfl
  | shutdown con =>
    obtain ⟨hhanded, rfl⟩ := step_shutdown hstep
    have hcon := find?_of_handed h hhanded hg
    refine hsound _ ?_ ?_ (inv_shutdown h hasserts hcon) <;>
      rw [shutdown_eq hcon hasserts] <;> rfl
  | destroy =>
    obtain ⟨-, rfl⟩ := step_destroy hstep
    exact Or.inr ⟨rfl, accounted_destroy h hasserts hg⟩

/-! ## The guard is exact -/

/-- A connection that has been overtaken is gone, and no other has its fid. -/
def Gone (s : ServiceWorld) : Prop :=
  s.overtaken = true → ∀ f, s.eqThread.awaits = some f → s.conMap.find? f = none

/-- The invariant of the runs that use no fid twice. -/
structure SoundGone (s : ServiceWorld) : Prop where
  sound : s.Sound
  gone : s.Gone

theorem gone_of_awaits_none {s : ServiceWorld} (h : s.eqThread.awaits = none) : s.Gone :=
  fun _ _ hf => absurd (h.symm.trans hf) (by simp)

theorem gone_of_not_overtaken {s : ServiceWorld} (h : s.overtaken = false) : s.Gone :=
  fun hover => absurd (h.symm.trans hover) (by simp)

/-- A new connection does not take the place of one that is gone. -/
theorem gone_enter {s : ServiceWorld} (h : s.Inv) (hgone : s.Gone) {id : Addr}
    (hid : s.Unused id) (hfresh : ∀ con ∈ s.created, con.fid ≠ id) :
    ((s.enter (s.next id)).register_handler id).Gone := by
  intro hover f hf
  show (s.enter (s.next id)).conMap.find? f = none
  obtain ⟨con, hcreated, hfid⟩ := h.awaited f hf
  rw [find?_enter h hid, if_neg fun hidf => hfresh con hcreated (hfid.trans hidf.symm)]
  exact hgone hover f hf

theorem gone_shutdown {s : ServiceWorld} (hgone : s.Gone) (hasserts : s.asserts = true)
    {con : MsgConnection} (hid : s.conMap.find? con.fid = some con) : (s.shutdown con).Gone := by
  rw [shutdown_eq hid hasserts]
  intro hover f hf
  show (s.conMap.remove con.fid).find? f = none
  rw [StdMap.find?_remove]
  split
  · rfl
  · rename_i hne
    refine hgone ((Bool.or_eq_true_iff.mp hover).resolve_right fun heq => hne ?_) f hf
    exact Option.some.inj ((eq_of_beq heq).symm.trans hf)

theorem gone_step {s t : ServiceWorld} {op : ServiceOp} (hs : s.SoundGone)
    (hfresh : s.Fresh op) (hg : s.Guarded op) (hstep : s.step op = some t) : t.Gone := by
  have hrun := running_of_step hstep
  have h := inv_of_running hs.sound hrun
  have hgone := hs.gone
  cases op with
  | listen id =>
    obtain ⟨-, -, rfl⟩ := step_listen hstep
    exact hgone
  | connect id init connect =>
    obtain ⟨hid, rfl⟩ := step_connect hstep
    split
    · exact gone_enter h hgone hid hfresh
    · exact hgone
  | read et id =>
    obtain ⟨-, -, -, rfl⟩ := step_read hstep
    exact fun hover => absurd hover (by simp)
  | accept id init accept =>
    obtain ⟨-, -, ⟨-, rfl⟩ | ⟨-, rfl⟩ | rfl⟩ := step_accept hstep <;>
      exact gone_of_awaits_none rfl
  | connected =>
    obtain ⟨id, -, ⟨-, rfl⟩ | ⟨con, -, rfl⟩⟩ := step_connected hstep <;>
      exact gone_of_not_overtaken hg
  | close =>
    obtain ⟨id, -, ⟨-, rfl⟩ | ⟨-, rfl⟩⟩ := step_close hstep <;> exact gone_of_not_overtaken hg
  | reap =>
    obtain ⟨id, hthread, rfl⟩ := step_reap hstep
    exact gone_of_awaits_none rfl
  | shutdown con =>
    obtain ⟨hhanded, rfl⟩ := step_shutdown hstep
    exact gone_shutdown hgone hrun.1 (find?_of_handed h hhanded hg)
  | destroy =>
    obtain ⟨hthread, rfl⟩ := step_destroy hstep
    exact gone_of_awaits_none (by rw [show s.destroy.eqThread = .idle from hthread]; rfl)

/-- `reap` fails its assertion when there is no such connection. -/
theorem asserts_reap_of_none {s : ServiceWorld} {id : Addr} (hid : s.conMap.find? id = none) :
    ((s.remove_handler id).reap id).asserts = false := by
  unfold reap
  rw [show (s.remove_handler id).conMap.find? id = none from hid]

/-- A step after which the connections are accounted for has met the guard. -/
theorem guarded_of_accounted {s t : ServiceWorld} {op : ServiceOp} (hs : s.SoundGone)
    (hstep : s.step op = some t) (ht : t.Accounted) : s.Guarded op := by
  have hrun := running_of_step hstep
  have h := inv_of_running hs.sound hrun
  have hgone := hs.gone
  cases op with
  | connected =>
    obtain ⟨id, hthread, ⟨-, rfl⟩ | ⟨con, hcon, rfl⟩⟩ := step_connected hstep
    · exact absurd ht.1 (by simp)
    · by_contra hover
      have hnone := hgone (by simpa [Guarded] using hover) id (by rw [hthread]; rfl)
      exact absurd (hnone.symm.trans hcon) (by simp)
  | close =>
    obtain ⟨id, hthread, ⟨-, rfl⟩ | ⟨⟨con, hcon⟩, rfl⟩⟩ := step_close hstep
    · exact absurd ht.1 (by simp)
    · by_contra hover
      have hnone := hgone (by simpa [Guarded] using hover) id (by rw [hthread]; rfl)
      exact absurd (hnone.symm.trans hcon) (by simp)
  | reap =>
    obtain ⟨id, hthread, rfl⟩ := step_reap hstep
    by_contra hover
    have hnone := hgone (by simpa [Guarded] using hover) id (by rw [hthread]; rfl)
    have hasserts : ((s.remove_handler id).reap id).asserts = true := ht.1
    rw [asserts_reap_of_none hnone] at hasserts
    exact absurd hasserts (by simp)
  | shutdown con =>
    obtain ⟨-, rfl⟩ := step_shutdown hstep
    intro hclosed
    have hfail := asserts_reap_of_none (h.closed con hclosed).2.2
    have hasserts := ht.1
    rw [shutdown, hfail, if_neg (by simp), hfail] at hasserts
    exact absurd hasserts (by simp)
  | destroy =>
    obtain ⟨-, rfl⟩ := step_destroy hstep
    exact closed_of_accounted_destroy h ht
  | listen | connect | read | accept => trivial

/-! ## Runs -/

/-- **When connections are accounted for.**  In every run that shuts down no
connection that its peer has closed, leaves none to the destructor, and handles no
event of one that has been shut down since the event was read, no assertion fails, no
connection is removed twice, and in the end each one has been deleted exactly once.
As long as no fid is used twice these are the only runs of which this is true. -/
theorem connections_accounted (ops : List ServiceOp) :
    (Meets step Guarded init ops → Always step Accounted init ops) ∧
      (Meets step Fresh init ops → Always step Accounted init ops →
        Meets step Guarded init ops) := by
  have hinit : init.Sound := Or.inl ⟨rfl, rfl, inv_init⟩
  constructor
  · intro hg
    exact (always_of_meets (fun s op t hs hg hstep => sound_step hs hg hstep) hinit hg).mono
      fun s hs => accounted_of_sound hs
  · exact meets_of_always
      (fun s op t hs hfresh hg hstep =>
        SoundGone.mk (sound_step hs.sound hg hstep) (gone_step hs hfresh hg hstep))
      (fun s op t hs _ hstep ht => guarded_of_accounted hs hstep ht)
      ⟨hinit, gone_of_awaits_none rfl⟩

/-- A connection to a peer is established. -/
def establishRun : List ServiceOp := [.connect 1 true true, .read .connected_event 1, .connected]

/-- The application shuts it down. -/
theorem connections_accounted_shutdown :
    Always step Accounted init (establishRun ++ [.shutdown ⟨0, 1⟩, .destroy]) :=
  (connections_accounted _).1 (by decide +kernel)

/-- The peer closes it. -/
def closedRun : List ServiceOp := establishRun ++ [.read .close_event 1, .close, .reap]

/-- A connection that its peer has closed is not deleted with the stack, and shutting
it down fails the assertion of `reap`. -/
theorem connections_unaccounted :
    ¬ Always step Accounted init (closedRun ++ [.destroy]) ∧
      ¬ Always step Accounted init (closedRun ++ [.shutdown ⟨0, 1⟩]) := by
  constructor
  · intro h
    have hrun : (run step init (closedRun ++ [.destroy])).map
        (fun t => (t.destroyed, t.created, t.deleted)) = some (true, [⟨0, 1⟩], []) := by
      decide +kernel
    obtain ⟨t, ht, hfields⟩ := Option.map_eq_some_iff.mp hrun
    simp only [Prod.mk.injEq] at hfields
    obtain ⟨hdestroyed, hcreated, hdeleted⟩ := hfields
    have hcount := (h.last ht).2.2 hdestroyed ⟨0, 1⟩ (by rw [hcreated]; exact List.mem_cons_self)
    rw [hdeleted] at hcount
    exact absurd hcount (by simp)
  · intro h
    have hrun : (run step init (closedRun ++ [.shutdown ⟨0, 1⟩])).map (fun t => t.asserts) =
        some false := by
      decide +kernel
    obtain ⟨t, ht, hasserts⟩ := Option.map_eq_some_iff.mp hrun
    exact absurd ((h.last ht).1.symm.trans hasserts) (by simp)

end ServiceWorld

end Hpnl
