import Hpnl.Demultiplexer.ExternalEqDemultiplexer
import Hpnl.Demultiplexer.Proactor

/-!
# One call of `wait_event`

`EqDemultiplexer::wait_event` and `ExternalEqDemultiplexer::wait_event` choose the
queue to read only when `fi_trywait` allows waiting and `epoll_wait` reports a fid.
When `fi_trywait` declines, because events are there already, the first reads the
null queue it began with, and the second whatever `*eq` holds, which
`wait_eq_event1` leaves uninitialized.

* `EventMap`, `FidMap` — maps in which every entry is under its own fid.
* `EqDemultiplexer.wait_event`, `ExternalEqDemultiplexer.wait_event` — the calls that
  each makes and what it returns.
* `ReadsPending` — registered queues only are read, and one with events when
  `fi_trywait` declines because of them.
* `wait_event_iff` — **when a call of either does so.**
* `wait_event_skips` — neither does with a single queue that has a connection request
  pending.
-/

namespace Hpnl

/-! ## What a call is given -/

def FI_SUCCESS : ℤ := 0

def FI_EAGAIN : ℤ := 11

def ACCEPT_EVENT : ℤ := 1

def CONNECTED_EVENT : ℤ := 2

def CLOSE_EVENT : ℤ := 64

def SHUTDOWN : ℤ := 1024

/-- What `fi_eq_read` takes from a queue; an error is fetched by `fi_eq_readerr`. -/
inductive EqEvent where
  | connreq (info : Addr)
  | connected
  | shutdown
  | other
  | error (overrun : Bool)
  deriving DecidableEq, Repr

/-- The result of `epoll_wait`. -/
inductive EpollWait where
  | ready (id : Fid)
  | failed (eintr : Bool)
  | timeout
  deriving DecidableEq, Repr

/-- The answers of libfabric and of the system: the result of `fi_trywait`, that of
`epoll_wait`, and the events each queue has that have not been read. -/
structure EqAnswers where
  trywait : ℤ
  epoll : EpollWait
  unread : FidEq → List EqEvent

/-- A call that `wait_event` makes. -/
inductive EqCall where
  | fi_eq_read (eq : FidEq)
  /-- `event_map[id]->handle_event(type, &entry)`. -/
  | handle_event (id : Fid) (type : ℤ)
  /-- `init_addr` of the connection under the fid. -/
  | init_addr (id : Fid)
  | delete_event (eq : FidEq)
  /-- The connection under the fid goes `DOWN` and is reaped. -/
  | reap (id : Fid)
  deriving DecidableEq, Repr

/-- What a call has come to before it reads: a `return`, the queue `eq` or null, or
the dereference of a null handler. -/
inductive EqChoice where
  | returned (ret : ℤ)
  | chosen (eq : Option FidEq)
  | crashed
  deriving DecidableEq, Repr

/-- `event_map`: each handler is under the fid of its own queue. -/
structure EventMap where
  handlers : StdMap Fid EventHandler
  keyed : ∀ f eh, handlers.find? f = some eh → eh.handle = f

/-- `fid_map`: each entry has a queue, and is under its fid. -/
structure FidMap where
  entries : StdMap Fid (Option FidEq)
  faithful : ∀ f eq, entries.find? f = some eq → ∃ q, eq = some q ∧ q.fid = f

/-- The queue of a handler in the map. -/
def EventMap.Registered (m : EventMap) (eq : FidEq) : Prop := m.handlers.has eq.fid = true

/-- A queue in the map. -/
def FidMap.Registered (m : FidMap) (eq : FidEq) : Prop :=
  m.entries.find? eq.fid = some (some eq)

/-- The map of an external demultiplexer, as long as it is right. -/
def ExternalEqWorld.fidMap (s : ExternalEqWorld) (h : s.Faithful) : FidMap := ⟨s.fid_map, h⟩

/-- The map of a proactor in a reachable state. -/
def ProactorWorld.handlers (s : ProactorWorld) (h : s.Inv) : EventMap := ⟨s.eventMap, h.keyed⟩

namespace EqAnswers

/-- From `fi_trywait` to `if (!eq)`: `lookup` is what the reported fid gives, and `eq`
the queue beforehand. -/
def choose (a : EqAnswers) (eq : Option FidEq) (lookup : Fid → EqChoice) : EqChoice :=
  if a.trywait = FI_SUCCESS then
    match a.epoll with
    | .ready id => lookup id
    | .failed eintr => .returned (if eintr then 0 else -1)
    | .timeout => .returned 0
  else .chosen eq

/-- `fi_trywait` declines, and a registered queue has an event. -/
def Declined (a : EqAnswers) (Registered : FidEq → Prop) : Prop :=
  a.trywait = -FI_EAGAIN ∧ ∃ eq, Registered eq ∧ a.unread eq ≠ []

end EqAnswers

/-! ## The two functions -/

namespace EqDemultiplexer

/-- `event_map[(fid*)event.data.ptr]->get_handle()`. -/
def get_handle (m : EventMap) (id : Fid) : EqChoice :=
  match m.handlers.find? id with
  | some eh => .chosen (some ⟨eh.handle⟩)
  | none => .crashed

/-- What follows `fi_eq_read`. -/
def dispatch (eq : FidEq) : List EqEvent → List EqCall
  | .connreq _ :: _ => [.handle_event eq.fid ACCEPT_EVENT]
  | .connected :: _ => [.handle_event eq.fid CONNECTED_EVENT]
  | .shutdown :: _ => [.handle_event eq.fid CLOSE_EVENT]
  | _ => []

/-- `EqDemultiplexer::wait_event`: the calls it makes and what it returns; nothing
when it dereferences a null handler. -/
def wait_event (m : EventMap) (a : EqAnswers) : Option (List EqCall × ℤ) :=
  if m.handlers.entries = [] then some ([], 0)
  else
    match a.choose none (get_handle m) with
    | .crashed => none
    | .returned ret => some ([], ret)
    | .chosen none => some ([], 0)
    | .chosen (some eq) => some (.fi_eq_read eq :: dispatch eq (a.unread eq), 0)

end EqDemultiplexer

/-- What a call of `ExternalEqDemultiplexer::wait_event` does: the calls it makes,
what it returns, and what it leaves in `*info`, `*eq` and `*con`, the last as the fid
of the connection. -/
structure ExternalEqResult where
  calls : List EqCall
  ret : ℤ
  info : Addr
  eq : Option FidEq
  con : Option Fid
  deriving DecidableEq, Repr

namespace ExternalEqDemultiplexer

/-- A return without a read; `*info` and `*con` are null from `wait_eq_event1`. -/
def noEvent (ret : ℤ) (eq : Option FidEq) : ExternalEqResult := ⟨[], ret, nullptr, eq, none⟩

/-- From `fi_eq_read` on; `connections` are the fids that the stack has connections
under. -/
def read (connections : Finset Fid) (eq : FidEq) (events : List EqEvent) : ExternalEqResult :=
  let con := if eq.fid ∈ connections then some eq.fid else none
  let none_read : ExternalEqResult := ⟨[.fi_eq_read eq], 0, nullptr, some eq, none⟩
  match events with
  | [] => none_read
  | .error overrun :: _ => { none_read with ret := if overrun then -1 else 0 }
  | .connreq info :: _ => { none_read with ret := ACCEPT_EVENT, info }
  | .connected :: _ =>
      match con with
      | none => { none_read with ret := -1 }
      | some id =>
          { none_read with calls := [.fi_eq_read eq, .init_addr id], ret := CONNECTED_EVENT, con }
  | .shutdown :: _ =>
      { none_read with
        calls := [.fi_eq_read eq, .delete_event eq] ++ con.toList.map .reap
        ret := SHUTDOWN
        con }
  | .other :: _ => none_read

/-- `ExternalEqDemultiplexer::wait_event`, with the value of `*eq` beforehand. -/
def wait_event (m : FidMap) (connections : Finset Fid) (a : EqAnswers) (eq : Option FidEq) :
    ExternalEqResult :=
  if m.entries.entries = [] then noEvent 0 eq
  else
    -- `operator[]` enters a null queue for a fid that is not there
    match a.choose eq fun id => .chosen (m.entries.value id none) with
    | .crashed | .chosen none => noEvent 0 none
    | .returned ret => noEvent ret eq
    | .chosen (some eq) => read connections eq (a.unread eq)

end ExternalEqDemultiplexer

/-! ## What is to hold -/

/-- The calls read registered queues only, and one that has events where `fi_trywait`
declines because of them. -/
def ReadsPending (a : EqAnswers) (Registered : FidEq → Prop) (calls : List EqCall) : Prop :=
  (∀ eq, .fi_eq_read eq ∈ calls → Registered eq) ∧
    (a.Declined Registered → ∃ eq, .fi_eq_read eq ∈ calls ∧ Registered eq ∧ a.unread eq ≠ [])

/-- A call without reads is right unless `fi_trywait` has declined. -/
theorem readsPending_nil {a : EqAnswers} {R : FidEq → Prop} :
    ReadsPending a R [] ↔ ¬ a.Declined R := by
  constructor
  · rintro ⟨-, h⟩ hdeclined
    obtain ⟨eq, hin, -⟩ := h hdeclined
    exact absurd hin (by simp)
  · intro h
    exact ⟨fun eq hin => absurd hin (by simp), fun hdeclined => absurd hdeclined h⟩

/-- A call that reads one queue is right when it is registered, and has an event if
`fi_trywait` has declined. -/
theorem readsPending_of_read {a : EqAnswers} {R : FidEq → Prop} {q : FidEq} {calls : List EqCall}
    (h : ∀ eq, .fi_eq_read eq ∈ calls ↔ eq = q) :
    ReadsPending a R calls ↔ R q ∧ (a.Declined R → a.unread q ≠ []) := by
  constructor
  · rintro ⟨hreg, hpending⟩
    refine ⟨hreg q ((h q).mpr rfl), fun hdeclined => ?_⟩
    obtain ⟨eq, hin, -, hunread⟩ := hpending hdeclined
    rwa [← (h eq).mp hin]
  · rintro ⟨hreg, hpending⟩
    refine ⟨fun eq hin => (h eq).mp hin ▸ hreg, fun hdeclined => ?_⟩
    exact ⟨q, (h q).mpr rfl, hreg, hpending hdeclined⟩

/-- When `fi_trywait` succeeds it has not declined. -/
theorem EqAnswers.not_declined {a : EqAnswers} {R : FidEq → Prop} (h : a.trywait = FI_SUCCESS) :
    ¬ a.Declined R := by
  rintro ⟨hagain, -⟩
  exact absurd (h.symm.trans hagain) (by decide)

/-! ## `EqDemultiplexer` -/

namespace EqDemultiplexer

/-- A call returns, and reads what is pending. -/
def Right (m : EventMap) (a : EqAnswers) : Prop :=
  ∃ calls ret, wait_event m a = some (calls, ret) ∧ ReadsPending a m.Registered calls

/-- `fi_trywait` has not declined because of a registered queue, and `epoll_wait` does
not report a fid that is not registered. -/
def Waits (m : EventMap) (a : EqAnswers) : Prop :=
  ¬ a.Declined m.Registered ∧
    (m.handlers.entries ≠ [] → a.trywait = FI_SUCCESS →
      ∀ id, a.epoll = .ready id → m.handlers.has id = true)

theorem mem_dispatch (eq q : FidEq) (events : List EqEvent) :
    .fi_eq_read q ∉ dispatch eq events := by
  unfold dispatch
  split <;> simp

/-- Without handlers no queue is registered. -/
theorem not_registered {m : EventMap} (h : m.handlers.entries = []) (eq : FidEq) :
    ¬ m.Registered eq := by
  intro hreg
  obtain ⟨eh, hfind⟩ := StdMap.has_eq_true_iff.mp hreg
  exact absurd (StdMap.mem_entries.mpr hfind) (by simp [h])

/-- A fid that has a handler leads to its own queue. -/
theorem get_handle_of_find {m : EventMap} {id : Fid} {eh : EventHandler}
    (h : m.handlers.find? id = some eh) : get_handle m id = .chosen (some ⟨id⟩) := by
  simp [get_handle, h, m.keyed id eh h]

/-- So it does in the proactor. -/
theorem get_handle_handlers {s : ProactorWorld} (h : s.Inv) {id : Fid} {eh : EventHandler}
    (hfind : s.eventMap.find? id = some eh) :
    get_handle (s.handlers h) id = .chosen (some ⟨id⟩) :=
  get_handle_of_find hfind

/-- A reported fid that has a handler has that handler's queue read. -/
theorem wait_event_of_ready {m : EventMap} {a : EqAnswers} {id : Fid}
    (hmap : m.handlers.entries ≠ []) (htry : a.trywait = FI_SUCCESS)
    (hepoll : a.epoll = .ready id) (hhas : m.handlers.has id = true) :
    wait_event m a = some (.fi_eq_read ⟨id⟩ :: dispatch ⟨id⟩ (a.unread ⟨id⟩), 0) := by
  obtain ⟨eh, hfind⟩ := StdMap.has_eq_true_iff.mp hhas
  simp [wait_event, hmap, EqAnswers.choose, htry, hepoll, get_handle_of_find hfind]

/-- A call that returns without a read. -/
theorem right_of_nil {m : EventMap} {a : EqAnswers} {ret : ℤ}
    (h : wait_event m a = some ([], ret)) : Right m a ↔ ¬ a.Declined m.Registered := by
  constructor
  · rintro ⟨calls, ret', hret, hreads⟩
    cases h.symm.trans hret
    exact readsPending_nil.mp hreads
  · exact fun hnot => ⟨[], ret, h, readsPending_nil.mpr hnot⟩

theorem right_iff (m : EventMap) (a : EqAnswers) : Right m a ↔ Waits m a := by
  by_cases hmap : m.handlers.entries = []
  · have hwait : wait_event m a = some ([], 0) := by simp [wait_event, hmap]
    rw [right_of_nil hwait, Waits]
    exact ⟨fun h => ⟨h, fun hne => absurd hmap hne⟩, fun h => h.1⟩
  by_cases htry : a.trywait = FI_SUCCESS
  · have hnot : ¬ a.Declined m.Registered := EqAnswers.not_declined htry
    cases hepoll : a.epoll with
    | ready id =>
      by_cases hhas : m.handlers.has id = true
      · refine ⟨fun _ => ⟨hnot, fun _ _ j hj => ?_⟩, fun _ => ?_⟩
        · cases hepoll.symm.trans hj
          exact hhas
        · refine ⟨_, _, wait_event_of_ready hmap htry hepoll hhas, ?_⟩
          refine (readsPending_of_read (q := ⟨id⟩) fun eq => ?_).mpr
            ⟨hhas, fun hdeclined => absurd hdeclined hnot⟩
          simp [mem_dispatch]
      · -- a null handler is dereferenced
        have hfind := StdMap.has_eq_false_iff.mp (by simpa using hhas)
        refine ⟨?_, fun h => absurd (h.2 hmap htry id hepoll) hhas⟩
        rintro ⟨calls, ret, hwait, -⟩
        simp [wait_event, hmap, EqAnswers.choose, htry, hepoll, get_handle, hfind] at hwait
    | failed eintr =>
      have hwait : wait_event m a = some ([], if eintr then 0 else -1) := by
        simp [wait_event, hmap, EqAnswers.choose, htry, hepoll]
      rw [right_of_nil hwait, Waits]
      exact ⟨fun h => ⟨h, fun _ _ j hj => absurd (hepoll.symm.trans hj) (by simp)⟩, fun h => h.1⟩
    | timeout =>
      have hwait : wait_event m a = some ([], 0) := by
        simp [wait_event, hmap, EqAnswers.choose, htry, hepoll]
      rw [right_of_nil hwait, Waits]
      exact ⟨fun h => ⟨h, fun _ _ j hj => absurd (hepoll.symm.trans hj) (by simp)⟩, fun h => h.1⟩
  · -- the queue is null still, and the call returns
    have hwait : wait_event m a = some ([], 0) := by
      simp [wait_event, hmap, EqAnswers.choose, htry]
    rw [right_of_nil hwait, Waits]
    exact ⟨fun h => ⟨h, fun _ hok => absurd hok htry⟩, fun h => h.1⟩

end EqDemultiplexer

/-! ## `ExternalEqDemultiplexer` -/

namespace ExternalEqDemultiplexer

/-- A call reads what is pending. -/
def Right (m : FidMap) (connections : Finset Fid) (a : EqAnswers) (eq : Option FidEq) : Prop :=
  ReadsPending a m.Registered (wait_event m connections a eq).calls

/-- When `fi_trywait` does not succeed, `*eq` is the queue that is to be read. -/
def Waits (m : FidMap) (a : EqAnswers) (eq : Option FidEq) : Prop :=
  m.entries.entries ≠ [] → a.trywait ≠ FI_SUCCESS →
    match eq with
    | none => ¬ a.Declined m.Registered
    | some q => m.Registered q ∧ (a.Declined m.Registered → a.unread q ≠ [])

theorem mem_calls_read (connections : Finset Fid) (eq q : FidEq) (events : List EqEvent) :
    .fi_eq_read q ∈ (read connections eq events).calls ↔ q = eq := by
  unfold read
  dsimp only
  split <;> try split
  all_goals simp

/-- Without entries no queue is registered. -/
theorem not_registered {m : FidMap} (h : m.entries.entries = []) (eq : FidEq) :
    ¬ m.Registered eq := by
  intro hreg
  exact absurd (StdMap.mem_entries.mpr hreg) (by simp [h])

/-- What the map has for a fid is null or a registered queue. -/
theorem registered_value {m : FidMap} {id : Fid} {q : FidEq}
    (h : m.entries.value id none = some q) : m.Registered q := by
  cases hfind : m.entries.find? id with
  | none =>
    rw [StdMap.value, hfind] at h
    exact absurd h (by simp)
  | some eq =>
    rw [StdMap.value_of_some _ hfind] at h
    obtain ⟨q', hq, hfid⟩ := m.faithful id eq hfind
    cases h.symm.trans hq
    rw [FidMap.Registered, hfid, hfind, h]

/-- What a lookup between other calls gives is registered, as long as the map is right. -/
theorem registered_fidMap {s : ExternalEqWorld} (h : s.Faithful) {q : FidEq}
    (hvalue : s.fid_map.value s.epoll.event none = some q) : (s.fidMap h).Registered q :=
  registered_value hvalue

/-- A call that returns without a read. -/
theorem right_of_nil {m : FidMap} {connections : Finset Fid} {a : EqAnswers} {eq : Option FidEq}
    (h : (wait_event m connections a eq).calls = []) :
    Right m connections a eq ↔ ¬ a.Declined m.Registered := by
  rw [Right, h]
  exact readsPending_nil

/-- A call that reads `q`. -/
theorem right_of_read {m : FidMap} {connections : Finset Fid} {a : EqAnswers}
    {eq : Option FidEq} {q : FidEq}
    (h : wait_event m connections a eq = read connections q (a.unread q)) :
    Right m connections a eq ↔
      m.Registered q ∧ (a.Declined m.Registered → a.unread q ≠ []) := by
  rw [Right, h]
  exact readsPending_of_read fun p => mem_calls_read connections q p _

theorem right_iff (m : FidMap) (connections : Finset Fid) (a : EqAnswers) (eq : Option FidEq) :
    Right m connections a eq ↔ Waits m a eq := by
  by_cases hmap : m.entries.entries = []
  · have hnot : ¬ a.Declined m.Registered := by
      rintro ⟨-, q, hreg, -⟩
      exact not_registered hmap q hreg
    have hcalls : (wait_event m connections a eq).calls = [] := by simp [wait_event, hmap, noEvent]
    exact ⟨fun _ h => absurd hmap h, fun _ => (right_of_nil hcalls).mpr hnot⟩
  by_cases htry : a.trywait = FI_SUCCESS
  · have hnot : ¬ a.Declined m.Registered := EqAnswers.not_declined htry
    refine ⟨fun _ _ h => absurd htry h, fun _ => ?_⟩
    cases hepoll : a.epoll with
    | ready id =>
      cases hvalue : m.entries.value id none with
      | none =>
        apply (right_of_nil _).mpr hnot
        simp [wait_event, hmap, EqAnswers.choose, htry, hepoll, hvalue, noEvent]
      | some q =>
        have hwait : wait_event m connections a eq = read connections q (a.unread q) := by
          simp [wait_event, hmap, EqAnswers.choose, htry, hepoll, hvalue]
        exact (right_of_read hwait).mpr
          ⟨registered_value hvalue, fun hdeclined => absurd hdeclined hnot⟩
    | failed eintr =>
      apply (right_of_nil _).mpr hnot
      simp [wait_event, hmap, EqAnswers.choose, htry, hepoll, noEvent]
    | timeout =>
      apply (right_of_nil _).mpr hnot
      simp [wait_event, hmap, EqAnswers.choose, htry, hepoll, noEvent]
  · cases eq with
    | none =>
      have hcalls : (wait_event m connections a none).calls = [] := by
        simp [wait_event, hmap, EqAnswers.choose, htry, noEvent]
      rw [right_of_nil hcalls]
      exact ⟨fun h _ _ => h, fun h => h hmap htry⟩
    | some q =>
      -- whatever the variable holds is read
      have hwait : wait_event m connections a (some q) = read connections q (a.unread q) := by
        simp [wait_event, hmap, EqAnswers.choose, htry]
      rw [right_of_read hwait]
      exact ⟨fun h _ _ => h, fun h => h hmap htry⟩

end ExternalEqDemultiplexer

/-! ## The two together -/

/-- **When the right queue is read.**  `EqDemultiplexer` reads registered queues only,
and what is pending, exactly when `fi_trywait` has not declined because of a
registered queue, and no fid without a handler is reported; `ExternalEqDemultiplexer`
exactly when `fi_trywait` succeeds, or `*eq` happens to be the queue to read. -/
theorem wait_event_iff (event_map : EventMap) (fid_map : FidMap) (connections : Finset Fid)
    (a : EqAnswers) (eq : Option FidEq) :
    (EqDemultiplexer.Right event_map a ↔ EqDemultiplexer.Waits event_map a) ∧
      (ExternalEqDemultiplexer.Right fid_map connections a eq ↔
        ExternalEqDemultiplexer.Waits fid_map a eq) :=
  ⟨EqDemultiplexer.right_iff event_map a,
    ExternalEqDemultiplexer.right_iff fid_map connections a eq⟩

namespace EqAnswers

/-- `fi_trywait` declines, for queue 1 has a connection request. -/
def busy : EqAnswers :=
  { trywait := -FI_EAGAIN
    epoll := .timeout
    unread := fun eq => if eq = ⟨1⟩ then [.connreq 7] else [] }

end EqAnswers

/-- The handler of queue 1. -/
def EventMap.single : EventMap :=
  { handlers := (∅ : StdMap Fid EventHandler).assign 1 ⟨100, 1⟩
    keyed := fun f eh h => by
      rw [StdMap.find?_assign] at h
      split at h
      · cases h
        assumption
      · exact absurd h (by simp) }

/-- Queue 1. -/
def FidMap.single : FidMap :=
  { entries := (∅ : StdMap Fid (Option FidEq)).assign 1 (some ⟨1⟩)
    faithful := fun f eq h => by
      rw [StdMap.find?_assign] at h
      split at h
      · cases h
        exact ⟨⟨1⟩, rfl, by assumption⟩
      · exact absurd h (by simp) }

/-- The request stays unread, and an uninitialized `eq` is read instead. -/
theorem wait_event_skips :
    ¬ EqDemultiplexer.Right .single .busy ∧
      ¬ ExternalEqDemultiplexer.Right .single ∅ .busy none ∧
      ¬ ExternalEqDemultiplexer.Right .single ∅ .busy (some ⟨9⟩) := by
  have hone : FidMap.single.Registered ⟨1⟩ := StdMap.find?_assign_self _ _ _
  have hmap : FidMap.single.entries.entries ≠ [] :=
    List.ne_nil_of_mem (StdMap.mem_entries.mpr hone)
  refine ⟨fun h => ?_, fun h => ?_, fun h => ?_⟩
  · refine ((EqDemultiplexer.right_iff _ _).mp h).1 ⟨rfl, ⟨1⟩, ?_, by decide⟩
    exact StdMap.has_eq_true_iff.mpr ⟨_, StdMap.find?_assign_self _ _ _⟩
  · apply (ExternalEqDemultiplexer.right_iff _ _ _ _).mp h hmap (by decide)
    exact ⟨rfl, ⟨1⟩, hone, by decide⟩
  · have hnine := ((ExternalEqDemultiplexer.right_iff _ _ _ _).mp h hmap (by decide)).1
    have hnone : FidMap.single.entries.find? 9 = none :=
      (StdMap.find?_assign_of_ne _ _ (by decide)).trans (StdMap.find?_empty 9)
    exact absurd (hnone.symm.trans hnine) (by simp)

end Hpnl
