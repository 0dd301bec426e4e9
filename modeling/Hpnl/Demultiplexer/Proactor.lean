import Hpnl.Demultiplexer.Epoll
import Hpnl.Lib.Transition

/-!
# The event loop of the proactor

`Proactor::eq_service` copies `eventMap` under the mutex and hands the copy to
`EqDemultiplexer::wait_event`, which waits on the live epoll set and looks the
handler of the reported fid up in the copy.  Other threads register and remove
handlers meanwhile; they hold the mutex, the waiting thread does not.

* `ProactorWorld.step` — the steps of the EQ thread (copy, wait, look up, read and
  dispatch) and of `register_handler` and `remove_handler`, each in two: the map
  and the epoll set.
* `Inv` — the copy and the live map differ only in the fids that have been entered
  or erased since the copy.
* `quiet_timely` — no call falls between a copy and the end of the round, and
  `fi_control` does not fail for a fid that is removed: enough for `Timely`.
* `dispatch_registered` — **every event finds its handler if** the fid that is
  looked up was in the map when it was copied and the handler that is dispatched
  to has not been removed since, as in quiet rounds; and only if, when handlers
  are not registered twice.
-/

namespace Hpnl

open Transition

/-- A `std::shared_ptr<EventHandler>`: the object and the fid of its event queue,
`&get_handle()->fid`. -/
structure EventHandler where
  self : Addr
  handle : Fid
  deriving DecidableEq, Repr

/-- Where the EQ thread is in `eq_service` and `wait_event`, with the copy of the
map it was given. -/
inductive EqService where
  | idle
  /-- The map has been copied; the thread is about to wait or waiting. -/
  | copied (event_map : StdMap Fid EventHandler)
  /-- `epoll_wait` has reported an event. -/
  | reported (event_map : StdMap Fid EventHandler)
  /-- The handler has been found and its event queue is read. -/
  | found (event_map : StdMap Fid EventHandler) (eh : EventHandler)
  /-- `handle_event` runs. -/
  | handling
  /-- A null handler has been dereferenced. -/
  | crashed

/-- The copy of the map that the thread works with. -/
def EqService.snapshot : EqService → Option (StdMap Fid EventHandler)
  | copied m => some m
  | reported m => some m
  | found m _ => some m
  | _ => none

/-- A call that holds the mutex and has yet to update the epoll set. -/
inductive ProactorCall where
  | register_event (id : Fid)
  | remove_event (id : Fid)
  deriving DecidableEq, Repr

/-- A proactor and its EQ thread.  Three ghosts: `atCopy` are the fids that were in
`eventMap` when it was last copied, `changed` those entered into it or erased from
it since, and `seen` the handlers that have been given to `register_handler`. -/
structure ProactorWorld where
  eventMap : StdMap Fid EventHandler
  epoll : Epoll
  pending : Option ProactorCall
  eqThread : EqService
  atCopy : Fid → Bool
  changed : Finset Fid
  seen : Finset EventHandler

/-- A step of some thread. -/
inductive ProactorOp where
  /-- `register_handler` takes the mutex and enters the handler. -/
  | register_handler (eh : EventHandler)
  /-- `register_event`, after which the mutex is released. -/
  | register_event (control add : Bool)
  /-- `remove_handler` takes the mutex and erases the handler, if there is one. -/
  | remove_handler (id : Fid)
  /-- `remove_event`, after which the mutex is released. -/
  | remove_event (control del : Bool)
  /-- `eq_service` copies the map. -/
  | copy
  /-- `wait_event` returns without an event: the map is empty, `fi_trywait` has
  failed, `epoll_wait` has timed out or failed. -/
  | nothing
  /-- `epoll_wait` reports a fid of the set. -/
  | wait (id : Fid)
  /-- `event_map[event.data.ptr]->get_handle()`. -/
  | lookup
  /-- `fi_eq_read` reads no event. -/
  | unread
  /-- `fi_eq_read` reads one, and its handler is called. -/
  | dispatch
  /-- `handle_event` returns. -/
  | handled
  deriving DecidableEq, Repr

namespace ProactorWorld

/-- A proactor without handlers. -/
def init : ProactorWorld :=
  { eventMap := ∅
    epoll := {}
    pending := none
    eqThread := .idle
    atCopy := fun _ => false
    changed := ∅
    seen := ∅ }

/-- The map and the ghosts after `register_handler` has entered a handler. -/
def enter (s : ProactorWorld) (eh : EventHandler) : ProactorWorld :=
  if s.eventMap.has eh.handle then s
  else
    { s with
      eventMap := s.eventMap.insertNew eh.handle eh
      changed := insert eh.handle s.changed }

/-- The state after `remove_handler` has erased a handler. -/
def erase (s : ProactorWorld) (id : Fid) : ProactorWorld :=
  { s with
    eventMap := s.eventMap.remove id
    changed := insert id s.changed
    pending := some (.remove_event id) }

/-- The state after `eq_service` has copied the map. -/
def copy (s : ProactorWorld) : ProactorWorld :=
  { s with eqThread := .copied s.eventMap, atCopy := s.eventMap.has, changed := ∅ }

/-- One step; a null handler is dereferenced where `operator[]` makes one up. -/
def step (s : ProactorWorld) : ProactorOp → Option ProactorWorld
  | .register_handler eh =>
      if s.pending = none then
        some { s.enter eh with
          pending := some (.register_event eh.handle)
          seen := insert eh s.seen }
      else none
  | .register_event control add =>
      match s.pending with
      | some (.register_event id) =>
          some { s with epoll := (s.epoll.ctlAdd control add id).1, pending := none }
      | _ => none
  | .remove_handler id =>
      if s.pending = none then
        some
          (if s.eventMap.has id then s.erase id else s)
      else none
  | .remove_event control del =>
      match s.pending with
      | some (.remove_event id) =>
          some { s with epoll := (s.epoll.ctlDel control del id).1, pending := none }
      | _ => none
  | .copy =>
      match s.eqThread with
      | .idle =>
          if s.pending = none then some s.copy else none
      | _ => none
  | .nothing =>
      match s.eqThread with
      | .copied _ => some { s with eqThread := .idle }
      | _ => none
  | .wait id =>
      match s.eqThread with
      | .copied m =>
          if m.entries ≠ [] ∧ id ∈ s.epoll.set then
            some { s with eqThread := .reported m, epoll := { s.epoll with event := id } }
          else none
      | _ => none
  | .lookup =>
      match s.eqThread with
      | .reported m =>
          match m.find? s.epoll.event with
          | some eh => some { s with eqThread := .found m eh }
          | none => some { s with eqThread := .crashed }
      | _ => none
  | .unread =>
      match s.eqThread with
      | .found _ _ => some { s with eqThread := .idle }
      | _ => none
  | .dispatch =>
      match s.eqThread with
      | .found m eh =>
          match m.find? eh.handle with
          | some _ => some { s with eqThread := .handling }
          | none => some { s with eqThread := .crashed }
      | _ => none
  | .handled =>
      match s.eqThread with
      | .handling => some { s with eqThread := .idle }
      | _ => none

/-- The handlers that the EQ thread uses are there: the fid that is looked up has
one in the copy, and the one that is dispatched to is the one registered at that
moment. -/
def Registered (s : ProactorWorld) : ProactorOp → Prop
  | .lookup =>
      match s.eqThread with
      | .reported m => m.has s.epoll.event
      | _ => True
  | .dispatch =>
      match s.eqThread with
      | .found m eh => ∃ eh', m.find? eh.handle = some eh' ∧ s.eventMap.find? eh.handle = some eh'
      | _ => True
  | _ => True

/-- The calls that have been made leave the round alone: the fid that is looked up
was registered when the map was copied, and the fid that is dispatched to has been
neither entered nor erased since. -/
def Timely (s : ProactorWorld) : ProactorOp → Prop
  | .lookup => s.atCopy s.epoll.event
  | .dispatch =>
      match s.eqThread with
      | .found _ eh => eh.handle ∉ s.changed
      | _ => True
  | _ => True

/-- A handler is registered once. -/
def Fresh (s : ProactorWorld) : ProactorOp → Prop
  | .register_handler eh => eh ∉ s.seen
  | _ => True

/-- No call is made between a copy and the end of the round (`handle_event` may
make calls), and `fi_control` succeeds for a fid that is removed. -/
def Quiet (s : ProactorWorld) : ProactorOp → Prop
  | .register_handler _ => s.eqThread.snapshot.isNone
  | .remove_handler _ => s.eqThread.snapshot.isNone
  | .remove_event control _ => control = true
  | _ => True

instance (s : ProactorWorld) : (op : ProactorOp) → Decidable (s.Timely op)
  | .lookup => inferInstanceAs (Decidable (s.atCopy s.epoll.event = true))
  | .dispatch =>
    match h : s.eqThread with
    | .found m eh => decidable_of_iff (eh.handle ∉ s.changed) (by simp only [Timely, h])
    | .idle | .copied _ | .reported _ | .handling | .crashed =>
        isTrue (by simp only [Timely, h])
  | .register_handler _ | .register_event _ _ | .remove_handler _ | .remove_event _ _ | .copy
  | .nothing | .wait _ | .unread | .handled => isTrue trivial

/-! ## What the calls change -/

theorem find?_enter (s : ProactorWorld) (eh : EventHandler) (f : Fid) :
    (s.enter eh).eventMap.find? f =
      if s.eventMap.has eh.handle = false ∧ eh.handle = f then some eh
      else s.eventMap.find? f := by
  unfold enter
  by_cases h : s.eventMap.has eh.handle
  · rw [if_pos h, if_neg (by simp [h])]
  · have hfalse : s.eventMap.has eh.handle = false := by simpa using h
    rw [if_neg h, StdMap.insertNew_of_none _ (StdMap.has_eq_false_iff.mp hfalse)]
    show (s.eventMap.assign eh.handle eh).find? f = _
    rw [StdMap.find?_assign]
    simp only [hfalse, true_and]

/-- A fid that a registration has not changed has the handler it had. -/
theorem find?_enter_of_notMem {s : ProactorWorld} {eh : EventHandler} {f : Fid}
    (h : f ∉ (s.enter eh).changed) :
    f ∉ s.changed ∧ (s.enter eh).eventMap.find? f = s.eventMap.find? f := by
  rw [find?_enter]
  unfold enter at h
  split at h
  · rename_i hhas
    exact ⟨h, if_neg (by simp [hhas])⟩
  · obtain ⟨hne, hold⟩ := not_or.mp (mt Finset.mem_insert.mpr h)
    exact ⟨hold, if_neg fun hf => hne hf.2.symm⟩

/-- A step that leaves the map and the ghosts alone and makes no new copy. -/
structure Same (s t : ProactorWorld) : Prop where
  eventMap : t.eventMap = s.eventMap
  atCopy : t.atCopy = s.atCopy
  changed : t.changed = s.changed
  seen : t.seen = s.seen
  snapshot : ∀ m, t.eqThread.snapshot = some m → s.eqThread.snapshot = some m
  found : ∀ m eh, t.eqThread = .found m eh → s.eqThread = .found m eh ∨
    s.eqThread = .reported m ∧ m.find? s.epoll.event = some eh

/-- A step of the EQ thread that ends its round. -/
theorem Same.of_end {s : ProactorWorld} {e : EqService} (he : e.snapshot = none) :
    Same s { s with eqThread := e } := by
  refine ⟨rfl, rfl, rfl, rfl, fun m hm => ?_, fun m eh hm => ?_⟩
  · exact absurd (he.symm.trans hm) (by simp)
  · rw [show e = .found m eh from hm] at he
    exact absurd he (by simp [EqService.snapshot])

/-- **What a step does to the map**: it enters a handler, erases one, copies the map
or leaves it alone. -/
theorem step_cases {s t : ProactorWorld} {op : ProactorOp} (h : s.step op = some t) :
    (∃ eh, op = .register_handler eh ∧ t = { s.enter eh with
        pending := some (.register_event eh.handle)
        seen := insert eh s.seen }) ∨
      (∃ id, op = .remove_handler id ∧ s.eventMap.has id ∧ t = s.erase id) ∨
      (op = .copy ∧ t = s.copy) ∨ Same s t := by
  cases op with
  | register_handler eh =>
    rw [step] at h
    split at h
    · exact Or.inl ⟨eh, rfl, (Option.some.inj h).symm⟩
    · exact absurd h (by simp)
  | register_event control add =>
    rw [step] at h
    split at h
    · cases h
      exact Or.inr (Or.inr (Or.inr ⟨rfl, rfl, rfl, rfl, fun _ hm => hm, fun _ _ hm => Or.inl hm⟩))
    · exact absurd h (by simp)
  | remove_handler id =>
    rw [step] at h
    split at h
    · rw [Option.some.injEq] at h
      by_cases hhas : s.eventMap.has id
      · rw [if_pos hhas] at h
        exact Or.inr (Or.inl ⟨id, rfl, hhas, h.symm⟩)
      · rw [if_neg hhas] at h
        subst h
        exact Or.inr (Or.inr (Or.inr ⟨rfl, rfl, rfl, rfl, fun _ hm => hm, fun _ _ hm => Or.inl hm⟩))
    · exact absurd h (by simp)
  | remove_event control del =>
    rw [step] at h
    split at h
    · cases h
      exact Or.inr (Or.inr (Or.inr ⟨rfl, rfl, rfl, rfl, fun _ hm => hm, fun _ _ hm => Or.inl hm⟩))
    · exact absurd h (by simp)
  | copy =>
    rw [step] at h
    split at h
    · split at h
      · exact Or.inr (Or.inr (Or.inl ⟨rfl, (Option.some.inj h).symm⟩))
      · exact absurd h (by simp)
    · exact absurd h (by simp)
  | wait id =>
    rw [step] at h
    split at h
    · rename_i m hthread
      split at h
      · cases h
        refine Or.inr (Or.inr (Or.inr ⟨rfl, rfl, rfl, rfl, fun m' hm => ?_,
          fun _ _ hm => by cases hm⟩))
        rw [hthread]
        exact hm
      · exact absurd h (by simp)
    · exact absurd h (by simp)
  | lookup =>
    rw [step] at h
    split at h
    · rename_i m hthread
      cases hfind : m.find? s.epoll.event with
      | none =>
        rw [hfind, Option.some.injEq] at h
        subst h
        exact Or.inr (Or.inr (Or.inr (Same.of_end rfl)))
      | some eh =>
        rw [hfind, Option.some.injEq] at h
        subst h
        refine Or.inr (Or.inr (Or.inr ⟨rfl, rfl, rfl, rfl, fun m' hm => ?_, fun m' eh' hm => ?_⟩))
        · rw [hthread]
          exact hm
        · cases hm
          exact Or.inr ⟨hthread, hfind⟩
    · exact absurd h (by simp)
  | dispatch =>
    rw [step] at h
    split at h
    · split at h <;> cases h <;> exact Or.inr (Or.inr (Or.inr (Same.of_end rfl)))
    · exact absurd h (by simp)
  | nothing | unread | handled =>
    rw [step] at h
    split at h
    · cases h
      exact Or.inr (Or.inr (Or.inr (Same.of_end rfl)))
    · exact absurd h (by simp)

/-! ## The invariant -/

/-- A copy of the map: it has the fids that were there when it was made, and agrees
with the map on those that have not changed since. -/
structure CopyInv (s : ProactorWorld) (m : StdMap Fid EventHandler) : Prop where
  keyed : ∀ f eh, m.find? f = some eh → eh.handle = f
  has_eq : ∀ f, m.has f = s.atCopy f
  agrees : ∀ f, f ∉ s.changed → m.find? f = s.eventMap.find? f

/-- Handlers are filed under their own fid, in the map and in the copy. -/
structure Inv (s : ProactorWorld) : Prop where
  keyed : ∀ f eh, s.eventMap.find? f = some eh → eh.handle = f
  copy : ∀ m, s.eqThread.snapshot = some m → s.CopyInv m
  found : ∀ m eh, s.eqThread = .found m eh → m.find? eh.handle = some eh

theorem inv_init : init.Inv := by
  refine ⟨?_, ?_, ?_⟩
  · intro f eh h
    exact absurd h StdMap.find?_empty_ne
  · intro m h
    exact absurd h (by simp [init, EqService.snapshot])
  · intro m eh h
    exact absurd h (by simp [init])

theorem inv_enter {s : ProactorWorld} (h : s.Inv) (eh : EventHandler) : (s.enter eh).Inv := by
  have hthread : (s.enter eh).eqThread = s.eqThread := by unfold enter; split <;> rfl
  have hcopy : (s.enter eh).atCopy = s.atCopy := by unfold enter; split <;> rfl
  refine ⟨?_, ?_, ?_⟩
  · intro f eh' hf
    rw [find?_enter] at hf
    split at hf
    · rename_i hnew
      rw [← Option.some.inj hf]
      exact hnew.2
    · exact h.keyed f eh' hf
  · intro m hm
    have hold := h.copy m (hthread ▸ hm)
    refine ⟨hold.keyed, ?_, ?_⟩
    · rw [hcopy]
      exact hold.has_eq
    · intro f hf
      obtain ⟨hf', hfind⟩ := find?_enter_of_notMem hf
      rw [hfind]
      exact hold.agrees f hf'
  · rw [hthread]
    exact h.found

theorem inv_erase {s : ProactorWorld} (h : s.Inv) (id : Fid) : (s.erase id).Inv := by
  refine ⟨?_, ?_, h.found⟩
  · intro f eh hf
    exact h.keyed f eh (StdMap.find?_remove_eq_some.mp hf).2
  · intro m hm
    have hold := h.copy m hm
    refine ⟨hold.keyed, hold.has_eq, ?_⟩
    intro f hf
    obtain ⟨hne, hf'⟩ := not_or.mp (mt Finset.mem_insert.mpr hf)
    exact (hold.agrees f hf').trans (StdMap.find?_remove_of_ne _ (Ne.symm hne)).symm

theorem inv_step {s t : ProactorWorld} {op : ProactorOp} (h : s.Inv)
    (hstep : s.step op = some t) : t.Inv := by
  rcases step_cases hstep with ⟨eh, -, rfl⟩ | ⟨id, -, -, rfl⟩ | ⟨-, rfl⟩ | hsame
  · have henter := inv_enter h eh
    exact ⟨henter.keyed, fun m hm => ⟨(henter.copy m hm).keyed, (henter.copy m hm).has_eq,
      (henter.copy m hm).agrees⟩, henter.found⟩
  · exact inv_erase h id
  · refine ⟨h.keyed, ?_, fun m eh hm => by cases hm⟩
    intro m hm
    cases hm
    exact ⟨h.keyed, fun _ => rfl, fun _ _ => rfl⟩
  · refine ⟨?_, ?_, ?_⟩
    · rw [hsame.eventMap]
      exact h.keyed
    · intro m hm
      have hold := h.copy m (hsame.snapshot m hm)
      refine ⟨hold.keyed, ?_, ?_⟩
      · rw [hsame.atCopy]
        exact hold.has_eq
      · rw [hsame.eventMap, hsame.changed]
        exact hold.agrees
    · intro m eh hm
      rcases hsame.found m eh hm with hold | ⟨hold, hfind⟩
      · exact h.found m eh hold
      · have hkeyed := (h.copy m (by rw [hold]; rfl)).keyed _ eh hfind
        rw [hkeyed]
        exact hfind

theorem copyInv_of_reported {s : ProactorWorld} (h : s.Inv) {m : StdMap Fid EventHandler}
    (hthread : s.eqThread = .reported m) : s.CopyInv m :=
  h.copy m (by rw [hthread]; rfl)

theorem copyInv_of_found {s : ProactorWorld} (h : s.Inv) {m : StdMap Fid EventHandler}
    {eh : EventHandler} (hthread : s.eqThread = .found m eh) : s.CopyInv m :=
  h.copy m (by rw [hthread]; rfl)

/-- A step that is timely finds its handler. -/
theorem registered_of_timely {s : ProactorWorld} {op : ProactorOp} (h : s.Inv)
    (htimely : s.Timely op) : s.Registered op := by
  cases op with
  | lookup =>
    cases hthread : s.eqThread with
    | reported m =>
      simp only [Registered, hthread]
      rw [(copyInv_of_reported h hthread).has_eq]
      exact htimely
    | _ => simp only [Registered, hthread]
  | dispatch =>
    cases hthread : s.eqThread with
    | found m eh =>
      simp only [Timely, hthread] at htimely
      simp only [Registered, hthread]
      have hfind := h.found m eh hthread
      exact ⟨eh, hfind, ((copyInv_of_found h hthread).agrees _ htimely) ▸ hfind⟩
    | _ => simp only [Registered, hthread]
  | _ => trivial

/-! ## Handlers that are registered once -/

/-- With handlers that are registered once, a fid that has changed since the copy
does not have the handler any more that the copy has. -/
structure Once (s : ProactorWorld) : Prop where
  inv : s.Inv
  seen : ∀ f eh, s.eventMap.find? f = some eh → eh ∈ s.seen
  copy_seen : ∀ m, s.eqThread.snapshot = some m → ∀ f eh, m.find? f = some eh → eh ∈ s.seen
  differs : ∀ m, s.eqThread.snapshot = some m → ∀ f ∈ s.changed, ∀ eh, m.find? f = some eh →
    s.eventMap.find? f ≠ some eh

theorem once_init : init.Once := by
  refine ⟨inv_init, ?_, ?_, ?_⟩
  · intro f eh h
    exact absurd h StdMap.find?_empty_ne
  · intro m h
    exact absurd h (by simp [init, EqService.snapshot])
  · intro m h
    exact absurd h (by simp [init, EqService.snapshot])

theorem once_step {s t : ProactorWorld} {op : ProactorOp} (h : s.Once) (hfresh : s.Fresh op)
    (hstep : s.step op = some t) : t.Once := by
  have ht := inv_step h.inv hstep
  rcases step_cases hstep with ⟨eh, rfl, rfl⟩ | ⟨id, -, -, rfl⟩ | ⟨-, rfl⟩ | hsame
  · have hthread : (s.enter eh).eqThread = s.eqThread := by unfold enter; split <;> rfl
    refine ⟨ht, ?_, ?_, ?_⟩
    · intro f eh' hf
      rw [find?_enter] at hf
      split at hf
      · rw [← Option.some.inj hf]
        exact Finset.mem_insert_self _ _
      · exact Finset.mem_insert_of_mem (h.seen f eh' hf)
    · intro m hm f eh' hf
      exact Finset.mem_insert_of_mem (h.copy_seen m (hthread ▸ hm) f eh' hf)
    · intro m hm f hf eh' hfind hmap
      have hsnap : s.eqThread.snapshot = some m := hthread ▸ hm
      rw [find?_enter] at hmap
      split at hmap
      · -- the handler is new, and the copy has only old ones
        rw [Option.some.inj hmap] at hfresh
        exact hfresh (h.copy_seen m hsnap f eh' hfind)
      · rename_i hnew
        refine h.differs m hsnap f ?_ eh' hfind hmap
        by_cases hchanged : f ∈ s.changed
        · exact hchanged
        · have hentered : f ∈ (s.enter eh).changed := hf
          unfold enter at hentered
          split at hentered
          · exact absurd hentered hchanged
          · rename_i hhas
            rcases Finset.mem_insert.mp hentered with hself | hold
            · exact absurd ⟨by simpa using hhas, hself.symm⟩ hnew
            · exact hold
  · refine ⟨ht, ?_, h.copy_seen, ?_⟩
    · intro f eh hf
      exact h.seen f eh (StdMap.find?_remove_eq_some.mp hf).2
    · intro m hm f hf eh hfind hmap
      obtain ⟨hne, hmap⟩ := StdMap.find?_remove_eq_some.mp hmap
      refine h.differs m hm f ?_ eh hfind hmap
      exact (Finset.mem_insert.mp hf).resolve_left hne
  · refine ⟨ht, h.seen, ?_, ?_⟩
    · intro m hm
      cases hm
      exact h.seen
    · intro m hm f hf
      exact absurd hf (Finset.notMem_empty f)
  · refine ⟨ht, ?_, ?_, ?_⟩
    · rw [hsame.eventMap, hsame.seen]
      exact h.seen
    · rw [hsame.seen]
      exact fun m hm => h.copy_seen m (hsame.snapshot m hm)
    · rw [hsame.eventMap, hsame.changed]
      exact fun m hm => h.differs m (hsame.snapshot m hm)

/-- A step that finds its handler was timely. -/
theorem timely_of_registered {s : ProactorWorld} {op : ProactorOp} (h : s.Once)
    (hreg : s.Registered op) (hstep : (s.step op).isSome) : s.Timely op := by
  cases op with
  | lookup =>
    cases hthread : s.eqThread with
    | reported m =>
      simp only [Registered, hthread] at hreg
      rw [(copyInv_of_reported h.inv hthread).has_eq] at hreg
      exact hreg
    | _ =>
      rw [step, hthread] at hstep
      exact absurd hstep (by simp)
  | dispatch =>
    cases hthread : s.eqThread with
    | found m eh =>
      simp only [Registered, hthread] at hreg
      simp only [Timely, hthread]
      obtain ⟨eh', hcopy, hmap⟩ := hreg
      intro hchanged
      exact h.differs m (by rw [hthread]; rfl) _ hchanged eh' hcopy hmap
    | _ => simp only [Timely, hthread]
  | _ => trivial

/-! ## Quiet rounds -/

/-- In quiet runs nothing changes between a copy and the end of the round, and the
epoll set has only fids with a handler, or one that is being removed. -/
structure Undisturbed (s : ProactorWorld) : Prop where
  inv : s.Inv
  round : ∀ m, s.eqThread.snapshot = some m → s.changed = ∅ ∧ s.pending = none
  live : ∀ f ∈ s.epoll.set, s.eventMap.has f ∨ s.pending = some (.remove_event f)
  entered : ∀ f, s.pending = some (.register_event f) → s.eventMap.has f
  event : ∀ m, s.eqThread = .reported m → s.atCopy s.epoll.event

theorem undisturbed_init : init.Undisturbed := by
  refine ⟨inv_init, ?_, ?_, ?_, ?_⟩
  · intro m h
    exact absurd h (by simp [init, EqService.snapshot])
  · intro f hf
    exact absurd hf (Finset.notMem_empty f)
  · intro f h
    exact absurd h (by simp [init])
  · intro m h
    exact absurd h (by simp [init])

theorem has_enter (s : ProactorWorld) (eh : EventHandler) (f : Fid) :
    (s.enter eh).eventMap.has f ↔ f = eh.handle ∨ s.eventMap.has f := by
  rw [StdMap.has_eq_true_iff, StdMap.has_eq_true_iff, find?_enter]
  by_cases hhas : s.eventMap.has eh.handle
  · rw [if_neg (by simp [hhas])]
    refine ⟨Or.inr, ?_⟩
    rintro (rfl | h)
    · exact StdMap.has_eq_true_iff.mp hhas
    · exact h
  · by_cases hf : eh.handle = f
    · rw [if_pos ⟨by simpa using hhas, hf⟩]
      exact iff_of_true ⟨eh, rfl⟩ (Or.inl hf.symm)
    · rw [if_neg fun h => hf h.2]
      exact ⟨Or.inr, fun h => h.resolve_left fun he => hf he.symm⟩

section

variable {s t : ProactorWorld}

/-- Outside a round only the epoll set and the pending call matter. -/
theorem undisturbed_of_noRound (hinv : t.Inv) (hnone : t.eqThread.snapshot = none)
    (hlive : ∀ f ∈ t.epoll.set, t.eventMap.has f ∨ t.pending = some (.remove_event f))
    (hentered : ∀ f, t.pending = some (.register_event f) → t.eventMap.has f) :
    t.Undisturbed := by
  refine ⟨hinv, fun m hm => ?_, hlive, hentered, fun m hm => ?_⟩
  · exact absurd (hnone.symm.trans hm) (by simp)
  · rw [hm] at hnone
    cases hnone

/-- While a call is pending, no round is under way. -/
theorem Undisturbed.noRound (h : s.Undisturbed) {call : ProactorCall}
    (hpending : s.pending = some call) : s.eqThread.snapshot = none := by
  cases hsnap : s.eqThread.snapshot with
  | none => rfl
  | some m => exact absurd ((h.round m hsnap).2.symm.trans hpending) (by simp)

/-- A fid in the epoll set has a handler, unless it is being removed. -/
theorem Undisturbed.has_of_mem (h : s.Undisturbed) {f : Fid} (hf : f ∈ s.epoll.set)
    (hne : s.pending ≠ some (.remove_event f)) : s.eventMap.has f :=
  (h.live f hf).resolve_right hne

theorem undisturbed_enter (h : s.Undisturbed) (eh : EventHandler) (hpending : s.pending = none)
    (hnone : s.eqThread.snapshot = none)
    (ht : Inv { s.enter eh with
      pending := some (.register_event eh.handle)
      seen := insert eh s.seen }) :
    Undisturbed { s.enter eh with
      pending := some (.register_event eh.handle)
      seen := insert eh s.seen } := by
  have hthread : (s.enter eh).eqThread = s.eqThread := by unfold enter; split <;> rfl
  have hepoll : (s.enter eh).epoll = s.epoll := by unfold enter; split <;> rfl
  refine undisturbed_of_noRound ht ((congrArg EqService.snapshot hthread).trans hnone)
    (fun f hf => ?_) (fun f hf => ?_)
  · have hhas : s.eventMap.has f := h.has_of_mem (hepoll ▸ hf) (by simp [hpending])
    exact Or.inl ((has_enter s eh f).mpr (Or.inr hhas))
  · cases hf
    exact (has_enter s eh _).mpr (Or.inl rfl)

theorem undisturbed_erase (h : s.Undisturbed) (id : Fid) (hpending : s.pending = none)
    (hnone : s.eqThread.snapshot = none) (ht : (s.erase id).Inv) : (s.erase id).Undisturbed := by
  refine undisturbed_of_noRound ht hnone (fun f hf => ?_) (fun f hf => ?_)
  · by_cases hf' : id = f
    · exact Or.inr (hf' ▸ rfl)
    · refine Or.inl ?_
      rw [StdMap.has_eq_true_iff]
      show ∃ v, (s.eventMap.remove id).find? f = some v
      rw [StdMap.find?_remove_of_ne _ hf']
      exact StdMap.has_eq_true_iff.mp (h.has_of_mem hf (by simp [hpending]))
  · exact absurd hf (by simp [erase])

/-- The fid that `epoll_wait` reports had a handler when the map was copied. -/
theorem undisturbed_wait (h : s.Undisturbed) {id : Fid} {m : StdMap Fid EventHandler}
    (hsnap : s.eqThread.snapshot = some m) (hid : id ∈ s.epoll.set)
    (ht : Inv { s with eqThread := .reported m, epoll := { s.epoll with event := id } }) :
    Undisturbed { s with eqThread := .reported m, epoll := { s.epoll with event := id } } := by
  obtain ⟨hchanged, hpending⟩ := h.round m hsnap
  refine ⟨ht, fun m' _ => ⟨hchanged, hpending⟩, h.live, h.entered, fun m' _ => ?_⟩
  -- nothing has changed since the copy
  have hcopy := h.inv.copy m hsnap
  show s.atCopy id
  rw [← hcopy.has_eq, StdMap.has_eq_true_iff, hcopy.agrees id (by rw [hchanged]; simp)]
  exact StdMap.has_eq_true_iff.mp (h.has_of_mem hid (by simp [hpending]))

theorem undisturbed_step {op : ProactorOp} (h : s.Undisturbed) (hquiet : s.Quiet op)
    (hstep : s.step op = some t) : t.Undisturbed := by
  have ht := inv_step h.inv hstep
  have hend : ∀ e : EqService, e.snapshot = none → t = { s with eqThread := e } →
      t.Undisturbed := by
    rintro e he rfl
    exact undisturbed_of_noRound ht he h.live h.entered
  cases op with
  | register_handler eh =>
    rw [step] at hstep
    split at hstep
    · rename_i hpending
      cases hstep
      exact undisturbed_enter h eh hpending (Option.isNone_iff_eq_none.mp hquiet) ht
    · exact absurd hstep (by simp)
  | register_event control add =>
    rw [step] at hstep
    split at hstep
    swap
    · exact absurd hstep (by simp)
    rename_i id hpending
    cases hstep
    refine undisturbed_of_noRound ht (h.noRound hpending) (fun f hf => ?_) (fun f hf => ?_)
    · rcases Finset.mem_insert.mp (s.epoll.set_ctlAdd_subset control add id hf) with rfl | hold
      · exact Or.inl (h.entered _ hpending)
      · exact Or.inl (h.has_of_mem hold (by simp [hpending]))
    · exact absurd hf (by simp)
  | remove_handler id =>
    rw [step] at hstep
    split at hstep
    swap
    · exact absurd hstep (by simp)
    rename_i hpending
    rw [Option.some.injEq] at hstep
    by_cases hhas : s.eventMap.has id
    · rw [if_pos hhas] at hstep
      subst hstep
      exact undisturbed_erase h id hpending (Option.isNone_iff_eq_none.mp hquiet) ht
    · rw [if_neg hhas] at hstep
      exact hstep ▸ h
  | remove_event control del =>
    obtain rfl : control = true := hquiet
    rw [step] at hstep
    split at hstep
    swap
    · exact absurd hstep (by simp)
    rename_i id hpending
    cases hstep
    refine undisturbed_of_noRound ht (h.noRound hpending) (fun f hf => ?_) (fun f hf => ?_)
    · have hf' : f ∈ s.epoll.set.erase id := s.epoll.set_ctlDel del id ▸ hf
      obtain ⟨hne, hold⟩ := Finset.mem_erase.mp hf'
      exact Or.inl (h.has_of_mem hold (by simpa [hpending] using Ne.symm hne))
    · exact absurd hf (by simp)
  | copy =>
    rw [step] at hstep
    split at hstep
    swap
    · exact absurd hstep (by simp)
    split at hstep
    swap
    · exact absurd hstep (by simp)
    rename_i hpending
    cases hstep
    refine ⟨ht, fun _ _ => ⟨rfl, hpending⟩, h.live, h.entered, fun m hm => ?_⟩
    cases hm
  | wait id =>
    rw [step] at hstep
    split at hstep
    swap
    · exact absurd hstep (by simp)
    rename_i m hthread
    split at hstep
    · rename_i hreport
      cases hstep
      exact undisturbed_wait h (by rw [hthread]; rfl) hreport.2 ht
    · exact absurd hstep (by simp)
  | lookup =>
    rw [step] at hstep
    split at hstep
    swap
    · exact absurd hstep (by simp)
    rename_i m hthread
    have hsnap : s.eqThread.snapshot = some m := by rw [hthread]; rfl
    split at hstep
    · cases hstep
      refine ⟨ht, fun _ _ => h.round m hsnap, h.live, h.entered, fun m' hm => ?_⟩
      cases hm
    · exact hend .crashed rfl (Option.some.inj hstep).symm
  | dispatch =>
    rw [step] at hstep
    split at hstep
    · split at hstep
      · exact hend .handling rfl (Option.some.inj hstep).symm
      · exact hend .crashed rfl (Option.some.inj hstep).symm
    · exact absurd hstep (by simp)
  | nothing | unread | handled =>
    rw [step] at hstep
    split at hstep
    · exact hend .idle rfl (Option.some.inj hstep).symm
    · exact absurd hstep (by simp)

end

theorem timely_of_undisturbed {s : ProactorWorld} {op : ProactorOp} (h : s.Undisturbed)
    (hstep : (s.step op).isSome) : s.Timely op := by
  cases op with
  | lookup =>
    cases hthread : s.eqThread with
    | reported m => exact h.event m hthread
    | _ =>
      rw [step, hthread] at hstep
      exact absurd hstep (by simp)
  | dispatch =>
    cases hthread : s.eqThread with
    | found m eh =>
      simp only [Timely, hthread]
      rw [(h.round m (by rw [hthread]; rfl)).1]
      exact Finset.notMem_empty _
    | _ => simp only [Timely, hthread]
  | _ => trivial

/-- **Quiet rounds are timely.** -/
theorem quiet_timely (ops : List ProactorOp) (h : Meets step Quiet init ops) :
    Meets step Timely init ops :=
  meets_of_meets (fun _ _ _ hu hq hstep => undisturbed_step hu hq hstep)
    (fun _ _ _ hu _ hstep => timely_of_undisturbed hu (by rw [hstep]; rfl)) undisturbed_init ops h

/-! ## Runs -/

/-- **When every event finds its handler.**  In every run whose lookups and
dispatches are timely, each event that is dispatched finds a handler in the copy of
the map, and that handler is registered at that moment.  Runs with quiet rounds are
timely; and in runs that register no handler twice the timely runs are the only ones
with this property. -/
theorem dispatch_registered (ops : List ProactorOp) :
    (Meets step Timely init ops → Meets step Registered init ops) ∧
      (Meets step Quiet init ops → Meets step Timely init ops) ∧
      (Meets step Fresh init ops → Meets step Registered init ops →
        Meets step Timely init ops) := by
  refine ⟨?_, quiet_timely ops, ?_⟩
  · intro h
    exact meets_of_meets (fun s op t hinv _ hstep => inv_step hinv hstep)
      (fun s op t hinv htimely _ => registered_of_timely hinv htimely) inv_init ops h
  · intro hfresh hreg
    exact meets_of_meets (fun s op t honce hg hstep => once_step honce hg.1 hstep)
      (fun s op t honce hg hstep => timely_of_registered honce hg.2 (by rw [hstep]; rfl))
      once_init ops (hfresh.and hreg)

/-- A handler that is registered before the copy. -/
def earlyRun : List ProactorOp :=
  [.register_handler ⟨100, 1⟩, .register_event true true, .copy, .wait 1, .lookup, .dispatch,
    .handled]

theorem dispatch_registered_early : Meets step Registered init earlyRun :=
  (dispatch_registered earlyRun).1 (by decide +kernel)

/-- A second connection is registered while the EQ thread waits. -/
def lateRun : List ProactorOp :=
  [.register_handler ⟨100, 1⟩, .register_event true true, .copy,
    .register_handler ⟨200, 2⟩, .register_event true true, .wait 2]

/-- Its event is reported to that wait, and its fid is not in the copy: the lookup
finds a null handler. -/
theorem dispatch_null : ¬ Meets step Registered init (lateRun ++ [.lookup]) := by
  intro h
  have hrun : ((run step init lateRun).bind fun t => (step t .lookup).map fun _ =>
      t.eqThread.snapshot.map fun m => m.has t.epoll.event) = some (some false) := by
    decide +kernel
  obtain ⟨t, ht, hr⟩ := Option.bind_eq_some_iff.mp hrun
  obtain ⟨u, hu, hr⟩ := Option.map_eq_some_iff.mp hr
  obtain ⟨m, hm, hnone⟩ := Option.map_eq_some_iff.mp hr
  have hreg := h.at_step ht hu
  cases hthread : t.eqThread with
  | reported m' =>
    rw [hthread] at hm
    obtain rfl : m' = m := Option.some.inj hm
    simp only [Registered, hthread, hnone] at hreg
    exact absurd hreg (by decide)
  | _ =>
    -- a lookup is made when an event has been reported
    simp only [step, hthread] at hu
    exact absurd hu (by simp)

end ProactorWorld

end Hpnl
