import Hpnl.Demultiplexer.Proactor

/-!
# Failures of registration

`register_handler` enters the handler in `eventMap` and then adds the wait descriptor
of its queue to the epoll set; `remove_handler` erases first and deletes then.  When
either `fi_control` or `epoll_ctl` fails the map stays as it has been changed and the
local variable `fd` is closed: the descriptor that the queue owns, or, when
`fi_control` has not set it, whatever has the number it holds, `epfd` included.

* `Registry` — the map, the epoll set and the descriptors that have been closed.
* `set_register_event`, `set_remove_event` — on open descriptors this is `Epoll`.
* `registry_agrees` — **the keys of the map are the fids in the epoll set, and a call
  that fails changes nothing, exactly when** no handler is registered twice, except
  where the failure closes nothing, and no system call fails otherwise.
-/

namespace Hpnl

open Transition

/-- What the system answers to one call: whether `fi_control` succeeds, whether
`epoll_ctl` does where it can, and what the uninitialized `fd` holds. -/
structure EpollReply where
  control : Bool
  ctl : Bool
  fd : StrayFd
  deriving DecidableEq, Repr

/-- `eventMap`, the fids whose wait descriptors are in the epoll set, those whose wait
descriptors have been closed, and whether `epfd` is open. -/
@[ext] structure Registry where
  eventMap : StdMap Fid EventHandler
  set : Finset Fid
  closed : Finset Fid
  epfd : Bool

/-- A call, with the answers of the system. -/
inductive RegistryOp where
  | register_handler (eh : EventHandler) (r : EpollReply)
  | remove_handler (id : Fid) (r : EpollReply)
  deriving DecidableEq, Repr

namespace Registry

/-- A proactor without handlers; every queue has its descriptor. -/
def init : Registry := { eventMap := ∅, set := ∅, closed := ∅, epfd := true }

/-- `close(fd)`: a wait descriptor leaves the epoll set, and the epoll descriptor
takes the set with it. -/
def close (s : Registry) : StrayFd → Registry
  | .wait id => { s with set := s.set.erase id, closed := insert id s.closed }
  | .epfd => { s with set := ∅, epfd := false }
  | .other => s

/-- `EqDemultiplexer::register_event`. -/
def register_event (s : Registry) (id : Fid) (r : EpollReply) : Registry × ℤ :=
  if r.control = false then (s.close r.fd, -1)
  else if s.epfd = false ∨ id ∈ s.closed ∨ id ∈ s.set ∨ r.ctl = false then
    (s.close (.wait id), -1)
  else ({ s with set := insert id s.set }, 0)

/-- `EqDemultiplexer::remove_event`. -/
def remove_event (s : Registry) (id : Fid) (r : EpollReply) : Registry × ℤ :=
  if r.control = false then (s.close r.fd, -1)
  else if s.epfd = false ∨ id ∉ s.set ∨ r.ctl = false then (s.close (.wait id), -1)
  else ({ s with set := s.set.erase id }, 0)

/-- `Proactor::register_handler`. -/
def register_handler (s : Registry) (eh : EventHandler) (r : EpollReply) : Registry × ℤ :=
  if s.eventMap.has eh.handle then s.register_event eh.handle r
  else
    { s with eventMap := s.eventMap.insertNew eh.handle eh }.register_event eh.handle r

/-- `Proactor::remove_handler`. -/
def remove_handler (s : Registry) (id : Fid) (r : EpollReply) : Registry × ℤ :=
  if s.eventMap.has id then { s with eventMap := s.eventMap.remove id }.remove_event id r
  else (s, -1)

/-- One call: the state it leaves and what it returns. -/
def call (s : Registry) : RegistryOp → Registry × ℤ
  | .register_handler eh r => s.register_handler eh r
  | .remove_handler id r => s.remove_handler id r

def step (s : Registry) (op : RegistryOp) : Option Registry := some (s.call op).1

/-- The keys of the map are the fids in the epoll set. -/
def Agrees (s : Registry) : Prop := ∀ f, s.eventMap.has f = true ↔ f ∈ s.set

/-- A call that returns non-zero leaves everything as it was. -/
def Atomic (s : Registry) (op : RegistryOp) : Prop := (s.call op).2 ≠ 0 → (s.call op).1 = s

/-- What `fd` holds is no open wait descriptor, and not `epfd`. -/
def Harmless (s : Registry) : StrayFd → Prop
  | .wait id => id ∈ s.closed
  | .epfd => False
  | .other => True

instance (s : Registry) : DecidablePred s.Harmless := fun fd => by
  cases fd <;> unfold Harmless <;> infer_instance

/-- A handler that is there is registered again only where `fi_control` fails and the
stray `close` hits no open descriptor; the system calls of a first registration, of an
open descriptor, and of a removal succeed. -/
def Sound (s : Registry) : RegistryOp → Prop
  | .register_handler eh r =>
      if s.eventMap.has eh.handle then r.control = false ∧ s.Harmless r.fd
      else r.control = true ∧ r.ctl = true ∧ eh.handle ∉ s.closed
  | .remove_handler id r => s.eventMap.has id = true → r.control = true ∧ r.ctl = true

/-! ## The epoll set -/

/-- On descriptors that are open, and with no stray `close`, adding is `Epoll.ctlAdd`. -/
theorem set_register_event (s : Registry) {id : Fid} (hepfd : s.epfd = true)
    (hopen : id ∉ s.closed) (control add : Bool) (event : Fid) :
    (s.register_event id ⟨control, add, .other⟩).1.set =
        (Epoll.ctlAdd ⟨s.set, event⟩ control add id).1.set ∧
      (s.register_event id ⟨control, add, .other⟩).2 =
        (Epoll.ctlAdd ⟨s.set, event⟩ control add id).2 := by
  unfold register_event Epoll.ctlAdd
  by_cases hc : control = false
  · simp [hc, close]
  · by_cases hadd : id ∈ s.set ∨ add = false
    · simp [hc, hadd, close, hepfd]
    · simp [hc, hadd, hopen, hepfd]

/-- Deleting is `Epoll.ctlDel`. -/
theorem set_remove_event (s : Registry) (id : Fid) (hepfd : s.epfd = true) (control del : Bool)
    (event : Fid) :
    (s.remove_event id ⟨control, del, .other⟩).1.set =
        (Epoll.ctlDel ⟨s.set, event⟩ control del id).1.set ∧
      (s.remove_event id ⟨control, del, .other⟩).2 =
        (Epoll.ctlDel ⟨s.set, event⟩ control del id).2 := by
  unfold remove_event Epoll.ctlDel
  by_cases hc : control = false
  · simp [hc, close]
  · by_cases hdel : id ∉ s.set ∨ del = false
    · simp [hc, hdel, close, hepfd]
    · simp [hc, hdel, hepfd]

theorem eventMap_close (s : Registry) (fd : StrayFd) : (s.close fd).eventMap = s.eventMap := by
  cases fd <;> rfl

/-- Neither touches the map, and each has to be granted by the system. -/
theorem register_event_cases (s : Registry) (id : Fid) (r : EpollReply) :
    (s.register_event id r).1.eventMap = s.eventMap ∧
      ((s.register_event id r).2 ≠ 0 ∨ r.control = true ∧ r.ctl = true ∧ id ∉ s.closed) := by
  unfold register_event
  split
  · exact ⟨s.eventMap_close _, Or.inl (by simp)⟩
  split
  · exact ⟨s.eventMap_close _, Or.inl (by simp)⟩
  · rename_i hcontrol hctl
    simp only [not_or, Bool.not_eq_false] at hcontrol hctl
    exact ⟨rfl, Or.inr ⟨hcontrol, hctl.2.2.2, hctl.2.1⟩⟩

theorem remove_event_cases (s : Registry) (id : Fid) (r : EpollReply) :
    (s.remove_event id r).1.eventMap = s.eventMap ∧
      ((s.remove_event id r).2 ≠ 0 ∨ r.control = true ∧ r.ctl = true) := by
  unfold remove_event
  split
  · exact ⟨s.eventMap_close _, Or.inl (by simp)⟩
  split
  · exact ⟨s.eventMap_close _, Or.inl (by simp)⟩
  · rename_i hcontrol hctl
    simp only [not_or, Bool.not_eq_false] at hcontrol hctl
    exact ⟨rfl, Or.inr ⟨hcontrol, hctl.2.2⟩⟩

/-! ## What a sound call does -/

/-- The map and the epoll set agree, a closed descriptor is in neither, and `epfd` is
open. -/
structure Inv (s : Registry) : Prop where
  agrees : s.Agrees
  open_of_mem : ∀ f ∈ s.set, f ∉ s.closed
  open_epfd : s.epfd = true

theorem inv_init : init.Inv := by
  refine ⟨fun f => ⟨fun h => ?_, fun h => absurd h (Finset.notMem_empty f)⟩,
    fun f h => absurd h (Finset.notMem_empty f), rfl⟩
  obtain ⟨eh, hf⟩ := StdMap.has_eq_true_iff.mp h
  exact absurd hf StdMap.find?_empty_ne

/-- A `close` goes unnoticed exactly when it hits nothing that is open. -/
theorem close_eq_self_iff {s : Registry} (h : s.Inv) (fd : StrayFd) :
    s.close fd = s ↔ s.Harmless fd := by
  cases fd with
  | wait id =>
    constructor
    · intro hclose
      have hclosed : insert id s.closed = s.closed := congrArg Registry.closed hclose
      exact Finset.insert_eq_self.mp hclosed
    · intro hid
      have hnot : id ∉ s.set := fun hin => h.open_of_mem id hin hid
      exact Registry.ext rfl (Finset.erase_eq_of_notMem hnot) (Finset.insert_eq_self.mpr hid) rfl
  | epfd =>
    refine ⟨fun hclose => ?_, fun hfalse => hfalse.elim⟩
    have hepfd : false = s.epfd := congrArg Registry.epfd hclose
    exact absurd (hepfd.trans h.open_epfd) (by simp)
  | other => exact ⟨fun _ => trivial, fun _ => rfl⟩

/-- A sound call either fails and changes nothing, or does what it says. -/
theorem call_of_sound {s : Registry} {op : RegistryOp} (h : s.Inv) (hsound : s.Sound op) :
    (s.call op).1 = s ∨
      (∃ eh r, op = .register_handler eh r ∧ s.call op =
        ({ s with
            eventMap := s.eventMap.assign eh.handle eh
            set := insert eh.handle s.set }, 0) ∧ eh.handle ∉ s.closed) ∨
      (∃ id r, op = .remove_handler id r ∧ s.call op =
        ({ s with eventMap := s.eventMap.remove id, set := s.set.erase id }, 0)) := by
  cases op with
  | register_handler eh r =>
    by_cases hhas : s.eventMap.has eh.handle = true
    · simp only [Sound, hhas, if_true] at hsound
      refine Or.inl ?_
      simp only [call, register_handler, hhas, if_true, register_event, hsound.1]
      exact (close_eq_self_iff h r.fd).mpr hsound.2
    · simp only [Sound, hhas, if_false, Bool.false_eq_true] at hsound
      obtain ⟨hcontrol, hctl, hopen⟩ := hsound
      have hnot : eh.handle ∉ s.set := fun hin => hhas ((h.agrees _).mpr hin)
      have hfind : s.eventMap.find? eh.handle = none :=
        StdMap.has_eq_false_iff.mp (by simpa using hhas)
      refine Or.inr (Or.inl ⟨eh, r, rfl, ?_, hopen⟩)
      simp [call, register_handler, hhas, register_event, hcontrol, hctl, hopen, hnot,
        h.open_epfd, StdMap.insertNew_of_none _ hfind]
  | remove_handler id r =>
    by_cases hhas : s.eventMap.has id = true
    · obtain ⟨hcontrol, hctl⟩ := hsound hhas
      have hin : id ∈ s.set := (h.agrees id).mp hhas
      refine Or.inr (Or.inr ⟨id, r, rfl, ?_⟩)
      simp [call, remove_handler, hhas, remove_event, hcontrol, hctl, hin, h.open_epfd]
    · refine Or.inl ?_
      simp [call, remove_handler, hhas]

theorem inv_call {s : Registry} {op : RegistryOp} (h : s.Inv) (hsound : s.Sound op) :
    (s.call op).1.Inv := by
  rcases call_of_sound h hsound with heq | ⟨eh, r, -, heq, hopen⟩ | ⟨id, r, -, heq⟩
  · rw [heq]
    exact h
  · rw [heq]
    refine ⟨fun f => ?_, fun f hf => ?_, h.open_epfd⟩
    · show (s.eventMap.assign eh.handle eh).has f = true ↔ f ∈ insert eh.handle s.set
      rw [StdMap.has_assign_iff, h.agrees f, Finset.mem_insert]
    · rcases Finset.mem_insert.mp hf with rfl | hold
      · exact hopen
      · exact h.open_of_mem f hold
  · rw [heq]
    refine ⟨fun f => ?_, fun f hf => h.open_of_mem f (Finset.mem_of_mem_erase hf), h.open_epfd⟩
    show (s.eventMap.remove id).has f = true ↔ f ∈ s.set.erase id
    rw [StdMap.has_remove_iff, h.agrees f, Finset.mem_erase]

/-- **A call is atomic exactly when it is sound.** -/
theorem atomic_iff_sound {s : Registry} {op : RegistryOp} (h : s.Inv) :
    s.Atomic op ↔ s.Sound op := by
  constructor
  · intro hatomic
    cases op with
    | register_handler eh r =>
      by_cases hhas : s.eventMap.has eh.handle = true
      · simp only [Sound, hhas, if_true]
        simp only [Atomic, call, register_handler, hhas, if_true] at hatomic
        have hin : eh.handle ∈ s.set := (h.agrees _).mp hhas
        cases hcontrol : r.control with
        | false =>
          simp only [register_event, hcontrol, if_true] at hatomic
          exact ⟨rfl, (close_eq_self_iff h r.fd).mp (hatomic (by simp))⟩
        | true =>
          -- the second add fails with EEXIST, and the descriptor is closed
          have heq : s.register_event eh.handle r = (s.close (.wait eh.handle), -1) := by
            simp [register_event, hcontrol, hin]
          rw [heq] at hatomic
          have hclosed := (close_eq_self_iff h (.wait eh.handle)).mp (hatomic (by simp))
          exact absurd hclosed (h.open_of_mem _ hin)
      · simp only [Sound, hhas, if_false, Bool.false_eq_true]
        have hfind : s.eventMap.find? eh.handle = none :=
          StdMap.has_eq_false_iff.mp (by simpa using hhas)
        simp only [Atomic, call, register_handler, hhas, Bool.false_eq_true, if_false,
          StdMap.insertNew_of_none _ hfind] at hatomic
        obtain ⟨hkept, hfail | hsound⟩ := register_event_cases
          { s with eventMap := s.eventMap.assign eh.handle eh } eh.handle r
        · -- the entry stays when one of the system calls fails
          have hmap : s.eventMap.assign eh.handle eh = s.eventMap :=
            hkept.symm.trans (congrArg Registry.eventMap (hatomic hfail))
          have hself := StdMap.find?_assign_self s.eventMap eh.handle eh
          rw [hmap, hfind] at hself
          exact absurd hself (by simp)
        · exact hsound
    | remove_handler id r =>
      intro hhas
      simp only [Atomic, call, remove_handler, hhas, if_true] at hatomic
      obtain ⟨hkept, hfail | hsound⟩ := remove_event_cases
        { s with eventMap := s.eventMap.remove id } id r
      · have hmap : s.eventMap.remove id = s.eventMap :=
          hkept.symm.trans (congrArg Registry.eventMap (hatomic hfail))
        have hself := StdMap.find?_remove_self s.eventMap id
        rw [hmap] at hself
        rw [StdMap.has, hself] at hhas
        exact absurd hhas (by simp)
      · exact hsound
  · intro hsound hret
    rcases call_of_sound h hsound with heq | ⟨eh, r, -, heq, -⟩ | ⟨id, r, -, heq⟩
    · exact heq
    · rw [heq] at hret
      exact absurd rfl hret
    · rw [heq] at hret
      exact absurd rfl hret

/-! ## Runs -/

/-- **When the map and the epoll set agree.**  After every call of a sequence the keys
of `eventMap` are the fids in the epoll set, and every call that fails changes
nothing, exactly when all calls of the sequence are sound. -/
theorem registry_agrees (ops : List RegistryOp) :
    Always step Agrees init ops ∧ Meets step Atomic init ops ↔ Meets step Sound init ops := by
  have hkeep : ∀ s op t, Inv s → s.Sound op → step s op = some t → t.Inv := by
    rintro s op t h hsound hstep
    cases hstep
    exact inv_call h hsound
  exact always_and_meets_iff hkeep (fun s op t h _ => atomic_iff_sound h)
    (fun s h => h.agrees) inv_init ops

/-- The first registration of a handler, where `fi_control` fails. -/
def failedRun : List RegistryOp := [.register_handler ⟨100, 1⟩ ⟨false, true, .other⟩]

/-- It leaves the handler in the map, and its descriptor out of the epoll set. -/
theorem registry_disagrees :
    ¬ (Always step Agrees init failedRun ∧ Meets step Atomic init failedRun) := by
  rintro ⟨h, -⟩
  have hrun : (run step init failedRun).map (fun t => (t.eventMap.has 1, t.set)) =
      some (true, ∅) := by
    decide +kernel
  obtain ⟨t, ht, hfields⟩ := Option.map_eq_some_iff.mp hrun
  rw [Prod.mk.injEq] at hfields
  have hin := (h.last ht 1).mp hfields.1
  rw [hfields.2] at hin
  exact absurd hin (Finset.notMem_empty 1)

end Registry

end Hpnl
