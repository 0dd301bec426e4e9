import Hpnl.Demultiplexer.ExternalEqDemultiplexer

/-!
# Registering with the external demultiplexer

`ExternalEqDemultiplexer::add_event` and `delete_event`, one call after the other:
each tests `fid_map`, asks the queue for its wait descriptor, changes the epoll set
and then the map.  Where a system call fails both go to an exit that closes `fd`,
which is the queue's own descriptor or has never been set.

* `ExternalRegistry` — the map, the epoll set and which descriptors are open.
* `tryEpoll` — what the two functions have in common.
* `atomic_iff_sound` — when a call that returns -1 changes nothing.
* `fid_map_agrees` — **the map and the epoll set agree after every call, and calls
  that fail change nothing, exactly when** no call that reaches the system gets the
  descriptor and is refused, or is refused the descriptor with a stray `fd`.
* `fid_map_disagrees` — a queue whose descriptor is refused loses it.
-/

namespace Hpnl

open Transition

/-- The answers to one call: whether `fi_control` and `epoll_ctl` succeed, the latter
as far as the epoll set allows, and what `fd` holds beforehand. -/
structure CtlReply where
  control : Bool
  ctl : Bool
  fd : StrayFd
  deriving DecidableEq, Repr

/-- `fid_map`, the fids whose wait descriptors are in the epoll set, those whose wait
descriptors have been closed, and whether `epfd` is open. -/
@[ext] structure ExternalRegistry where
  fid_map : StdMap Fid FidEq
  set : Finset Fid
  closed : Finset Fid
  epfd : Bool

/-- A call, with the answers of the system. -/
inductive ExternalRegistryOp where
  | add_event (eq : FidEq) (r : CtlReply)
  | delete_event (eq : FidEq) (r : CtlReply)
  deriving DecidableEq, Repr

namespace CtlReply

/-- The system gives the descriptor and grants the request, or it does not give the
descriptor and `fd` names nothing that matters. -/
def Sound (r : CtlReply) : Prop := if r.control then r.ctl = true else r.fd = .other

instance (r : CtlReply) : Decidable r.Sound := inferInstanceAs (Decidable (ite _ _ _))

end CtlReply

namespace ExternalRegistry

/-- A demultiplexer without queues. -/
def init : ExternalRegistry := { fid_map := ∅, set := ∅, closed := ∅, epfd := true }

/-- `close(fd)`: a wait descriptor leaves the epoll set, and the epoll descriptor
takes the set with it. -/
def close (s : ExternalRegistry) : StrayFd → ExternalRegistry
  | .wait id => { s with set := s.set.erase id, closed := insert id s.closed }
  | .epfd => { s with set := ∅, epfd := false }
  | .other => s

/-- From `fi_control` on: `possible` is what the epoll set asks of the request, and
`done` the state when it is granted. -/
def tryEpoll (s : ExternalRegistry) (id : Fid) (r : CtlReply) (possible : Prop)
    [Decidable possible] (done : ExternalRegistry) : ExternalRegistry × ℤ :=
  if r.control = false then (s.close r.fd, -1)
  else if s.epfd = false ∨ id ∈ s.closed ∨ ¬ possible ∨ r.ctl = false then
    (s.close (.wait id), -1)
  else (done, 0)

/-- `ExternalEqDemultiplexer::add_event`; a descriptor that is there is not added
again (`EEXIST`). -/
def add_event (s : ExternalRegistry) (eq : FidEq) (r : CtlReply) : ExternalRegistry × ℤ :=
  if s.fid_map.has eq.fid then (s, -1)
  else
    s.tryEpoll eq.fid r (eq.fid ∉ s.set)
      { s with fid_map := s.fid_map.insertNew eq.fid eq, set := insert eq.fid s.set }

/-- `ExternalEqDemultiplexer::delete_event`; a descriptor that is not there is not
deleted (`ENOENT`). -/
def delete_event (s : ExternalRegistry) (eq : FidEq) (r : CtlReply) : ExternalRegistry × ℤ :=
  if s.fid_map.has eq.fid then
    s.tryEpoll eq.fid r (eq.fid ∈ s.set)
      { s with fid_map := s.fid_map.remove eq.fid, set := s.set.erase eq.fid }
  else (s, -1)

/-- One call: the state it leaves and what it returns. -/
def call (s : ExternalRegistry) : ExternalRegistryOp → ExternalRegistry × ℤ
  | .add_event eq r => s.add_event eq r
  | .delete_event eq r => s.delete_event eq r

def step (s : ExternalRegistry) (op : ExternalRegistryOp) : Option ExternalRegistry :=
  some (s.call op).1

/-- The keys of the map are the fids in the epoll set. -/
def Agrees (s : ExternalRegistry) : Prop := ∀ f, s.fid_map.has f = true ↔ f ∈ s.set

/-- A call that returns -1 leaves everything as it was. -/
def Atomic (s : ExternalRegistry) (op : ExternalRegistryOp) : Prop :=
  (s.call op).2 = -1 → (s.call op).1 = s

/-- What the system answers is sound where it is asked: when a queue is added that is
not in the map, or one is deleted that is. -/
def Sound (s : ExternalRegistry) : ExternalRegistryOp → Prop
  | .add_event eq r => s.fid_map.has eq.fid = false → r.Sound
  | .delete_event eq r => s.fid_map.has eq.fid = true → r.Sound

/-! ## What a call does -/

/-- The map and the epoll set agree, and nothing has been closed. -/
structure Inv (s : ExternalRegistry) : Prop where
  agrees : s.Agrees
  open_fds : s.closed = ∅
  open_epfd : s.epfd = true

theorem inv_init : init.Inv := by
  refine ⟨fun f => ⟨fun h => ?_, fun h => absurd h (Finset.notMem_empty f)⟩, rfl, rfl⟩
  obtain ⟨eq, hf⟩ := StdMap.has_eq_true_iff.mp h
  exact absurd hf StdMap.find?_empty_ne

/-- With everything open, every `close` is noticed unless it names something else. -/
theorem close_eq_self_iff {s : ExternalRegistry} (h : s.Inv) (fd : StrayFd) :
    s.close fd = s ↔ fd = .other := by
  constructor
  · intro hclose
    cases fd with
    | wait id =>
      have hclosed : insert id s.closed = s.closed := congrArg ExternalRegistry.closed hclose
      rw [h.open_fds] at hclosed
      exact absurd hclosed (Finset.insert_ne_empty id ∅)
    | epfd =>
      have hepfd : false = s.epfd := congrArg ExternalRegistry.epfd hclose
      exact absurd (hepfd.trans h.open_epfd) (by simp)
    | other => rfl
  · rintro rfl
    rfl

section tryEpoll

variable {s done : ExternalRegistry} {id : Fid} {r : CtlReply} {possible : Prop}
  [Decidable possible]

/-- What comes of a request that the epoll set allows. -/
theorem tryEpoll_of_inv (h : s.Inv) (hpossible : possible) :
    s.tryEpoll id r possible done =
      if r.control = false then (s.close r.fd, -1)
      else if r.ctl = false then (s.close (.wait id), -1)
      else (done, 0) := by
  simp [tryEpoll, h.open_epfd, h.open_fds, hpossible]

/-- Such a request fails without a trace, if it fails, exactly when the answers are
sound. -/
theorem tryEpoll_atomic_iff (h : s.Inv) (hpossible : possible) :
    ((s.tryEpoll id r possible done).2 = -1 → (s.tryEpoll id r possible done).1 = s) ↔
      r.Sound := by
  rw [tryEpoll_of_inv h hpossible, CtlReply.Sound]
  cases hcontrol : r.control with
  | false => simp [close_eq_self_iff h]
  | true =>
    cases hctl : r.ctl with
    | false => simp [close_eq_self_iff h]
    | true => simp

/-- With sound answers it is granted, or nothing happens. -/
theorem tryEpoll_of_sound (h : s.Inv) (hpossible : possible) (hsound : r.Sound) :
    (s.tryEpoll id r possible done).1 = s ∨ (s.tryEpoll id r possible done).1 = done := by
  rw [tryEpoll_of_inv h hpossible]
  unfold CtlReply.Sound at hsound
  cases hcontrol : r.control with
  | false =>
    simp only [hcontrol, Bool.false_eq_true, if_false] at hsound
    exact Or.inl ((close_eq_self_iff h r.fd).mpr hsound)
  | true =>
    simp only [hcontrol, if_true] at hsound
    exact Or.inr (by simp [hsound])

end tryEpoll

/-- **A call is atomic exactly when it is sound.** -/
theorem atomic_iff_sound {s : ExternalRegistry} {op : ExternalRegistryOp} (h : s.Inv) :
    s.Atomic op ↔ s.Sound op := by
  cases op with
  | add_event eq r =>
    cases hhas : s.fid_map.has eq.fid with
    | true => simp [Atomic, Sound, call, add_event, hhas]
    | false =>
      have hnot : eq.fid ∉ s.set := fun hin => by
        rw [(h.agrees eq.fid).mpr hin] at hhas
        exact absurd hhas (by simp)
      simp only [Atomic, Sound, call, add_event, hhas, Bool.false_eq_true, if_false, true_imp_iff]
      exact tryEpoll_atomic_iff h hnot
  | delete_event eq r =>
    cases hhas : s.fid_map.has eq.fid with
    | false => simp [Atomic, Sound, call, delete_event, hhas]
    | true =>
      simp only [Atomic, Sound, call, delete_event, hhas, if_true, true_imp_iff]
      exact tryEpoll_atomic_iff h ((h.agrees eq.fid).mp hhas)

/-- A sound call changes nothing, or enters a queue that is not there, or takes one
out. -/
theorem call_of_sound {s : ExternalRegistry} {op : ExternalRegistryOp} (h : s.Inv)
    (hsound : s.Sound op) :
    (s.call op).1 = s ∨
      (∃ eq, (s.call op).1 =
        { s with fid_map := s.fid_map.assign eq.fid eq, set := insert eq.fid s.set }) ∨
      (∃ eq : FidEq, (s.call op).1 =
        { s with fid_map := s.fid_map.remove eq.fid, set := s.set.erase eq.fid }) := by
  cases op with
  | add_event eq r =>
    cases hhas : s.fid_map.has eq.fid with
    | true => exact Or.inl (by simp [call, add_event, hhas])
    | false =>
      have hnot : eq.fid ∉ s.set := fun hin => by
        rw [(h.agrees eq.fid).mpr hin] at hhas
        exact absurd hhas (by simp)
      simp only [call, add_event, hhas, Bool.false_eq_true, if_false,
        StdMap.insertNew_of_none eq (StdMap.has_eq_false_iff.mp hhas)]
      rcases tryEpoll_of_sound h hnot (hsound hhas) with heq | heq
      · exact Or.inl heq
      · exact Or.inr (Or.inl ⟨eq, heq⟩)
  | delete_event eq r =>
    cases hhas : s.fid_map.has eq.fid with
    | false => exact Or.inl (by simp [call, delete_event, hhas])
    | true =>
      simp only [call, delete_event, hhas, if_true]
      rcases tryEpoll_of_sound h ((h.agrees eq.fid).mp hhas) (hsound hhas) with heq | heq
      · exact Or.inl heq
      · exact Or.inr (Or.inr ⟨eq, heq⟩)

theorem inv_call {s : ExternalRegistry} {op : ExternalRegistryOp} (h : s.Inv)
    (hsound : s.Sound op) : (s.call op).1.Inv := by
  rcases call_of_sound h hsound with heq | ⟨eq, heq⟩ | ⟨eq, heq⟩
  · rw [heq]
    exact h
  · rw [heq]
    refine ⟨fun f => ?_, h.open_fds, h.open_epfd⟩
    show (s.fid_map.assign eq.fid eq).has f = true ↔ f ∈ insert eq.fid s.set
    rw [StdMap.has_assign_iff, h.agrees f, Finset.mem_insert]
  · rw [heq]
    refine ⟨fun f => ?_, h.open_fds, h.open_epfd⟩
    show (s.fid_map.remove eq.fid).has f = true ↔ f ∈ s.set.erase eq.fid
    rw [StdMap.has_remove_iff, h.agrees f, Finset.mem_erase]

/-! ## Runs -/

/-- **When the map and the epoll set agree.**  After every call of a sequence the keys
of `fid_map` are the fids in the epoll set, and every call that returns -1 changes
nothing, exactly when all calls of the sequence are sound. -/
theorem fid_map_agrees (ops : List ExternalRegistryOp) :
    Always step Agrees init ops ∧ Meets step Atomic init ops ↔ Meets step Sound init ops := by
  have hkeep : ∀ s op t, Inv s → s.Sound op → step s op = some t → t.Inv := by
    rintro s op t h hsound hstep
    cases hstep
    exact inv_call h hsound
  exact always_and_meets_iff hkeep (fun s op t h _ => atomic_iff_sound h)
    (fun s h => h.agrees) inv_init ops

/-- A queue is added, and `epoll_ctl` refuses its descriptor. -/
def refusedRun : List ExternalRegistryOp := [.add_event ⟨1⟩ ⟨true, false, .other⟩]

/-- The call closes the wait descriptor of a queue that goes on being used. -/
theorem fid_map_disagrees :
    ¬ (Always step Agrees init refusedRun ∧ Meets step Atomic init refusedRun) := by
  rintro ⟨-, h⟩
  have hatomic : init.Atomic (.add_event ⟨1⟩ ⟨true, false, .other⟩) := (h _ rfl).1
  have hsound := (atomic_iff_sound inv_init).mp hatomic (by decide +kernel)
  exact absurd hsound (by decide)

end ExternalRegistry

end Hpnl
