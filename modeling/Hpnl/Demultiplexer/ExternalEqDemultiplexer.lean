import Hpnl.Demultiplexer.Epoll
import Hpnl.Lib.Transition

/-!
# The external event queue demultiplexer

`ExternalEqDemultiplexer::add_event` and `delete_event` hold `mtx` while they
update first the epoll set and then `fid_map`.  `wait_event` does not: it waits,
and then evaluates `fid_map[(fid*)event.data.ptr]`, where `event` is the member
that the two calls fill in as well.

* `ExternalEqWorld.step` — the steps of the three functions, one at a time.
* `step_cases` — what a step can do to the map.
* `fid_map_faithful` — **the map is right in every state and every event is looked
  up as its own queue exactly when** each lookup finds `event.data.ptr` in the map,
  and finds there the fid that was reported, if that fid's queue is added.
* `fid_map_lost` — a queue whose event is looked up between the two steps of
  `add_event` has a null entry, which the insertion keeps.
-/

namespace Hpnl

open Transition

/-- A `fid_eq*` that is not null.  The queue contains its fid, `&eq->fid`, which
stands for its address. -/
structure FidEq where
  fid : Fid
  deriving DecidableEq, Repr

/-- A call that holds `mtx`, and the step it takes next; `own` marks the call of
`delete_event` that `wait_event` makes. -/
inductive ExternalEqCall where
  /-- `add_event` adds the fid to the epoll set. -/
  | add (eq : FidEq)
  /-- `add_event` inserts the entry. -/
  | insert (eq : FidEq)
  /-- `delete_event` deletes the fid from the epoll set. -/
  | delete (eq : FidEq) (own : Bool)
  /-- `delete_event` erases the entry. -/
  | erase (eq : FidEq) (own : Bool)
  deriving DecidableEq, Repr

namespace ExternalEqCall

/-- The queue that a call adds. -/
def adding : ExternalEqCall → Option FidEq
  | add eq | insert eq => some eq
  | _ => none

/-- The queue that a call deletes. -/
def deleting : ExternalEqCall → Option FidEq
  | delete eq _ | erase eq _ => some eq
  | _ => none

end ExternalEqCall

/-- Where the waiting thread is. -/
inductive ExternalEqWait where
  | idle
  | waiting
  /-- `epoll_wait` has reported an event for this fid. -/
  | reported (id : Fid)
  /-- The lookup has given this queue, or null. -/
  | looked (eq : Option FidEq)
  /-- A shutdown has been read, and `delete_event` is running. -/
  | deleting
  deriving DecidableEq, Repr

/-- An external demultiplexer and the threads that use it.  An entry of `fid_map`
can be null.  The ghost `added` are the queues for which `add_event` has returned 0
and `delete_event` has not been called since. -/
structure ExternalEqWorld where
  fid_map : StdMap Fid (Option FidEq)
  epoll : Epoll
  mtx : Option ExternalEqCall
  waiter : ExternalEqWait
  added : Finset FidEq

/-- A step of some thread. -/
inductive ExternalEqOp where
  /-- `add_event` takes the lock and counts the fid. -/
  | add_event (eq : FidEq)
  /-- Its epoll part. -/
  | add (control add : Bool)
  /-- `fid_map.insert(std::make_pair(&eq->fid, eq))`; it returns 0. -/
  | insert
  /-- `delete_event` takes the lock and counts the fid. -/
  | delete_event (eq : FidEq)
  /-- Its epoll part. -/
  | delete (control del : Bool)
  /-- `fid_map.erase(&eq->fid)`; it returns 0. -/
  | erase
  /-- `wait_event` finds the map not empty. -/
  | enter
  /-- `epoll_wait` times out or fails, or `fi_trywait` fails and the caller's `*eq` is
  null. -/
  | nothing
  /-- `epoll_wait` reports a fid of the set. -/
  | wait (id : Fid)
  /-- `*eq = fid_map[(fid*)event.data.ptr]`. -/
  | lookup
  /-- The queue is null, or no event is read from it, or not a shutdown. -/
  | unread
  /-- A shutdown is read: `wait_event` calls `delete_event`. -/
  | shutdown
  deriving DecidableEq, Repr

namespace ExternalEqWorld

/-- A demultiplexer without queues. -/
def init : ExternalEqWorld :=
  { fid_map := ∅
    epoll := {}
    mtx := none
    waiter := .idle
    added := ∅ }

/-- A call of `delete_event` releases the lock and returns. -/
def release (s : ExternalEqWorld) (own : Bool) : ExternalEqWorld :=
  { s with mtx := none, waiter := if own then .idle else s.waiter }

/-- `delete_event` takes the lock and counts the fid; it returns when there is no
entry. -/
def delete_event (s : ExternalEqWorld) (eq : FidEq) (own : Bool) : ExternalEqWorld :=
  if s.fid_map.has eq.fid then
    { s with added := s.added.erase eq, mtx := some (.delete eq own) }
  else { s with added := s.added.erase eq }.release own

/-- One step of some thread. -/
def step (s : ExternalEqWorld) : ExternalEqOp → Option ExternalEqWorld
  | .add_event eq =>
      if s.mtx = none then
        if s.fid_map.has eq.fid then some s else some { s with mtx := some (.add eq) }
      else none
  | .add control add =>
      match s.mtx with
      | some (.add eq) =>
          let ret := s.epoll.ctlAdd control add eq.fid
          some { s with epoll := ret.1, mtx := if ret.2 = 0 then some (.insert eq) else none }
      | _ => none
  | .insert =>
      match s.mtx with
      | some (.insert eq) =>
          some { s with
            fid_map := s.fid_map.insertNew eq.fid (some eq)
            mtx := none
            added := insert eq s.added }
      | _ => none
  | .delete_event eq => if s.mtx = none then some (s.delete_event eq false) else none
  | .delete control del =>
      match s.mtx with
      | some (.delete eq own) =>
          let ret := s.epoll.ctlDel control del eq.fid
          if ret.2 = 0 then some { s with epoll := ret.1, mtx := some (.erase eq own) }
          else some ({ s with epoll := ret.1 }.release own)
      | _ => none
  | .erase =>
      match s.mtx with
      | some (.erase eq own) => some ({ s with fid_map := s.fid_map.remove eq.fid }.release own)
      | _ => none
  | .enter =>
      if s.waiter = .idle ∧ s.fid_map.entries ≠ [] then some { s with waiter := .waiting }
      else none
  | .nothing => if s.waiter = .waiting then some { s with waiter := .idle } else none
  | .wait id =>
      if s.waiter = .waiting ∧ id ∈ s.epoll.set then
        some { s with waiter := .reported id, epoll := { s.epoll with event := id } }
      else none
  | .lookup =>
      match s.waiter with
      | .reported _ =>
          some { s with
            fid_map := s.fid_map.index s.epoll.event none
            waiter := .looked (s.fid_map.value s.epoll.event none) }
      | _ => none
  | .unread =>
      match s.waiter with
      | .looked _ => some { s with waiter := .idle }
      | _ => none
  | .shutdown =>
      match s.waiter with
      | .looked (some eq) =>
          if s.mtx = none then some ({ s with waiter := .deleting }.delete_event eq true)
          else none
      | _ => none

/-- Each entry `f -> eq` has a queue, and `f` is its fid. -/
def Faithful (s : ExternalEqWorld) : Prop :=
  ∀ f eq, s.fid_map.find? f = some eq → ∃ q, eq = some q ∧ q.fid = f

/-- The event reported for the fid of an added queue is looked up as that queue. -/
def LookedUp (s : ExternalEqWorld) : ExternalEqOp → Prop
  | .lookup =>
      match s.waiter with
      | .reported id =>
          ∀ eq ∈ s.added, eq.fid = id → s.fid_map.value s.epoll.event none = some eq
      | _ => True
  | _ => True

/-- What is looked up is a key of the map. -/
def Keyed (s : ExternalEqWorld) : ExternalEqOp → Prop
  | .lookup => s.fid_map.has s.epoll.event
  | _ => True

/-- What is looked up is the fid that was reported, if its queue is added still. -/
def Kept (s : ExternalEqWorld) : ExternalEqOp → Prop
  | .lookup =>
      match s.waiter with
      | .reported id => ∀ eq ∈ s.added, eq.fid = id → s.epoll.event = id
      | _ => True
  | _ => True

/-! ## What a step does -/

/-- A step that leaves the map alone and adds no queue. -/
structure Same (s t : ExternalEqWorld) : Prop where
  fid_map : t.fid_map = s.fid_map
  added : t.added ⊆ s.added
  adding : ∀ eq, t.mtx.bind ExternalEqCall.adding = some eq →
    s.mtx.bind ExternalEqCall.adding = some eq ∨ s.fid_map.find? eq.fid = none
  deleting : ∀ eq, t.mtx.bind ExternalEqCall.deleting = some eq →
    s.mtx.bind ExternalEqCall.deleting = some eq ∨ eq ∉ t.added

/-- A step of the waiting thread. -/
theorem Same.of_waiter (s : ExternalEqWorld) (e : Epoll) (w : ExternalEqWait) :
    Same s { s with epoll := e, waiter := w } :=
  ⟨rfl, Finset.Subset.rfl, fun _ h => Or.inl h, fun _ h => Or.inl h⟩

/-- A call that returns without having touched the map. -/
theorem Same.of_return (s : ExternalEqWorld) (e : Epoll) (w : ExternalEqWait) :
    Same s { s with epoll := e, mtx := none, waiter := w } :=
  ⟨rfl, Finset.Subset.rfl, fun _ h => (nomatch h), fun _ h => (nomatch h)⟩

theorem Same.of_delete_event (s : ExternalEqWorld) (w : ExternalEqWait) (eq : FidEq)
    (own : Bool) : Same s ({ s with waiter := w }.delete_event eq own) := by
  unfold delete_event
  split
  · refine ⟨rfl, Finset.erase_subset _ _, fun _ h => (nomatch h), fun eq' h => Or.inr ?_⟩
    obtain rfl : eq = eq' := Option.some.inj h
    exact Finset.notMem_erase _ _
  · exact ⟨rfl, Finset.erase_subset _ _, fun _ h => (nomatch h), fun _ h => (nomatch h)⟩

/-- **What a step can do to the map**: the insertion of `add_event`, the erasure of
`delete_event` and the lookup of `wait_event` change it. -/
theorem step_cases {s t : ExternalEqWorld} {op : ExternalEqOp} (h : s.step op = some t) :
    (∃ eq, s.mtx = some (.insert eq) ∧ t = { s with
        fid_map := s.fid_map.insertNew eq.fid (some eq)
        mtx := none
        added := insert eq s.added }) ∨
      (∃ eq own, s.mtx = some (.erase eq own) ∧
        t = { s with fid_map := s.fid_map.remove eq.fid }.release own) ∨
      (∃ id, op = .lookup ∧ s.waiter = .reported id ∧ t = { s with
        fid_map := s.fid_map.index s.epoll.event none
        waiter := .looked (s.fid_map.value s.epoll.event none) }) ∨
      (op ≠ .lookup ∧ Same s t) := by
  cases op with
  | add_event eq =>
    refine Or.inr (Or.inr (Or.inr ⟨by simp, ?_⟩))
    rw [step] at h
    split at h
    · split at h
      · cases h
        exact Same.of_waiter _ _ _
      · rename_i hcount
        cases h
        refine ⟨rfl, Finset.Subset.rfl, fun eq' h => Or.inr ?_, fun eq' h => ?_⟩
        · obtain rfl : eq = eq' := Option.some.inj h
          exact StdMap.has_eq_false_iff.mp (by simpa using hcount)
        · cases h
    · exact absurd h (by simp)
  | add control add =>
    refine Or.inr (Or.inr (Or.inr ⟨by simp, ?_⟩))
    rw [step] at h
    split at h
    · rename_i eq hmtx
      cases h
      refine ⟨rfl, Finset.Subset.rfl, fun eq' h => Or.inl ?_, fun eq' h => ?_⟩
      all_goals dsimp only at h
      · rw [hmtx]
        by_cases hret : (s.epoll.ctlAdd control add eq.fid).2 = 0
        · rw [if_pos hret] at h
          exact h
        · rw [if_neg hret] at h
          exact absurd h (by simp)
      · by_cases hret : (s.epoll.ctlAdd control add eq.fid).2 = 0
        · rw [if_pos hret] at h
          exact absurd h (by simp [ExternalEqCall.deleting])
        · rw [if_neg hret] at h
          exact absurd h (by simp)
    · exact absurd h (by simp)
  | insert =>
    rw [step] at h
    split at h
    · rename_i eq hmtx
      exact Or.inl ⟨eq, hmtx, (Option.some.inj h).symm⟩
    · exact absurd h (by simp)
  | delete_event eq =>
    refine Or.inr (Or.inr (Or.inr ⟨by simp, ?_⟩))
    rw [step] at h
    split at h
    · cases h
      exact Same.of_delete_event s s.waiter eq false
    · exact absurd h (by simp)
  | delete control del =>
    refine Or.inr (Or.inr (Or.inr ⟨by simp, ?_⟩))
    rw [step] at h
    split at h
    · rename_i eq own hmtx
      dsimp only at h
      split at h
      · cases h
        refine ⟨rfl, Finset.Subset.rfl, fun eq' h => ?_, fun eq' h => Or.inl ?_⟩
        · cases h
        · rw [hmtx]
          exact h
      · cases h
        exact Same.of_return _ _ _
    · exact absurd h (by simp)
  | erase =>
    rw [step] at h
    split at h
    · rename_i eq own hmtx
      exact Or.inr (Or.inl ⟨eq, own, hmtx, (Option.some.inj h).symm⟩)
    · exact absurd h (by simp)
  | lookup =>
    rw [step] at h
    split at h
    · rename_i id hwaiter
      exact Or.inr (Or.inr (Or.inl ⟨id, rfl, hwaiter, (Option.some.inj h).symm⟩))
    · exact absurd h (by simp)
  | shutdown =>
    refine Or.inr (Or.inr (Or.inr ⟨by simp, ?_⟩))
    rw [step] at h
    split at h
    · split at h
      · cases h
        exact Same.of_delete_event s _ _ true
      · exact absurd h (by simp)
    · exact absurd h (by simp)
  | enter | nothing | wait id | unread =>
    refine Or.inr (Or.inr (Or.inr ⟨by simp, ?_⟩))
    rw [step] at h
    split at h
    · cases h
      exact Same.of_waiter _ _ _
    · exact absurd h (by simp)

/-! ## The invariant -/

/-- The entries are right, the added queues are among them, a queue that is being
added has no entry yet, and one that is being deleted is no longer added. -/
structure Inv (s : ExternalEqWorld) : Prop where
  faithful : s.Faithful
  entered : ∀ eq ∈ s.added, s.fid_map.find? eq.fid = some (some eq)
  adding : ∀ eq, s.mtx.bind ExternalEqCall.adding = some eq → s.fid_map.find? eq.fid = none
  deleting : ∀ eq, s.mtx.bind ExternalEqCall.deleting = some eq → eq ∉ s.added

theorem inv_init : init.Inv := by
  refine ⟨fun f eq h => ?_, fun eq h => ?_, fun _ h => (nomatch h), fun _ h => (nomatch h)⟩
  · exact absurd h StdMap.find?_empty_ne
  · exact absurd h (Finset.notMem_empty eq)

theorem inv_same {s t : ExternalEqWorld} (h : s.Inv) (hst : Same s t) : t.Inv := by
  refine ⟨?_, ?_, ?_, ?_⟩
  · unfold Faithful
    rw [hst.fid_map]
    exact h.faithful
  · intro eq heq
    rw [hst.fid_map]
    exact h.entered eq (hst.added heq)
  · intro eq heq
    rw [hst.fid_map]
    exact (hst.adding eq heq).elim (h.adding eq) id
  · intro eq heq
    exact (hst.deleting eq heq).elim (fun hs hin => h.deleting eq hs (hst.added hin)) id

/-- The insertion of `add_event` finds no entry, so it makes the right one. -/
theorem inv_insert {s : ExternalEqWorld} (h : s.Inv) {eq : FidEq}
    (hmtx : s.mtx = some (.insert eq)) :
    Inv { s with
      fid_map := s.fid_map.insertNew eq.fid (some eq)
      mtx := none
      added := insert eq s.added } := by
  have hnone : s.fid_map.find? eq.fid = none := h.adding eq (by rw [hmtx]; rfl)
  rw [StdMap.insertNew_of_none _ hnone]
  refine ⟨fun f eq' hf => ?_, fun eq' heq' => ?_, fun _ h => (nomatch h), fun _ h => (nomatch h)⟩
  · have hf' : (s.fid_map.assign eq.fid (some eq)).find? f = some eq' := hf
    rw [StdMap.find?_assign] at hf'
    split at hf'
    · rename_i hfid
      exact ⟨eq, (Option.some.inj hf').symm, hfid⟩
    · exact h.faithful f eq' hf'
  · show (s.fid_map.assign eq.fid (some eq)).find? eq'.fid = some (some eq')
    rcases Finset.mem_insert.mp heq' with rfl | hold
    · exact StdMap.find?_assign_self _ _ _
    · have hentry := h.entered eq' hold
      -- the fid of a queue that is added has an entry, and the new one's has none
      have hne : eq.fid ≠ eq'.fid := by
        intro hfid
        rw [← hfid, hnone] at hentry
        exact absurd hentry (by simp)
      rw [StdMap.find?_assign_of_ne _ _ hne]
      exact hentry

/-- The erasure of `delete_event` leaves the entries of the other queues. -/
theorem inv_erase {s : ExternalEqWorld} (h : s.Inv) {eq : FidEq} {own : Bool}
    (hmtx : s.mtx = some (.erase eq own)) :
    Inv ({ s with fid_map := s.fid_map.remove eq.fid }.release own) := by
  have hgone : eq ∉ s.added := h.deleting eq (by rw [hmtx]; rfl)
  refine ⟨fun f eq' hf => ?_, fun eq' heq' => ?_, fun _ h => (nomatch h), fun _ h => (nomatch h)⟩
  · exact h.faithful f eq' (StdMap.find?_remove_eq_some.mp hf).2
  · show (s.fid_map.remove eq.fid).find? eq'.fid = some (some eq')
    have hne : eq.fid ≠ eq'.fid := by
      intro hfid
      obtain rfl : eq = eq' := by cases eq; cases eq'; exact congrArg FidEq.mk hfid
      exact hgone heq'
    rw [StdMap.find?_remove_of_ne _ hne]
    exact h.entered eq' heq'

/-- A step keeps the invariant when what it looks up is a key. -/
theorem inv_step {s t : ExternalEqWorld} {op : ExternalEqOp} (h : s.Inv) (hkey : s.Keyed op)
    (hstep : s.step op = some t) : t.Inv := by
  rcases step_cases hstep with ⟨eq, hmtx, rfl⟩ | ⟨eq, own, hmtx, rfl⟩ | ⟨id, rfl, -, rfl⟩ |
    ⟨-, hsame⟩
  · exact inv_insert h hmtx
  · exact inv_erase h hmtx
  · obtain ⟨eq, hfind⟩ := StdMap.has_eq_true_iff.mp hkey
    rw [StdMap.index_of_some _ hfind]
    exact ⟨h.faithful, h.entered, h.adding, h.deleting⟩
  · exact inv_same h hsame

/-- A lookup that leaves the map right found a key: otherwise it has entered null. -/
theorem keyed_of_faithful {s t : ExternalEqWorld} {op : ExternalEqOp}
    (hstep : s.step op = some t) (ht : t.Faithful) : s.Keyed op := by
  cases op with
  | lookup =>
    rw [step] at hstep
    split at hstep
    · cases hstep
      by_contra hkey
      have hnone : s.fid_map.find? s.epoll.event = none :=
        StdMap.has_eq_false_iff.mp (by simpa [Keyed] using hkey)
      obtain ⟨eq, heq, -⟩ := ht s.epoll.event none (by
        show (s.fid_map.index s.epoll.event none).find? s.epoll.event = some none
        rw [StdMap.find?_index_self, StdMap.value, hnone]
        rfl)
      exact absurd heq (by simp)
    · exact absurd hstep (by simp)
  | _ => trivial

/-- On a right map an event is looked up as its queue when `event.data.ptr` is still
the fid reported, and only then. -/
theorem lookedUp_iff {s : ExternalEqWorld} {op : ExternalEqOp} (h : s.Inv) :
    s.LookedUp op ↔ s.Kept op := by
  cases op with
  | lookup =>
    cases hwaiter : s.waiter with
    | reported id =>
      simp only [LookedUp, Kept, hwaiter]
      refine forall_congr' fun eq => forall_congr' fun heq => forall_congr' fun hid => ?_
      have hentry : s.fid_map.find? id = some (some eq) := hid ▸ h.entered eq heq
      constructor
      · intro hvalue
        cases hfind : s.fid_map.find? s.epoll.event with
        | none =>
          rw [StdMap.value, hfind] at hvalue
          exact absurd hvalue (by simp)
        | some eq' =>
          rw [StdMap.value_of_some _ hfind] at hvalue
          obtain ⟨q, hq, hfid⟩ := h.faithful _ _ hfind
          obtain rfl : q = eq := Option.some.inj (hq.symm.trans hvalue)
          rw [← hfid, hid]
      · intro hkept
        rw [hkept]
        exact StdMap.value_of_some _ hentry
    | _ => simp only [LookedUp, Kept, hwaiter]
  | _ => exact Iff.rfl

/-! ## Runs -/

/-- **When the map is right.**  A run keeps every entry right and looks every event
of an added queue up as that queue exactly when each lookup finds `event.data.ptr`
among the keys, and finds it to be the fid reported, if that fid's queue is added. -/
theorem fid_map_faithful (ops : List ExternalEqOp) :
    Always step Faithful init ops ∧ Meets step LookedUp init ops ↔
      Meets step Keyed init ops ∧ Meets step Kept init ops := by
  have hkeyed : Always step Faithful init ops ↔ Meets step Keyed init ops :=
    always_iff_meets (fun s h => h.faithful) (fun s op t h hkey hstep => inv_step h hkey hstep)
      (fun s op t _ hstep ht => keyed_of_faithful hstep ht) inv_init ops
  rw [hkeyed]
  constructor
  · rintro ⟨hkey, hlook⟩
    refine ⟨hkey, meets_of_meets (fun s op t h hg hstep => inv_step h hg.1 hstep)
      (fun s op t h hg _ => (lookedUp_iff h).mp hg.2) inv_init ops (hkey.and hlook)⟩
  · rintro ⟨hkey, hkept⟩
    refine ⟨hkey, meets_of_meets (fun s op t h hg hstep => inv_step h hg.1 hstep)
      (fun s op t h hg _ => (lookedUp_iff h).mpr hg.2) inv_init ops (hkey.and hkept)⟩

/-- The queue of a connection is added while the thread waits on the one it listens
with; its event is looked up between the two steps of `add_event`. -/
def lostRun : List ExternalEqOp :=
  [.add_event ⟨1⟩, .add true true, .insert, .enter, .add_event ⟨2⟩, .add true true, .wait 2,
    .lookup, .unread, .insert]

/-- The insertion keeps the null entry: the queue is added, and its events find null. -/
theorem fid_map_lost :
    ¬ (Always step Faithful init lostRun ∧ Meets step LookedUp init lostRun) := by
  rintro ⟨h, -⟩
  have hrun : (run step init lostRun).map (fun t => t.fid_map.find? 2) = some (some none) := by
    decide +kernel
  obtain ⟨t, ht, hfind⟩ := Option.map_eq_some_iff.mp hrun
  obtain ⟨eq, heq, -⟩ := h.last ht 2 none hfind
  exact absurd heq (by simp)

end ExternalEqWorld

end Hpnl
