import Hpnl.Service.Workers

/-!
# The objects made for the workers

`Service::init` makes a `CqDemultiplexer` for each worker and `start` a `CqThread`,
`ExternalCqService::init` an `ExternalCqDemultiplexer`.  Each is kept in an array of
pointers, null at first, from which the destructor deletes it.  The loops of
`~Service` are left after one round by a client, and `ExternalCqService::init` deletes
what it has made when one object cannot be initialized, but leaves the pointers.

* `WorkerArray` — the pointers, and what has been made and deleted through them.
* `makeLoop`, `deleteLoop` — the loops, with what they come to.
* `ServiceObjects.life`, `ExternalCqObjects.life` — from construction to destruction.
* `proactor_init` — `init` comes as far as it does in `WorkerService`.
* `deletedOnce_iff` — **when every object is deleted exactly once**: a `Service` of a
  server, or of a client that makes objects for one worker at most; an
  `ExternalCqService` whose objects are all initialized.
* `not_deletedOnce` — a client with two workers, and a failing `init` with one.
-/

namespace Hpnl

open WorkerService

/-- A number of workers that fits the arrays. -/
structure WorkerNum where
  val : Int32
  pos : 0 < val.toInt
  le : val.toInt ≤ MAX_WORKERS

/-- An array with a pointer for each worker.  `slot i` is whether the pointer is not
null, and then it points to the object of worker `i`, which may have been deleted;
`made` and `deleted` are the workers for which there was a `new` and a `delete`. -/
@[ext] structure WorkerArray where
  slot : ℕ → Bool
  made : List ℕ
  deleted : List ℕ

namespace WorkerArray

/-- `{}`. -/
def null : WorkerArray := { slot := fun _ => false, made := [], deleted := [] }

/-- `array[i] = new …`. -/
def make (a : WorkerArray) (i : ℕ) : WorkerArray :=
  { a with slot := Function.update a.slot i true, made := a.made ++ [i] }

/-- `delete array[i]`, which does nothing for a null pointer and leaves the pointer. -/
def delete (a : WorkerArray) (i : ℕ) : WorkerArray :=
  if a.slot i then { a with deleted := a.deleted ++ [i] } else a

/-- A loop that makes and initializes objects and is left at the first failure; and
whether there was none. -/
def makeLoop (init : ℕ → Bool) : List ℕ → WorkerArray → WorkerArray × Bool
  | [], a => (a, true)
  | i :: is, a => if init i then makeLoop init is (a.make i) else (a.make i, false)

/-- A loop that deletes objects; `once` is whether it ends with a `break`. -/
def deleteLoop (once : Bool) : List ℕ → WorkerArray → WorkerArray
  | [], a => a
  | i :: is, a => if once then a.delete i else deleteLoop once is (a.delete i)

/-- Everything that was made has been deleted once. -/
def DeletedOnce (a : WorkerArray) : Prop := ∀ i ∈ a.made, a.deleted.count i = 1

instance (a : WorkerArray) : Decidable a.DeletedOnce :=
  inferInstanceAs (Decidable (∀ i ∈ a.made, a.deleted.count i = 1))

/-! ## What the loops come to -/

theorem slot_make (a : WorkerArray) (i j : ℕ) :
    (a.make i).slot j = (decide (j = i) || a.slot j) := by
  by_cases hj : j = i
  · simp [make, hj]
  · simp [make, hj]

/-- The workers of the rounds that are begun, `untilFailure`, have their objects. -/
theorem makeLoop_eq (init : ℕ → Bool) (is : List ℕ) (a : WorkerArray) :
    makeLoop init is a =
      ({ slot := fun i => decide (i ∈ (untilFailure init is).1) || a.slot i
         made := a.made ++ (untilFailure init is).1
         deleted := a.deleted }, (untilFailure init is).2) := by
  induction is generalizing a with
  | nil => simp [makeLoop, untilFailure]
  | cons i is ih =>
    unfold makeLoop untilFailure
    split
    · rw [ih]
      refine Prod.ext (WorkerArray.ext (funext fun j => ?_) ?_ rfl) rfl
      · simp [slot_make, Bool.or_assoc, Bool.or_left_comm]
      · exact List.append_assoc ..
    · refine Prod.ext (WorkerArray.ext (funext fun j => ?_) rfl rfl) rfl
      simp [slot_make]

/-- A loop without `break` deletes what its pointers point to. -/
theorem deleteLoop_eq (is : List ℕ) (a : WorkerArray) :
    deleteLoop false is a = { a with deleted := a.deleted ++ is.filter a.slot } := by
  induction is generalizing a with
  | nil => simp [deleteLoop]
  | cons i is ih =>
    show deleteLoop false is (a.delete i) = _
    rw [ih]
    unfold delete
    cases hslot : a.slot i with
    | false => simp [hslot]
    | true => simp [hslot]

theorem made_deleteLoop (once : Bool) (is : List ℕ) (a : WorkerArray) :
    (deleteLoop once is a).made = a.made := by
  induction is generalizing a with
  | nil => rfl
  | cons i is ih =>
    have hdelete : (a.delete i).made = a.made := by
      unfold delete
      split <;> rfl
    unfold deleteLoop
    split
    · exact hdelete
    · exact (ih (a.delete i)).trans hdelete

/-- With a `break` there is one round at most. -/
theorem deleteLoop_once (is : List ℕ) (a : WorkerArray) :
    deleteLoop true is a = deleteLoop false (is.take 1) a := by
  cases is with
  | nil => rfl
  | cons i is => rfl

/-- Objects that are made and not deleted until a loop over `is` are deleted once
exactly when the loop comes to all of them. -/
theorem deletedOnce_deleteLoop {is : List ℕ} {a : WorkerArray} (hnone : a.deleted = [])
    (hslot : ∀ i ∈ a.made, a.slot i = true) (hnodup : is.Nodup) :
    (deleteLoop false is a).DeletedOnce ↔ ∀ i ∈ a.made, i ∈ is := by
  rw [deleteLoop_eq]
  simp only [DeletedOnce, hnone, List.nil_append]
  refine forall₂_congr fun i hi => ?_
  rw [List.count_filter (hslot i hi)]
  constructor
  · intro hone
    exact List.count_pos_iff.mp (by omega)
  · exact fun hin => List.count_eq_one_of_mem hnodup hin

end WorkerArray

open WorkerArray

/-! ## The rounds of the loops -/

variable {n : WorkerNum}

theorem nodup_workers (n : Int32) : (workers n).Nodup := List.nodup_range

/-- There is a first worker. -/
theorem workers_eq_cons (n : WorkerNum) :
    ∃ is, workers n.val = 0 :: is ∧ (is = [] ↔ n.val.toInt = 1) ∧ 0 ∉ is := by
  have hpos := n.pos
  obtain ⟨k, hk⟩ : ∃ k, n.val.toInt.toNat = k + 1 := ⟨n.val.toInt.toNat - 1, by omega⟩
  refine ⟨(List.range k).map Nat.succ, ?_, ?_, by simp⟩
  · rw [workers, hk, List.range_succ_eq_map]
  · rw [List.map_eq_nil_iff, List.range_eq_nil]
    omega

theorem zero_mem_workers (n : WorkerNum) : 0 ∈ workers n.val := by
  obtain ⟨is, hcons, -⟩ := workers_eq_cons n
  rw [hcons]
  exact List.mem_cons_self

/-- The first round is begun. -/
theorem head_mem_untilFailure (init : ℕ → Bool) (i : ℕ) (is : List ℕ) :
    i ∈ (untilFailure init (i :: is)).1 := by
  unfold untilFailure
  split <;> exact List.mem_cons_self

/-- All rounds are begun when nothing fails. -/
theorem untilFailure_snd {init : ℕ → Bool} {is : List ℕ} :
    (untilFailure init is).2 = true ↔ ∀ i ∈ is, init i = true := by
  induction is with
  | nil => simp [untilFailure]
  | cons i is ih =>
    unfold untilFailure
    split
    · rename_i hi
      simp [ih, hi]
    · rename_i hi
      simp [hi]

theorem untilFailure_fst {init : ℕ → Bool} {is : List ℕ} (h : (untilFailure init is).2 = true) :
    (untilFailure init is).1 = is := by
  induction is with
  | nil => rfl
  | cons i is ih =>
    unfold untilFailure at h ⊢
    split at h
    · rename_i hi
      rw [if_pos hi, ih h]
    · exact absurd h (by simp)

/-- Only the first round is begun when there is but one, or when it fails. -/
theorem untilFailure_single_iff (init : ℕ → Bool) {is : List ℕ} (hnot : 0 ∉ is) :
    (∀ i ∈ (untilFailure init (0 :: is)).1, i ∈ [0]) ↔ is = [] ∨ init 0 = false := by
  unfold untilFailure
  cases hinit : init 0 with
  | false => simp
  | true =>
    simp only [if_true, List.mem_cons, forall_eq_or_imp, List.not_mem_nil, or_false, true_and,
      Bool.true_eq_false]
    cases is with
    | nil => simp [untilFailure]
    | cons j js =>
      constructor
      · intro hall
        have hj := hall j (head_mem_untilFailure init j js)
        exact absurd (List.mem_cons.mpr (Or.inl hj.symm)) hnot
      · exact fun hnil => absurd hnil (by simp)

/-- The rounds that are begun are the first ones. -/
theorem isPrefix_untilFailure (init : ℕ → Bool) (is : List ℕ) :
    (untilFailure init is).1 <+: is := by
  induction is with
  | nil => exact List.prefix_refl []
  | cons i is ih =>
    unfold untilFailure
    split
    · exact List.prefix_cons_inj i |>.mpr ih
    · exact ⟨is, rfl⟩

/-- They are counted from 0. -/
theorem range_length_untilFailure (init : ℕ → Bool) (n : Int32) :
    List.range (untilFailure init (workers n)).1.length = (untilFailure init (workers n)).1 := by
  have hprefix := isPrefix_untilFailure init (workers n)
  unfold workers at hprefix ⊢
  have hle : (untilFailure init (List.range n.toInt.toNat)).1.length ≤ n.toInt.toNat := by
    simpa using hprefix.length_le
  have htake := List.prefix_iff_eq_take.mp hprefix
  rw [List.take_range, Nat.min_eq_left hle] at htake
  exact htake.symm

/-! ## `Service` -/

/-- The parts of a `Service` that have to do with the objects; `proactor` is whether
that pointer is not null. -/
structure ServiceObjects where
  cq_demultiplexer : WorkerArray
  cqThread : WorkerArray
  proactor : Bool

/-- The `init` of the `MsgStack` and that of the `EqDemultiplexer` succeed. -/
def WorkerInit.opensMsg (c : WorkerInit) (n : WorkerNum) : Bool :=
  c.fabric && (untilFailure (fun i => c.opens i ≠ nullptr) (workers n.val)).2 && c.eq

namespace ServiceObjects

/-- `Service::Service`. -/
def construct : ServiceObjects :=
  { cq_demultiplexer := null
    cqThread := null
    proactor := false }

/-- `Service::init(msg)`, with what the calls to the libraries return. -/
def init (msg : Bool) (n : WorkerNum) (c : WorkerInit) (s : ServiceObjects) : ServiceObjects :=
  if msg then
    if c.opensMsg n then
      let r := makeLoop c.cq (workers n.val) s.cq_demultiplexer
      { s with cq_demultiplexer := r.1, proactor := r.2 || s.proactor }
    else s
  else { s with proactor := c.rdm || s.proactor }

/-- `Service::start`. -/
def start (msg : Bool) (n : WorkerNum) (s : ServiceObjects) : ServiceObjects :=
  if s.proactor && msg then
    { s with cqThread := (makeLoop (fun _ => true) (workers n.val) s.cqThread).1 }
  else s

/-- `~Service`. -/
def destroy (is_server : Bool) (n : WorkerNum) (s : ServiceObjects) : ServiceObjects :=
  { s with
    cq_demultiplexer := deleteLoop (!is_server) (workers n.val) s.cq_demultiplexer
    cqThread := deleteLoop (!is_server) (workers n.val) s.cqThread }

/-- A `Service` is constructed and initialized, started or not, and destroyed. -/
def life (msg is_server : Bool) (n : WorkerNum) (c : WorkerInit) (started : Bool) :
    ServiceObjects :=
  let s := construct.init msg n c
  (if started then s.start msg n else s).destroy is_server n

/-- All objects have been deleted once. -/
def DeletedOnce (s : ServiceObjects) : Prop :=
  s.cq_demultiplexer.DeletedOnce ∧ s.cqThread.DeletedOnce

instance (s : ServiceObjects) : Decidable s.DeletedOnce := inferInstanceAs (Decidable (_ ∧ _))

theorem proactor_log (w : WorkerService) (l : List WorkerAccess) :
    (w.log l).proactor = w.proactor := by
  unfold WorkerService.log
  split <;> rfl

/-- When the stack is opened. -/
theorem openQueues_spec (w : WorkerService) (c : WorkerInit) :
    (w.openQueues c).2 =
        (c.fabric && (untilFailure (fun i => c.opens i ≠ nullptr) (workers w.worker_num)).2) ∧
      (w.openQueues c).1.proactor = w.proactor ∧
      (w.openQueues c).1.worker_num = w.worker_num := by
  unfold openQueues
  dsimp only
  split
  · rename_i hfabric
    exact ⟨by rw [hfabric, Bool.false_and], rfl, rfl⟩
  split
  · rename_i hq
    exact ⟨by rw [hq, Bool.and_false], proactor_log _ _, log_worker_num⟩
  · rename_i hfabric hq
    refine ⟨?_, proactor_log _ _, log_worker_num⟩
    rw [Bool.not_eq_false] at hfabric hq
    rw [hfabric, hq]
    rfl

/-- `init` gives a proactor exactly when it does for the record of the accesses. -/
theorem proactor_init {w : WorkerService} (hnum : w.worker_num = n.val)
    (hnone : w.proactor = false) (msg : Bool) (c : WorkerInit) :
    (construct.init msg n c).proactor = (w.init msg c).proactor := by
  cases msg with
  | false => cases hrdm : c.rdm <;> simp [init, construct, WorkerService.init, fail, hrdm, hnone]
  | true =>
    obtain ⟨v, hv, hvnum, hvnone⟩ : ∃ v : WorkerService, v = { w with msg := true } ∧
        v.worker_num = n.val ∧ v.proactor = false := ⟨_, rfl, hnum, hnone⟩
    obtain ⟨hopen, hproactor, hkept⟩ := openQueues_spec v c
    have hopens : c.opensMsg n = ((v.openQueues c).2 && c.eq) := by
      rw [hopen, hvnum]
      rfl
    unfold init WorkerService.init
    simp only [if_true, hopens, ← hv]
    cases hq : (v.openQueues c).2 <;> cases heq : c.eq <;>
      cases hd : (untilFailure c.cq (workers n.val)).2 <;>
        simp [openDemultiplexers, hkept, hvnum, hd, fail, newProactor, proactor_log, hproactor,
          hvnone, makeLoop_eq, construct]

/-- A client has one worker, or gets no further than the first, once the stack and the
event queues have been opened. -/
def OnePerClient (msg is_server : Bool) (n : WorkerNum) (c : WorkerInit) : Prop :=
  msg = true → is_server = false → c.opensMsg n = true → n.val.toInt = 1 ∨ c.cq 0 = false

/-- The workers whose objects the destructor deletes. -/
def destroyed (is_server : Bool) (n : WorkerNum) : List ℕ :=
  if is_server then workers n.val else [0]

/-- What it does to an array with nothing deleted. -/
theorem deletedOnce_destroy {is_server : Bool} {a : WorkerArray} (hnone : a.deleted = [])
    (hslot : ∀ i ∈ a.made, a.slot i = true) :
    (deleteLoop (!is_server) (workers n.val) a).DeletedOnce ↔
      ∀ i ∈ a.made, i ∈ destroyed is_server n := by
  cases is_server with
  | true => exact deletedOnce_deleteLoop hnone hslot (nodup_workers n.val)
  | false =>
    obtain ⟨is, hcons, -⟩ := workers_eq_cons n
    rw [Bool.not_false, deleteLoop_once, hcons]
    exact deletedOnce_deleteLoop hnone hslot (List.nodup_singleton 0)

/-- The objects that a loop has made in an array that was null. -/
theorem deletedOnce_made (is_server : Bool) (ok : ℕ → Bool) :
    (deleteLoop (!is_server) (workers n.val) (makeLoop ok (workers n.val) null).1).DeletedOnce ↔
      is_server = false → n.val.toInt = 1 ∨ ok 0 = false := by
  have hslot : ∀ i ∈ (makeLoop ok (workers n.val) null).1.made,
      (makeLoop ok (workers n.val) null).1.slot i = true := by
    intro i hi
    rw [makeLoop_eq] at hi ⊢
    simpa [null] using hi
  have hmade : (makeLoop ok (workers n.val) null).1.made =
      (untilFailure ok (workers n.val)).1 := by
    rw [makeLoop_eq]
    rfl
  have hnone : (makeLoop ok (workers n.val) null).1.deleted = [] := by
    rw [makeLoop_eq]
    rfl
  rw [deletedOnce_destroy hnone hslot, hmade]
  cases is_server with
  | true => exact ⟨fun _ h => absurd h (by simp), fun _ i hi => mem_of_mem_untilFailure hi⟩
  | false =>
    obtain ⟨is, hcons, hone, hnot⟩ := workers_eq_cons n
    rw [← hone, hcons]
    simp only [true_imp_iff]
    exact untilFailure_single_iff ok hnot

/-- An array in which nothing was made. -/
theorem deletedOnce_null (once : Bool) (is : List ℕ) : (deleteLoop once is null).DeletedOnce := by
  intro i hi
  rw [made_deleteLoop] at hi
  exact absurd hi List.not_mem_nil

theorem life_deletedOnce_iff (msg is_server : Bool) (n : WorkerNum) (c : WorkerInit)
    (started : Bool) :
    (life msg is_server n c started).DeletedOnce ↔ OnePerClient msg is_server n c := by
  have hnull := deletedOnce_null (!is_server) (workers n.val)
  cases msg with
  | false =>
    refine ⟨fun _ h => absurd h (by simp), fun _ => ?_⟩
    cases started <;> simp [life, init, start, construct, destroy, DeletedOnce, hnull]
  | true =>
    cases hopens : c.opensMsg n with
    | false =>
      refine ⟨fun _ _ _ h => absurd (hopens.symm.trans h) (by simp), fun _ => ?_⟩
      cases started <;> simp [life, init, start, construct, destroy, hopens, DeletedOnce, hnull]
    | true =>
      have hinit : construct.init true n c =
          ⟨(makeLoop c.cq (workers n.val) null).1, null,
            (untilFailure c.cq (workers n.val)).2⟩ := by
        simp [init, hopens, construct, makeLoop_eq]
      have hdemultiplexers := deletedOnce_made (n := n) is_server c.cq
      have hcond : OnePerClient true is_server n c ↔
          (is_server = false → n.val.toInt = 1 ∨ c.cq 0 = false) := by
        simp [OnePerClient, hopens]
      rw [hcond, ← hdemultiplexers]
      -- what is left are the threads, which are made when nothing has failed
      by_cases hstart : started = true ∧ (untilFailure c.cq (workers n.val)).2 = true
      · obtain ⟨hstarted, hall⟩ := hstart
        have hlife : (life true is_server n c started).DeletedOnce ↔
            (deleteLoop (!is_server) (workers n.val)
              (makeLoop c.cq (workers n.val) null).1).DeletedOnce ∧
            (deleteLoop (!is_server) (workers n.val)
              (makeLoop (fun _ => true) (workers n.val) null).1).DeletedOnce := by
          simp [life, hinit, hstarted, start, hall, destroy, DeletedOnce]
        rw [hlife]
        refine ⟨fun h => h.1, fun h => ⟨h, (deletedOnce_made is_server _).mpr fun hclient => ?_⟩⟩
        refine Or.inl ((hdemultiplexers.mp h hclient).resolve_right fun hfail => ?_)
        have hzero := untilFailure_snd.mp hall 0 (zero_mem_workers n)
        exact absurd (hzero.symm.trans hfail) (by simp)
      · have hlife : (life true is_server n c started).DeletedOnce ↔
            (deleteLoop (!is_server) (workers n.val)
              (makeLoop c.cq (workers n.val) null).1).DeletedOnce := by
          cases started with
          | false => simp [life, hinit, destroy, DeletedOnce, hnull]
          | true =>
            have hfailed : (untilFailure c.cq (workers n.val)).2 = false := by
              simpa using hstart
            simp [life, hinit, start, hfailed, destroy, DeletedOnce, hnull]
        exact hlife

end ServiceObjects

/-! ## `ExternalCqService` -/

namespace ExternalCqObjects

/-- `ExternalCqService::init`; `cq` is whether the `init` of each demultiplexer
succeeds.  When the loop has been left at `i`, what it has made is deleted. -/
def init (n : WorkerNum) (cq : ℕ → Bool) (a : WorkerArray) : WorkerArray × ℤ :=
  let r := makeLoop cq (workers n.val) a
  let i := if r.2 then n.val.toInt.toNat else (untilFailure cq (workers n.val)).1.length - 1
  if i < n.val.toInt.toNat then (deleteLoop false (List.range (i + 1)) r.1, -1) else (r.1, 0)

/-- `~ExternalCqService`. -/
def destroy (n : WorkerNum) (a : WorkerArray) : WorkerArray :=
  deleteLoop false (workers n.val) a

/-- A service is constructed and initialized, and destroyed whatever came of it. -/
def life (n : WorkerNum) (cq : ℕ → Bool) : WorkerArray := destroy n (init n cq null).1

/-- All demultiplexers can be initialized. -/
def AllInitialized (n : WorkerNum) (cq : ℕ → Bool) : Prop := ∀ i ∈ workers n.val, cq i = true

/-- When a demultiplexer cannot be initialized, the destructor deletes the first one
again. -/
theorem count_life {cq : ℕ → Bool} (h : (untilFailure cq (workers n.val)).2 = false) :
    0 ∈ (life n cq).made ∧ (life n cq).deleted.count 0 = 2 := by
  obtain ⟨is, hcons, -⟩ := workers_eq_cons n
  have hzero : 0 ∈ (untilFailure cq (workers n.val)).1 := by
    rw [hcons]
    exact head_mem_untilFailure cq 0 is
  have hin : 0 ∈ workers n.val := zero_mem_workers n
  have hlength : 0 < (untilFailure cq (workers n.val)).1.length := List.length_pos_of_mem hzero
  have hle : (untilFailure cq (workers n.val)).1.length ≤ n.val.toInt.toNat := by
    simpa [workers] using (isPrefix_untilFailure cq (workers n.val)).length_le
  have hinit : (init n cq null).1 = deleteLoop false (untilFailure cq (workers n.val)).1
      (makeLoop cq (workers n.val) null).1 := by
    have hlt : (untilFailure cq (workers n.val)).1.length - 1 < n.val.toInt.toNat := by omega
    simp only [init, makeLoop_eq, h, Bool.false_eq_true, if_false, if_pos hlt,
      Nat.sub_add_cancel hlength, range_length_untilFailure]
  have hslot : (makeLoop cq (workers n.val) null).1.slot 0 = true := by
    rw [makeLoop_eq]
    simp [hzero]
  rw [life, destroy, hinit]
  refine ⟨?_, ?_⟩
  · rw [made_deleteLoop, made_deleteLoop, makeLoop_eq]
    exact hzero
  · have hnodup : (untilFailure cq (workers n.val)).1.Nodup :=
      (isPrefix_untilFailure cq (workers n.val)).sublist.nodup (nodup_workers n.val)
    have hnone : (makeLoop cq (workers n.val) null).1.deleted = [] := by
      rw [makeLoop_eq]
      rfl
    -- once by `init`, and once more by the destructor
    rw [deleteLoop_eq, deleteLoop_eq]
    simp only [hnone, List.nil_append, List.count_append, List.count_filter hslot]
    rw [List.count_eq_one_of_mem hnodup hzero, List.count_eq_one_of_mem (nodup_workers n.val) hin]

theorem life_deletedOnce_iff (n : WorkerNum) (cq : ℕ → Bool) :
    (life n cq).DeletedOnce ↔ AllInitialized n cq := by
  cases hall : (untilFailure cq (workers n.val)).2 with
  | true =>
    refine ⟨fun _ => untilFailure_snd.mp hall, fun _ => ?_⟩
    have hlife : life n cq = deleteLoop false (workers n.val)
        (makeLoop cq (workers n.val) null).1 := by
      simp [life, init, destroy, makeLoop_eq, hall]
    rw [hlife, deletedOnce_deleteLoop (by simp [makeLoop_eq, null])
      (by simp [makeLoop_eq, null]) (nodup_workers n.val)]
    intro i hi
    rw [makeLoop_eq, untilFailure_fst hall] at hi
    exact hi
  | false =>
    obtain ⟨hmade, hcount⟩ := count_life hall
    refine ⟨fun h => absurd ((h 0 hmade).symm.trans hcount) (by decide), fun h => ?_⟩
    exact absurd (hall.symm.trans (untilFailure_snd.mpr h)) (by simp)

end ExternalCqObjects

/-! ## The two together -/

/-- **When every object is deleted exactly once.**  Those of a `Service` are exactly when
it is a server's, or a client's that has one worker or gets no further than the first;
those of an `ExternalCqService` exactly when all of them can be initialized. -/
theorem deletedOnce_iff (n : WorkerNum) (msg is_server : Bool) (c : WorkerInit) (started : Bool)
    (cq : ℕ → Bool) :
    ((ServiceObjects.life msg is_server n c started).DeletedOnce ↔
        ServiceObjects.OnePerClient msg is_server n c) ∧
      ((ExternalCqObjects.life n cq).DeletedOnce ↔ ExternalCqObjects.AllInitialized n cq) :=
  ⟨ServiceObjects.life_deletedOnce_iff msg is_server n c started,
    ExternalCqObjects.life_deletedOnce_iff n cq⟩

/-- Everything succeeds. -/
def WorkerInit.success : WorkerInit :=
  { fabric := true
    opens := fun i => i + 1
    eq := true
    cq := fun _ => true
    rdm := true }

/-- A client leaves the objects of its second worker behind, and one demultiplexer that
cannot be initialized is deleted twice. -/
theorem not_deletedOnce :
    ¬ (ServiceObjects.life true false ⟨2, by decide, by decide⟩ .success true).DeletedOnce ∧
      ¬ (ExternalCqObjects.life ⟨1, by decide, by decide⟩ fun _ => false).DeletedOnce := by
  decide +kernel

end Hpnl
