import Hpnl.Chunk
import Hpnl.Lib.Resources
import Hpnl.Lib.Transition

/-!
# What a stack obtains, and what becomes of it

`MsgStack::init` opens one object after the other; a call that fails goes to a label from
which everything that has been opened is closed again.  `bind` and `connect` obtain hints of
their own, `bind` a passive endpoint.  `~MsgStack` closes what its pointers lead to.  Which
pointers that are is known from their being null or not, and nothing else
(`src/core/MsgStack.cc`).

* `StackWorld` — the pointers of a stack, and the ledger of what it has obtained.
* `init`, `bind`, `listen`, `connect`, `destroy` — the members, with every way to fail.
* `Tracks`, `Good`, `Damaged` — the pointers lead to exactly what is open; a stack between two
  calls; something has been closed twice, or is lost.
* `step_spec` — **a call leaves a good stack good when it meets the condition, and damages it
  when it does not**.
* `closed_once_iff` — **everything is closed exactly once if and only if** no call breaks the
  condition, and the queues of a stack that is not initialized are null when it is destroyed.
-/

namespace Hpnl

open Transition

/-- A pointer of a stack with `n` workers that leads to something it has obtained.
`info_tmp`, which goes to a connection, is not among them. -/
inductive StackPtr (n : ℕ) where
  | hints
  | info
  | fabric
  | peq
  | domain
  | cq (i : Fin n)
  | hints_tmp
  | pep
  deriving DecidableEq, Repr

/-- A `MsgStack`, and what it has obtained from libfabric. -/
structure StackWorld (n : ℕ) where
  ptr : StackPtr n → Addr
  initialized : Bool
  objects : Resources Addr

/-- What libfabric answers in `bind`. -/
structure BindReply where
  hints_tmp : Option Addr
  info_tmp : Bool
  pep : Option Addr
  pep_bind : Bool
  deriving DecidableEq, Repr

/-- What libfabric answers in `connect`; `con` is the queue of the connection, if it could be
set up. -/
structure ConnectReply where
  hints_tmp : Option Addr
  info_tmp : Bool
  con : Option Addr
  deriving DecidableEq, Repr

namespace StackWorld

variable {n : ℕ}

/-- `MsgStack::MsgStack`. -/
def construct (n : ℕ) : StackWorld n :=
  { ptr := fun _ => nullptr
    initialized := false
    objects := Resources.none_made }

/-- A call that succeeds, and writes what it has obtained into a pointer.  What is in use is
not handed out again. -/
def opened (w : StackWorld n) (s : StackPtr n) (h : Addr) : Option (StackWorld n) :=
  if hh : h = nullptr ∨ w.objects.InUse h then none
  else
    some { w with
      ptr := Function.update w.ptr s h
      objects := w.objects.acquire h (not_or.mp hh).2 }

/-- `p = nullptr`. -/
def clear (w : StackWorld n) (s : StackPtr n) : StackWorld n :=
  { w with ptr := Function.update w.ptr s nullptr }

/-- `if (p) fi_close(&p->fid)`, or `fi_freeinfo(p)`. -/
def release (w : StackWorld n) (s : StackPtr n) : StackWorld n :=
  if w.ptr s = nullptr then w else { w with objects := w.objects.release (w.ptr s) }

/-- The same, with `p = nullptr` after it. -/
def close (w : StackWorld n) (s : StackPtr n) : StackWorld n := (w.release s).clear s

/-! ## `init` -/

def free_hints (w : StackWorld n) : StackWorld n := { w.close .hints with initialized := false }

def free_info (w : StackWorld n) : StackWorld n := (w.close .info).free_hints

def free_fabric (w : StackWorld n) : StackWorld n := (w.close .fabric).free_info

def free_eq (w : StackWorld n) : StackWorld n := (w.close .peq).free_fabric

def free_domain (w : StackWorld n) : StackWorld n := (w.close .domain).free_eq

/-- The completion queues keep their pointers. -/
def free_cq (w : StackWorld n) : StackWorld n :=
  (((List.finRange n).map .cq).foldl release w).free_domain

/-- Where a call that fails goes.  `fi_allocinfo` answers with null. -/
def failed (w : StackWorld n) : StackPtr n → StackWorld n
  | .hints => (w.clear .hints).free_hints
  | .info => w.free_info
  | .fabric => w.free_fabric
  | .peq => w.free_eq
  | .domain => w.free_domain
  | _ => w.free_cq

/-- What `init` obtains, in this order. -/
def initCalls (n : ℕ) : List (StackPtr n) :=
  [.hints, .info, .fabric, .peq, .domain] ++ (List.finRange n).map .cq

/-- The rest of `init`, from one of its calls on. -/
def openAll (reply : StackPtr n → Option Addr) :
    List (StackPtr n) → StackWorld n → Option (StackWorld n)
  | [], w => some { w with initialized := true }
  | s :: rest, w =>
      match reply s with
      | none => some (w.failed s)
      | some h => (w.opened s h).bind (openAll reply rest)

/-- `MsgStack::init`; the result is 0 if the stack is `initialized` then, and -1 if not. -/
def init (w : StackWorld n) (reply : StackPtr n → Option Addr) : Option (StackWorld n) :=
  openAll reply (initCalls n) w

/-! ## The other members -/

/-- `hints_tmp = fi_allocinfo()`. -/
def allocHints (w : StackWorld n) : Option Addr → Option (StackWorld n)
  | none => some (w.clear .hints_tmp)
  | some h => w.opened .hints_tmp h

/-- `MsgStack::bind`; `args` is whether `ip_` and `port_` are not null. -/
def bind (w : StackWorld n) (args : Bool) (r : BindReply) : Option (StackWorld n × Addr) :=
  if ¬ w.initialized ∨ ¬ args then some (w, nullptr)
  else
    (w.allocHints r.hints_tmp).bind fun w =>
      if r.hints_tmp = none ∨ r.info_tmp = false then some (w, nullptr)
      else
        match r.pep with
        | none => some (w, nullptr)
        | some h => (w.opened .pep h).map fun w => (w, if r.pep_bind then w.ptr .peq else nullptr)

/-- `MsgStack::listen`; `ok` is whether `fi_listen` succeeds. -/
def listen (w : StackWorld n) (ok : Bool) : ℤ :=
  if ¬ w.initialized ∨ w.ptr .pep = nullptr then -1 else if ok then 0 else -1

/-- `MsgStack::connect`; `args` is whether `ip_`, `port_` and `buf_mgr` are not null. -/
def connect (w : StackWorld n) (args : Bool) (r : ConnectReply) :
    Option (StackWorld n × Addr) :=
  if ¬ w.initialized ∨ ¬ args then some (w, nullptr)
  else
    (w.allocHints r.hints_tmp).map fun w =>
      (w, if r.hints_tmp = none ∨ r.info_tmp = false then nullptr else r.con.getD nullptr)

/-- What `~MsgStack` closes, in this order. -/
def destroyed (n : ℕ) : List (StackPtr n) :=
  .peq :: (List.finRange n).map .cq ++ [.domain, .fabric, .hints, .info, .hints_tmp]

/-- `MsgStack::~MsgStack`, as far as the stack's own objects go. -/
def destroy (w : StackWorld n) : StackWorld n := (destroyed n).foldl close w

/-! ## Runs -/

end StackWorld

/-- A call of a member. -/
inductive StackOp (n : ℕ) where
  | init (reply : StackPtr n → Option Addr)
  | bind (args : Bool) (r : BindReply)
  | listen (ok : Bool)
  | connect (args : Bool) (r : ConnectReply)

namespace StackWorld

variable {n : ℕ}

def step (w : StackWorld n) : StackOp n → Option (StackWorld n)
  | .init reply => w.init reply
  | .bind args r => (w.bind args r).map Prod.fst
  | .listen _ => some w
  | .connect args r => (w.connect args r).map Prod.fst

/-- When the opening of a completion queue fails, its pointer and those after it are null. -/
def Unused (w : StackWorld n) (reply : StackPtr n → Option Addr) (calls : List (StackPtr n)) :
    Prop :=
  ∀ i rest, calls.dropWhile (fun s => (reply s).isSome) = .cq i :: rest →
    ∀ s ∈ .cq i :: rest, w.ptr s = nullptr

/-- **The condition.**  `init` is called on a stack that is not initialized, and the queues from
a failing one on are null; `hints_tmp` is null when it is written, and no passive endpoint is
created. -/
def Guard (w : StackWorld n) : StackOp n → Prop
  | .init reply => w.initialized = false ∧ w.Unused reply (initCalls n)
  | .bind args r => w.initialized → args →
      w.ptr .hints_tmp = nullptr ∧ (r.hints_tmp = none ∨ r.info_tmp = false ∨ r.pep = none)
  | .listen _ => True
  | .connect args _ => w.initialized → args → w.ptr .hints_tmp = nullptr

/-- The condition on a stack that is destroyed. -/
def EndGuard (w : StackWorld n) : Prop :=
  w.initialized ∨ ∀ i, w.ptr (.cq i) = nullptr

/-! ## Closing a list of pointers -/

section

variable {w w' : StackWorld n} {s : StackPtr n} {ss : List (StackPtr n)} {h : Addr}

/-- What the pointers of a list lead to. -/
def handles (w : StackWorld n) (ss : List (StackPtr n)) : List Addr :=
  (ss.map w.ptr).filter fun h => h ≠ nullptr

theorem handles_congr {v : StackWorld n} (h : ∀ s ∈ ss, v.ptr s = w.ptr s) :
    v.handles ss = w.handles ss := by
  rw [handles, handles, List.map_congr_left h]

theorem handles_append (w : StackWorld n) (ss ts : List (StackPtr n)) :
    w.handles (ss ++ ts) = w.handles ss ++ w.handles ts := by
  rw [handles, List.map_append, List.filter_append, handles, handles]

theorem mem_handles : h ∈ w.handles ss ↔ h ≠ nullptr ∧ ∃ s ∈ ss, w.ptr s = h := by
  rw [handles, List.mem_filter, List.mem_map, decide_eq_true_eq, and_comm]

theorem objects_release (w : StackWorld n) (s : StackPtr n) :
    (w.release s).objects = w.objects.releaseAll (w.handles [s]) := by
  unfold release
  split
  · rename_i hnull
    simp [handles, hnull, Resources.releaseAll]
  · rename_i hne
    simp [handles, hne, Resources.releaseAll]

theorem ptr_release (w : StackWorld n) (s : StackPtr n) : (w.release s).ptr = w.ptr := by
  unfold release
  split <;> rfl

theorem initialized_release (w : StackWorld n) (s : StackPtr n) :
    (w.release s).initialized = w.initialized := by
  unfold release
  split <;> rfl

/-- Releasing what pointers lead to, the pointers staying. -/
theorem foldl_release (ss : List (StackPtr n)) (w : StackWorld n) :
    ss.foldl release w = { w with objects := w.objects.releaseAll (w.handles ss) } := by
  induction ss generalizing w with
  | nil => rfl
  | cons s ss ih =>
    have hrest : (w.release s).handles ss = w.handles ss :=
      handles_congr fun t _ => congrFun (ptr_release w s) t
    have hcons : w.handles (s :: ss) = w.handles [s] ++ w.handles ss := handles_append w [s] ss
    rw [List.foldl_cons, ih, ptr_release, initialized_release, objects_release, hrest, hcons,
      Resources.releaseAll_append]

/-- Closing, the pointers becoming null. -/
theorem foldl_close {ss : List (StackPtr n)} (hnodup : ss.Nodup) (w : StackWorld n) :
    ss.foldl close w =
      { w with
        ptr := fun s => if s ∈ ss then nullptr else w.ptr s
        objects := w.objects.releaseAll (w.handles ss) } := by
  induction ss generalizing w with
  | nil => simp [handles, Resources.releaseAll]
  | cons s ss ih =>
    obtain ⟨hnot, hnodup⟩ := List.nodup_cons.mp hnodup
    have hptr : (w.close s).ptr = Function.update w.ptr s nullptr := by
      rw [close, clear, ptr_release]
    have hobjects : (w.close s).objects = w.objects.releaseAll (w.handles [s]) :=
      objects_release w s
    have hinit : (w.close s).initialized = w.initialized := initialized_release w s
    have hrest : (w.close s).handles ss = w.handles ss := by
      refine handles_congr fun t ht => ?_
      rw [hptr, Function.update_of_ne]
      rintro rfl
      exact hnot ht
    have hcons : w.handles (s :: ss) = w.handles [s] ++ w.handles ss := handles_append w [s] ss
    rw [List.foldl_cons, ih hnodup, hinit, hobjects, hrest, hptr, hcons,
      Resources.releaseAll_append]
    congr 1
    funext t
    by_cases ht : t = s
    · simp [ht]
    · simp [ht]

/-! ## What the pointers lead to -/

/-- The pointers of `L` lead to exactly what is open, each to something else.  Any other
pointer is null, or the stale one of a completion queue. -/
structure Tracks (w : StackWorld n) (L : List (StackPtr n)) : Prop where
  once : w.objects.AtMostOnce
  live : ∀ h, w.objects.InUse h ↔ ∃ s ∈ L, w.ptr s = h
  nonnull : ∀ s ∈ L, w.ptr s ≠ nullptr
  inj : ∀ s ∈ L, ∀ t ∈ L, w.ptr s = w.ptr t → s = t
  stale : ∀ s, s ∉ L → w.ptr s ≠ nullptr →
    (∃ i, s = .cq i) ∧ w.objects.owner (w.ptr s) ≠ none

variable {L : List (StackPtr n)}

theorem Tracks.mem_of_ne (h : w.Tracks L) (hs : w.ptr s ≠ nullptr) (hcq : ∀ i, s ≠ .cq i) :
    s ∈ L := by
  by_contra hnot
  obtain ⟨i, hi⟩ := (h.stale s hnot hs).1
  exact hcq i hi

theorem tracks_construct (n : ℕ) : (construct n).Tracks [] where
  once := Resources.atMostOnce_none_made
  live := fun h => ⟨fun huse => absurd huse (Resources.not_inUse_none_made h),
    fun hs => by obtain ⟨s, hs, -⟩ := hs; cases hs⟩
  nonnull := fun s hs => by cases hs
  inj := fun s hs => by cases hs
  stale := fun s _ hs => absurd rfl hs

theorem opened_cases (hopen : w.opened s h = some w') :
    ∃ hfree, h ≠ nullptr ∧
      w' = { w with
        ptr := Function.update w.ptr s h
        objects := w.objects.acquire h hfree } := by
  unfold opened at hopen
  split at hopen
  · cases hopen
  · rename_i hh
    cases hopen
    exact ⟨(not_or.mp hh).2, (not_or.mp hh).1, rfl⟩

/-- A new object. -/
theorem tracks_opened (hw : w.Tracks L) (hs : s ∉ L) (hopen : w.opened s h = some w') :
    w'.Tracks (s :: L) := by
  obtain ⟨hfree, hne, rfl⟩ := opened_cases hopen
  have hself : Function.update w.ptr s h s = h := Function.update_self ..
  have hold : ∀ t ∈ L, Function.update w.ptr s h t = w.ptr t := by
    intro t ht
    refine Function.update_of_ne ?_ _ _
    rintro rfl
    exact hs ht
  have hnew : ∀ t ∈ L, w.ptr t ≠ h := fun t ht heq => hfree ((hw.live h).mpr ⟨t, ht, heq⟩)
  refine ⟨hw.once, fun a => ?_, fun t ht => ?_, fun t ht u hu heq => ?_, fun t ht hnull => ?_⟩
  · rw [Resources.inUse_acquire, hw.live]
    constructor
    · rintro (rfl | ⟨t, ht, rfl⟩)
      · exact ⟨s, List.mem_cons_self, hself⟩
      · exact ⟨t, List.mem_cons_of_mem s ht, hold t ht⟩
    · rintro ⟨t, ht, rfl⟩
      obtain rfl | ht := List.mem_cons.mp ht
      · exact Or.inl hself
      · exact Or.inr ⟨t, ht, (hold t ht).symm⟩
  · show Function.update w.ptr s h t ≠ nullptr
    obtain rfl | ht := List.mem_cons.mp ht
    · rw [hself]
      exact hne
    · rw [hold t ht]
      exact hw.nonnull t ht
  · replace heq : Function.update w.ptr s h t = Function.update w.ptr s h u := heq
    obtain rfl | ht' := List.mem_cons.mp ht
    · obtain rfl | hu' := List.mem_cons.mp hu
      · rfl
      · rw [hself, hold u hu'] at heq
        exact absurd heq.symm (hnew u hu')
    · obtain rfl | hu' := List.mem_cons.mp hu
      · rw [hself, hold t ht'] at heq
        exact absurd heq (hnew t ht')
      · rw [hold t ht', hold u hu'] at heq
        exact hw.inj t ht' u hu' heq
  · rw [List.mem_cons, not_or] at ht
    have hptr : Function.update w.ptr s h t = w.ptr t := Function.update_of_ne ht.1 _ _
    show _ ∧ Function.update w.objects.owner h _ (Function.update w.ptr s h t) ≠ none
    replace hnull : Function.update w.ptr s h t ≠ nullptr := hnull
    rw [hptr] at hnull ⊢
    obtain ⟨hcq, howner⟩ := hw.stale t ht.2 hnull
    refine ⟨hcq, ?_⟩
    by_cases heq : w.ptr t = h
    · rw [heq, Function.update_self]
      exact Option.some_ne_none _
    · rwa [Function.update_of_ne heq]

/-! ## Closing what is open, and more than that -/

/-- Closing what is open, each once, leaves nothing open. -/
theorem Tracks.releaseAll (hw : w.Tracks L) (hnodup : ss.Nodup) (hall : ∀ s ∈ L, s ∈ ss)
    (honly : ∀ s ∈ ss, w.ptr s ≠ nullptr → s ∈ L) :
    (w.objects.releaseAll (w.handles ss)).AtMostOnce ∧
      ∀ h, ¬ (w.objects.releaseAll (w.handles ss)).InUse h := by
  have hhandles : (w.handles ss).Nodup := by
    rw [handles, List.filter_map]
    refine List.Nodup.map_on ?_ (hnodup.filter _)
    intro s hs t ht heq
    rw [List.mem_filter] at hs ht
    have hs := honly s hs.1 (by simpa using hs.2)
    have ht := honly t ht.1 (by simpa using ht.2)
    exact hw.inj s hs t ht heq
  constructor
  · refine hw.once.releaseAll hhandles fun h hh => ?_
    obtain ⟨hne, s, hs, rfl⟩ := mem_handles.mp hh
    exact (hw.live _).mpr ⟨s, honly s hs hne, rfl⟩
  · intro h hh
    obtain ⟨hnot, huse⟩ := (Resources.inUse_releaseAll ..).mp hh
    obtain ⟨s, hs, rfl⟩ := (hw.live h).mp huse
    exact hnot (mem_handles.mpr ⟨hw.nonnull s hs, s, hall s hs, rfl⟩)

/-- Two pointers of a list that lead to the same. -/
theorem two_le_count (hs : s ∈ ss) {t : StackPtr n} (ht : t ∈ ss) (hne : s ≠ t)
    (heq : w.ptr s = w.ptr t) (hnull : w.ptr s ≠ nullptr) :
    2 ≤ (w.handles ss).count (w.ptr s) := by
  obtain ⟨a, b, rfl⟩ := List.append_of_mem hs
  have hone : (w.handles [s]).count (w.ptr s) = 1 := by simp [handles, hnull]
  have hpos : ∀ l, t ∈ l → 1 ≤ (w.handles l).count (w.ptr s) := by
    intro l hl
    exact List.count_pos_iff.mpr (mem_handles.mpr ⟨hnull, t, hl, heq.symm⟩)
  have hcons : w.handles (s :: b) = w.handles [s] ++ w.handles b := handles_append w [s] b
  rw [handles_append, hcons, List.count_append, List.count_append, hone]
  obtain ht | ht := List.mem_append.mp ht
  · have := hpos a ht
    omega
  · have := hpos b ((List.mem_cons.mp ht).resolve_left hne.symm)
    omega

/-- Closing what a stale pointer leads to closes something twice. -/
theorem Tracks.not_atMostOnce (hw : w.Tracks L) (hall : ∀ s ∈ L, s ∈ ss) (hs : s ∈ ss)
    (hnull : w.ptr s ≠ nullptr) (hstale : s ∉ L) :
    ¬ (w.objects.releaseAll (w.handles ss)).AtMostOnce := by
  intro honce
  obtain ⟨k, hk⟩ := Option.ne_none_iff_exists'.mp (hw.stale s hstale hnull).2
  have hle := honce k
  rw [Resources.released_releaseAll hk] at hle
  by_cases huse : w.objects.InUse (w.ptr s)
  · obtain ⟨t, ht, heq⟩ := (hw.live _).mp huse
    have hne : s ≠ t := by
      rintro rfl
      exact hstale ht
    have := two_le_count hs (hall t ht) hne heq.symm hnull
    omega
  · have hreleased : w.objects.released k ≠ 0 :=
      fun hzero => huse (Resources.inUse_iff.mpr ⟨k, hk, hzero⟩)
    have hpos : 1 ≤ (w.handles ss).count (w.ptr s) :=
      List.count_pos_iff.mpr (mem_handles.mpr ⟨hnull, s, hs, rfl⟩)
    omega

/-! ## The labels of `init` -/

/-- The pointers that are null after the label of a failing call. -/
def cleared : StackPtr n → List (StackPtr n)
  | .hints => [.hints]
  | .info => [.info, .hints]
  | .fabric => [.fabric, .info, .hints]
  | .peq => [.peq, .fabric, .info, .hints]
  | _ => [.domain, .peq, .fabric, .info, .hints]

/-- What the label closes. -/
def closes : StackPtr n → List (StackPtr n)
  | .cq i => (List.finRange n).map .cq ++ cleared (.cq i)
  | s => cleared s

theorem cq_injective : Function.Injective (StackPtr.cq : Fin n → StackPtr n) :=
  fun _ _ h => StackPtr.cq.inj h

theorem nodup_cqs (n : ℕ) : ((List.finRange n).map StackPtr.cq).Nodup :=
  (List.nodup_finRange n).map cq_injective

theorem nodup_cleared (s : StackPtr n) : (cleared s).Nodup := by
  cases s <;> simp [cleared]

theorem nodup_closes (s : StackPtr n) : (closes s).Nodup := by
  cases s with
  | cq i =>
    refine List.nodup_append.mpr ⟨nodup_cqs n, nodup_cleared _, fun a ha b hb => ?_⟩
    obtain ⟨j, -, rfl⟩ := List.mem_map.mp ha
    rintro rfl
    simp [cleared] at hb
  | _ => simp [closes, nodup_cleared]

theorem nodup_initCalls (n : ℕ) : (initCalls n).Nodup := by
  refine List.nodup_append.mpr ⟨by simp, nodup_cqs n, fun a ha b hb => ?_⟩
  obtain ⟨j, -, rfl⟩ := List.mem_map.mp hb
  rintro rfl
  simp at ha

/-- **What a failing call leaves.** -/
theorem failed_eq (hs : s ∈ initCalls n) (hhints : s = .hints → w.ptr .hints = nullptr) :
    w.failed s =
      { ptr := fun t => if t ∈ cleared s then nullptr else w.ptr t
        initialized := false
        objects := w.objects.releaseAll (w.handles (closes s)) } := by
  have hlabel : ∀ (v : StackWorld n) (ss : List (StackPtr n)), ss.Nodup →
      ({ ss.foldl close v with initialized := false } : StackWorld n) =
        { ptr := fun t => if t ∈ ss then nullptr else v.ptr t
          initialized := false
          objects := v.objects.releaseAll (v.handles ss) } :=
    fun v ss hss => by rw [foldl_close hss]
  cases s with
  | hints =>
    have hclear : w.clear .hints = w := by
      rw [clear, ← hhints rfl, Function.update_eq_self]
    rw [failed, hclear]
    exact hlabel w _ (nodup_cleared .hints)
  | info => exact hlabel w _ (nodup_cleared .info)
  | fabric => exact hlabel w _ (nodup_cleared .fabric)
  | peq => exact hlabel w _ (nodup_cleared .peq)
  | domain => exact hlabel w _ (nodup_cleared .domain)
  | cq i =>
    have hcqs := foldl_release ((List.finRange n).map StackPtr.cq) w
    refine (hlabel _ _ (nodup_cleared (.cq i))).trans ?_
    rw [hcqs, closes, handles_append, Resources.releaseAll_append]
    rfl
  | hints_tmp => simp [initCalls] at hs
  | pep => simp [initCalls] at hs

/-- What has been obtained before a call is closed when it fails. -/
theorem mem_closes {pre rest : List (StackPtr n)} (hsplit : initCalls n = pre ++ s :: rest)
    {t : StackPtr n} (ht : t ∈ pre) : t ∈ closes s := by
  have hs : s ∈ initCalls n := by
    rw [hsplit]
    simp
  have hnot : ∀ u ∈ pre, decide (u ≠ s) = true := by
    intro u hu
    have hnodup := nodup_initCalls n
    rw [hsplit] at hnodup
    exact decide_eq_true (List.nodup_append.mp hnodup |>.2.2 u hu s List.mem_cons_self)
  have hpre : pre = (initCalls n).takeWhile fun u => u ≠ s := by
    rw [hsplit, List.takeWhile_append_of_pos hnot]
    simp
  rw [hpre] at ht
  cases s with
  | cq i =>
    have htinit : t ∈ initCalls n := List.takeWhile_subset _ ht
    simp only [initCalls, List.mem_append, List.mem_cons, List.not_mem_nil, or_false] at htinit
    simp only [closes, cleared, List.mem_append, List.mem_cons, List.not_mem_nil, or_false]
    tauto
  | hints_tmp => simp [initCalls] at hs
  | pep => simp [initCalls] at hs
  | hints => simp [initCalls] at ht
  | _ =>
    simp only [ne_eq, decide_not, initCalls, List.cons_append, List.nil_append, reduceCtorEq,
      decide_false, Bool.not_false, List.takeWhile_cons_of_pos, decide_true, Bool.not_true,
      Bool.false_eq_true, not_false_eq_true, List.takeWhile_cons_of_neg, List.mem_cons,
      List.not_mem_nil, or_false] at ht
    simp only [closes, cleared, List.mem_cons, List.not_mem_nil, or_false]
    tauto

/-! ## Stacks between two calls -/

/-- A stack between two calls that meet the condition. -/
inductive Good (w : StackWorld n) : Prop where
  /-- Nothing is open. -/
  | down (h : w.initialized = false) (hw : w.Tracks [])
  /-- Everything that is open can be found, and there is no stale pointer. -/
  | up (h : w.initialized = true) (L : List (StackPtr n)) (hw : w.Tracks L) (hints : .hints ∈ L)
      (cqs : ∀ i, .cq i ∈ L) (pep : .pep ∉ L)

/-- Something is open that no pointer leads to, `pep` apart, which the destructor forgets. -/
def Lost (w : StackWorld n) : Prop :=
  ∃ h, h ≠ nullptr ∧ w.objects.InUse h ∧ ∀ s, s ≠ .pep → w.ptr s ≠ h

/-- Something has been closed twice, or is lost. -/
def Damaged (w : StackWorld n) : Prop := ¬ w.objects.AtMostOnce ∨ w.Lost

theorem Damaged.congr {v : StackWorld n} (h : w.Damaged) (hptr : v.ptr = w.ptr)
    (hobjects : v.objects = w.objects) : v.Damaged := by
  rw [Damaged, Lost, hptr, hobjects]
  exact h

theorem Damaged.opened (hw : w.Damaged) (hopen : w.opened s h = some w') : w'.Damaged := by
  obtain ⟨hfree, -, rfl⟩ := opened_cases hopen
  obtain htwice | ⟨a, hne, huse, ha⟩ := hw
  · exact Or.inl htwice
  · refine Or.inr ⟨a, hne, (Resources.inUse_acquire _ h hfree a).mpr (Or.inr huse),
      fun t ht heq => ?_⟩
    obtain ⟨-, rfl⟩ | ⟨-, heq⟩ := of_update heq
    · exact hfree huse
    · exact ha t ht heq

theorem Damaged.clear (hw : w.Damaged) (s : StackPtr n) : (w.clear s).Damaged := by
  obtain htwice | ⟨a, hne, huse, ha⟩ := hw
  · exact Or.inl htwice
  · refine Or.inr ⟨a, hne, huse, fun t ht heq => ?_⟩
    obtain ⟨-, rfl⟩ | ⟨-, heq⟩ := of_update heq
    · exact hne rfl
    · exact ha t ht heq

theorem Damaged.release (hw : w.Damaged) (hs : s ≠ .pep) : (w.release s).Damaged := by
  unfold StackWorld.release
  split
  · exact hw
  · obtain htwice | ⟨a, hne, huse, ha⟩ := hw
    · exact Or.inl fun honce => htwice (Resources.atMostOnce_of_release honce)
    · exact Or.inr ⟨a, hne, (Resources.inUse_release ..).mpr ⟨(ha s hs).symm, huse⟩, ha⟩

theorem Damaged.close (hw : w.Damaged) (hs : s ≠ .pep) : (w.close s).Damaged :=
  (hw.release hs).clear s

theorem Damaged.foldl {f : StackWorld n → StackPtr n → StackWorld n}
    (hf : ∀ v s, s ≠ .pep → v.Damaged → (f v s).Damaged) (hw : w.Damaged) (hss : .pep ∉ ss) :
    (ss.foldl f w).Damaged := by
  induction ss generalizing w with
  | nil => exact hw
  | cons s ss ih =>
    obtain ⟨hs, hss⟩ := not_or.mp (List.mem_cons.not.mp hss)
    exact ih (hf w s (Ne.symm hs) hw) hss

/-- A label undoes no damage. -/
theorem Damaged.failed (hw : w.Damaged) (s : StackPtr n) : (w.failed s).Damaged := by
  have hhints : ∀ v : StackWorld n, v.Damaged → v.free_hints.Damaged :=
    fun v hv => (hv.close (by simp)).congr rfl rfl
  have hinfo : ∀ v : StackWorld n, v.Damaged → v.free_info.Damaged :=
    fun v hv => hhints _ (hv.close (by simp))
  have hfabric : ∀ v : StackWorld n, v.Damaged → v.free_fabric.Damaged :=
    fun v hv => hinfo _ (hv.close (by simp))
  have heq : ∀ v : StackWorld n, v.Damaged → v.free_eq.Damaged :=
    fun v hv => hfabric _ (hv.close (by simp))
  have hdomain : ∀ v : StackWorld n, v.Damaged → v.free_domain.Damaged :=
    fun v hv => heq _ (hv.close (by simp))
  have hcq : ∀ v : StackWorld n, v.Damaged → v.free_cq.Damaged :=
    fun v hv => hdomain _ (hv.foldl (fun _ _ hs hu => hu.release hs) (by simp))
  cases s with
  | hints => exact hhints _ (hw.clear _)
  | info => exact hinfo w hw
  | fabric => exact hfabric w hw
  | peq => exact heq w hw
  | domain => exact hdomain w hw
  | cq i => exact hcq w hw
  | hints_tmp => exact hcq w hw
  | pep => exact hcq w hw

theorem Damaged.openAll {reply : StackPtr n → Option Addr} {calls : List (StackPtr n)}
    (hw : w.Damaged) (hopen : openAll reply calls w = some w') : w'.Damaged := by
  induction calls generalizing w with
  | nil =>
    cases hopen
    exact hw.congr rfl rfl
  | cons s rest ih =>
    rw [StackWorld.openAll] at hopen
    split at hopen
    · cases hopen
      exact hw.failed s
    · obtain ⟨v, hv, hopen⟩ := Option.bind_eq_some_iff.mp hopen
      exact ih (hw.opened hv) hopen

/-- Of a stack without stale pointers, what a pointer led to is lost when it is overwritten. -/
theorem Tracks.lost (hw : w.Tracks L) (hcqs : ∀ i, .cq i ∈ L) (hs : s ∈ L)
    (hptr : w'.ptr = Function.update w.ptr s h) (hne : h ≠ w.ptr s)
    (huse : w'.objects.InUse (w.ptr s)) : w'.Lost := by
  refine ⟨w.ptr s, hw.nonnull s hs, huse, fun t _ heq => ?_⟩
  rw [hptr] at heq
  obtain ⟨-, heq⟩ | ⟨hts, heq⟩ := of_update heq
  · exact hne heq
  · have ht : t ∈ L := by
      by_contra hnot
      obtain ⟨⟨i, rfl⟩, -⟩ := hw.stale t hnot (heq ▸ hw.nonnull s hs)
      exact hnot (hcqs i)
    exact hts (hw.inj t ht s hs heq)

/-- So it is when the pointer is written by a call. -/
theorem Tracks.damaged_opened (hw : w.Tracks L) (hcqs : ∀ i, .cq i ∈ L) (hs : s ∈ L)
    (hopen : w.opened s h = some w') : w'.Damaged := by
  have huse : w.objects.InUse (w.ptr s) := (hw.live _).mpr ⟨s, hs, rfl⟩
  obtain ⟨hfree, -, rfl⟩ := opened_cases hopen
  refine Or.inr (hw.lost hcqs hs rfl ?_ ((Resources.inUse_acquire _ h hfree _).mpr (Or.inr huse)))
  rintro rfl
  exact hfree huse

theorem Tracks.damaged_clear (hw : w.Tracks L) (hcqs : ∀ i, .cq i ∈ L) (hs : s ∈ L) :
    (w.clear s).Damaged :=
  Or.inr (hw.lost hcqs hs rfl (hw.nonnull s hs).symm ((hw.live _).mpr ⟨s, hs, rfl⟩))

/-! ## What a call leaves -/

theorem Tracks.congr {v : StackWorld n} (hw : w.Tracks L) (hptr : v.ptr = w.ptr)
    (hobjects : v.objects = w.objects) : v.Tracks L := by
  obtain ⟨once, live, nonnull, inj, stale⟩ := hw
  exact ⟨by rw [hobjects]; exact once, by rw [hobjects, hptr]; exact live,
    by rw [hptr]; exact nonnull, by rw [hptr]; exact inj, by rw [hobjects, hptr]; exact stale⟩

/-- A call of `init` fails, with nothing stale to close: nothing is left open. -/
theorem good_failed {pre rest : List (StackPtr n)} (hsplit : initCalls n = pre ++ s :: rest)
    (hw : w.Tracks L) (hL : ∀ t, t ∈ L ↔ t ∈ pre)
    (hnull : ∀ i, s = .cq i → ∀ t ∈ s :: rest, w.ptr t = nullptr)
    (hfailed : w.failed s =
      { ptr := fun t => if t ∈ cleared s then nullptr else w.ptr t
        initialized := false
        objects := w.objects.releaseAll (w.handles (closes s)) }) : (w.failed s).Good := by
  have hall : ∀ t ∈ L, t ∈ closes s := fun t ht => mem_closes hsplit ((hL t).mp ht)
  have honly : ∀ t ∈ closes s, w.ptr t ≠ nullptr → t ∈ L := by
    intro t ht hne
    by_contra hnot
    -- a stale pointer is closed only when a completion queue fails, and would be null then
    obtain ⟨⟨k, rfl⟩, -⟩ := hw.stale t hnot hne
    cases s with
    | cq i =>
      have hin : StackPtr.cq k ∈ initCalls n :=
        List.mem_append_right _ (List.mem_map_of_mem (List.mem_finRange k))
      rw [hsplit, List.mem_append] at hin
      exact hne (hnull i rfl _ (hin.resolve_left fun h => hnot ((hL _).mpr h)))
    | _ => simp [closes, cleared] at ht
  obtain ⟨honce, hnone⟩ := hw.releaseAll (nodup_closes s) hall honly
  rw [hfailed]
  refine .down rfl ⟨honce, fun h => ⟨fun huse => absurd huse (hnone h), ?_⟩, ?_, ?_, ?_⟩
  · rintro ⟨t, ht, -⟩
    cases ht
  · intro t ht
    cases ht
  · intro t ht
    cases ht
  · intro t _ hne
    replace hne : (if t ∈ cleared s then nullptr else w.ptr t) ≠ nullptr := hne
    show _ ∧ (w.objects.releaseAll _).owner (if t ∈ cleared s then nullptr else w.ptr t) ≠ none
    split at hne
    · exact absurd rfl hne
    rename_i hclear
    rw [if_neg hclear, Resources.owner_releaseAll]
    by_cases ht : t ∈ L
    · constructor
      · have hcl := hall t ht
        cases s with
        | cq i =>
          obtain hcq | hcl := List.mem_append.mp hcl
          · obtain ⟨k, -, rfl⟩ := List.mem_map.mp hcq
            exact ⟨k, rfl⟩
          · exact absurd hcl hclear
        | _ => exact absurd hcl (by simpa [closes] using hclear)
      · obtain ⟨k, hk, -⟩ := Resources.inUse_iff.mp ((hw.live _).mpr ⟨t, ht, rfl⟩)
        rw [hk]
        exact Option.some_ne_none k
    · exact hw.stale t ht hne

/-- **What `init` leaves**, from one of its calls on. -/
theorem openAll_spec {reply : StackPtr n → Option Addr} {pre rest : List (StackPtr n)}
    (hsplit : initCalls n = pre ++ rest) (hw : w.Tracks L) (hL : ∀ s, s ∈ L ↔ s ∈ pre)
    (hopen : openAll reply rest w = some w') :
    (w.Unused reply rest → w'.Good) ∧ (¬ w.Unused reply rest → w'.Damaged) := by
  induction rest generalizing w pre L with
  | nil =>
    cases hopen
    rw [List.append_nil] at hsplit
    subst hsplit
    refine ⟨fun _ => .up rfl L (hw.congr rfl rfl) ?_ (fun i => ?_) ?_, fun hbad => ?_⟩
    · exact (hL _).mpr (by simp [initCalls])
    · exact (hL _).mpr (by simp [initCalls])
    · exact fun hpep => absurd ((hL _).mp hpep) (by simp [initCalls])
    · exact absurd (fun i rest h => by cases h) hbad
  | cons s rest ih =>
    have hnodup := nodup_initCalls n
    rw [hsplit] at hnodup
    obtain ⟨-, hrest, hapart⟩ := List.nodup_append.mp hnodup
    have hnew : ∀ t ∈ s :: rest, t ∉ L := fun t ht htL => hapart t ((hL t).mp htL) t ht rfl
    have hs : s ∈ initCalls n := by
      rw [hsplit]
      exact List.mem_append_right _ List.mem_cons_self
    cases hreply : reply s with
    | none =>
      simp only [openAll, hreply, Option.some.injEq] at hopen
      subst hopen
      have hdrop : (s :: rest).dropWhile (fun t => (reply t).isSome) = s :: rest := by
        simp [hreply]
      have hhints : s = .hints → w.ptr .hints = nullptr := by
        rintro rfl
        by_contra hne
        exact hnew .hints List.mem_cons_self (hw.mem_of_ne hne (by simp))
      have hfailed := failed_eq hs hhints
      constructor
      · intro hunused
        refine good_failed hsplit hw hL (fun i hi => ?_) hfailed
        subst hi
        exact hunused i rest hdrop
      · intro hbad
        simp only [Unused, hdrop, not_forall] at hbad
        obtain ⟨i, tl, heq, t, ht, hne⟩ := hbad
        obtain ⟨rfl, rfl⟩ := List.cons.inj heq
        refine Or.inl ?_
        rw [hfailed]
        have htL : t ∉ L := hnew t ht
        refine hw.not_atMostOnce (fun u hu => mem_closes hsplit ((hL u).mp hu)) ?_ hne htL
        obtain ⟨⟨k, rfl⟩, -⟩ := hw.stale t htL hne
        exact List.mem_append_left _ (List.mem_map_of_mem (List.mem_finRange k))
    | some h =>
      simp only [openAll, hreply] at hopen
      obtain ⟨v, hv, hopen⟩ := Option.bind_eq_some_iff.mp hopen
      have hptr : ∀ t ∈ rest, v.ptr t = w.ptr t := by
        intro t ht
        obtain ⟨-, -, rfl⟩ := opened_cases hv
        refine Function.update_of_ne ?_ _ _
        rintro rfl
        exact (List.nodup_cons.mp hrest).1 ht
      have hiff : v.Unused reply rest ↔ w.Unused reply (s :: rest) := by
        simp only [Unused, List.dropWhile_cons, hreply, Option.isSome_some, if_true]
        refine forall₂_congr fun i tl => forall_congr' fun heq => forall₂_congr fun t ht => ?_
        have hmem : t ∈ rest := List.dropWhile_subset _ (heq ▸ ht)
        rw [hptr t hmem]
      have hsplit' : initCalls n = (pre ++ [s]) ++ rest := by simpa using hsplit
      rw [← hiff]
      refine ih hsplit' (tracks_opened hw (hnew s List.mem_cons_self) hv) ?_ hopen
      intro t
      rw [List.mem_cons, hL, List.mem_append, List.mem_singleton, or_comm]

/-- `init` on a stack that is initialized loses the hints. -/
theorem damaged_init {reply : StackPtr n → Option Addr} (hw : w.Tracks L)
    (hcqs : ∀ i, .cq i ∈ L) (hhints : .hints ∈ L) (hinit : w.init reply = some w') :
    w'.Damaged := by
  rw [init, initCalls, List.cons_append, openAll] at hinit
  split at hinit
  · cases hinit
    exact ((hw.damaged_clear hcqs hhints).close (by simp)).congr rfl rfl
  · obtain ⟨v, hv, hinit⟩ := Option.bind_eq_some_iff.mp hinit
    exact (hw.damaged_opened hcqs hhints hv).openAll hinit

theorem Damaged.allocHints (hw : w.Damaged) {reply : Option Addr}
    (halloc : w.allocHints reply = some w') : w'.Damaged := by
  cases reply with
  | none =>
    cases halloc
    exact hw.clear _
  | some h => exact hw.opened halloc

/-- **What writing `hints_tmp` does**: it is tracked if the pointer was null, and loses what
the pointer led to if not. -/
theorem allocHints_spec {reply : Option Addr} (hinit : w.initialized = true) (hw : w.Tracks L)
    (hhints : .hints ∈ L) (hcqs : ∀ i, .cq i ∈ L) (hpep : .pep ∉ L)
    (halloc : w.allocHints reply = some w') :
    w'.initialized = true ∧
      (w.ptr .hints_tmp = nullptr →
        ∃ L', w'.Tracks L' ∧ .hints ∈ L' ∧ (∀ i, .cq i ∈ L') ∧ .pep ∉ L') ∧
      (w.ptr .hints_tmp ≠ nullptr → w'.Damaged) := by
  cases reply with
  | none =>
    cases halloc
    refine ⟨hinit, fun hnull => ⟨L, hw.congr ?_ rfl, hhints, hcqs, hpep⟩,
      fun hne => hw.damaged_clear hcqs (hw.mem_of_ne hne (by simp))⟩
    show Function.update w.ptr _ nullptr = w.ptr
    rw [← hnull, Function.update_eq_self]
  | some h =>
    have hinit' : w'.initialized = true := by
      obtain ⟨-, -, rfl⟩ := opened_cases halloc
      exact hinit
    refine ⟨hinit', fun hnull => ⟨.hints_tmp :: L, tracks_opened hw ?_ halloc, ?_, ?_, ?_⟩,
      fun hne => hw.damaged_opened hcqs (hw.mem_of_ne hne (by simp)) halloc⟩
    · exact fun hin => hw.nonnull _ hin hnull
    · exact List.mem_cons_of_mem _ hhints
    · exact fun i => List.mem_cons_of_mem _ (hcqs i)
    · simpa using hpep

/-- A passive endpoint that is created is lost. -/
theorem Tracks.damaged_pep (hw : w.Tracks L) (hcqs : ∀ i, .cq i ∈ L)
    (hopen : w.opened .pep h = some w') : w'.Damaged := by
  obtain ⟨hfree, hne, rfl⟩ := opened_cases hopen
  refine Or.inr ⟨h, hne, (Resources.inUse_acquire _ h hfree h).mpr (Or.inl rfl),
    fun s hs heq => ?_⟩
  replace heq : Function.update w.ptr .pep h s = h := heq
  rw [Function.update_of_ne hs] at heq
  have hin : s ∈ L := by
    by_contra hnot
    obtain ⟨⟨i, rfl⟩, -⟩ := hw.stale s hnot (heq ▸ hne)
    exact hnot (hcqs i)
  exact hfree ((hw.live h).mpr ⟨s, hin, heq⟩)

theorem bind_spec {args : Bool} {r : BindReply} (hw : w.Good)
    (hstep : (w.bind args r).map Prod.fst = some w') :
    (w.Guard (.bind args r) → w'.Good) ∧ (¬ w.Guard (.bind args r) → w'.Damaged) := by
  obtain ⟨⟨v, res⟩, hbind, rfl⟩ := Option.map_eq_some_iff.mp hstep
  rw [StackWorld.bind] at hbind
  split at hbind
  · rename_i hcond
    cases hbind
    refine ⟨fun _ => hw, fun hbad => absurd (fun hinit hargs => ?_) hbad⟩
    exact absurd hcond (by simp [hinit, hargs])
  rename_i hcond
  obtain ⟨hinit, hargs⟩ : w.initialized = true ∧ args = true := by simpa using hcond
  cases hw with
  | down h hw => exact absurd (h.symm.trans hinit) (by simp)
  | up h L hw hhints hcqs hpep =>
  obtain ⟨u, hu, hbind⟩ := Option.bind_eq_some_iff.mp hbind
  obtain ⟨huinit, hgood, hbad⟩ := allocHints_spec h hw hhints hcqs hpep hu
  have hiff : w.Guard (.bind args r) ↔ w.ptr .hints_tmp = nullptr ∧
      (r.hints_tmp = none ∨ r.info_tmp = false ∨ r.pep = none) :=
    ⟨fun hg => hg hinit hargs, fun hg _ _ => hg⟩
  rw [hiff]
  -- whether the call gets as far as the passive endpoint
  by_cases hearly : r.hints_tmp = none ∨ r.info_tmp = false ∨ r.pep = none
  · have hvu : v = u := by
      split at hbind
      · cases hbind
        rfl
      · rename_i hgo
        have hnone : r.pep = none := by
          rcases hearly with h | h | h
          · exact absurd (Or.inl h) hgo
          · exact absurd (Or.inr h) hgo
          · exact h
        rw [hnone] at hbind
        cases hbind
        rfl
    subst hvu
    refine ⟨fun hg => ?_, fun hg => hbad fun hnull => hg ⟨hnull, hearly⟩⟩
    obtain ⟨L', hw', hhints', hcqs', hpep'⟩ := hgood hg.1
    exact .up huinit L' hw' hhints' hcqs' hpep'
  · refine ⟨fun hg => absurd hg.2 hearly, fun _ => ?_⟩
    obtain ⟨hht, hinfo, hpepr⟩ : r.hints_tmp ≠ none ∧ r.info_tmp ≠ false ∧ r.pep ≠ none := by
      simpa only [not_or] using hearly
    rw [if_neg (not_or.mpr ⟨hht, hinfo⟩)] at hbind
    obtain ⟨x, hx⟩ := Option.ne_none_iff_exists'.mp hpepr
    rw [hx] at hbind
    obtain ⟨y, hy, heq⟩ := Option.map_eq_some_iff.mp hbind
    cases heq
    by_cases hnull : w.ptr .hints_tmp = nullptr
    · obtain ⟨L', hw', -, hcqs', -⟩ := hgood hnull
      exact hw'.damaged_pep hcqs' hy
    · exact (hbad hnull).opened hy

theorem connect_spec {args : Bool} {r : ConnectReply} (hw : w.Good)
    (hstep : (w.connect args r).map Prod.fst = some w') :
    (w.Guard (.connect args r) → w'.Good) ∧ (¬ w.Guard (.connect args r) → w'.Damaged) := by
  obtain ⟨⟨v, res⟩, hcon, rfl⟩ := Option.map_eq_some_iff.mp hstep
  rw [StackWorld.connect] at hcon
  split at hcon
  · rename_i hcond
    cases hcon
    refine ⟨fun _ => hw, fun hbad => absurd (fun hinit hargs => ?_) hbad⟩
    exact absurd hcond (by simp [hinit, hargs])
  rename_i hcond
  obtain ⟨hinit, hargs⟩ : w.initialized = true ∧ args = true := by simpa using hcond
  cases hw with
  | down h hw => exact absurd (h.symm.trans hinit) (by simp)
  | up h L hw hhints hcqs hpep =>
  obtain ⟨u, hu, heq⟩ := Option.map_eq_some_iff.mp hcon
  cases heq
  obtain ⟨huinit, hgood, hbad⟩ := allocHints_spec h hw hhints hcqs hpep hu
  refine ⟨fun hg => ?_, fun hg => hbad fun hnull => hg fun _ _ => hnull⟩
  obtain ⟨L', hw', hhints', hcqs', hpep'⟩ := hgood (hg hinit hargs)
  exact .up huinit L' hw' hhints' hcqs' hpep'

/-- **A call leaves a good stack good when it meets the condition, and damages it when it does
not.** -/
theorem step_spec {op : StackOp n} (hw : w.Good) (hstep : w.step op = some w') :
    (w.Guard op → w'.Good) ∧ (¬ w.Guard op → w'.Damaged) := by
  cases op with
  | init reply =>
    cases hw with
    | down h hw =>
      obtain ⟨hgood, hbad⟩ :=
        openAll_spec (List.nil_append (initCalls n)).symm hw (by simp) hstep
      exact ⟨fun hg => hgood hg.2, fun hg => hbad fun hunused => hg ⟨h, hunused⟩⟩
    | up h L hw hhints hcqs hpep =>
      refine ⟨fun hg => absurd (h.symm.trans hg.1) (by simp), fun _ => ?_⟩
      exact damaged_init hw hcqs hhints hstep
  | bind args r => exact bind_spec hw hstep
  | listen ok =>
    cases hstep
    exact ⟨fun _ => hw, fun hg => absurd trivial hg⟩
  | connect args r => exact connect_spec hw hstep

/-- No call undoes damage. -/
theorem damaged_step {op : StackOp n} (hw : w.Damaged) (hstep : w.step op = some w') :
    w'.Damaged := by
  cases op with
  | init reply => exact hw.openAll hstep
  | listen ok =>
    cases hstep
    exact hw
  | bind args r =>
    obtain ⟨⟨v, res⟩, hbind, rfl⟩ := Option.map_eq_some_iff.mp hstep
    rw [StackWorld.bind] at hbind
    split at hbind
    · cases hbind
      exact hw
    · obtain ⟨u, hu, hbind⟩ := Option.bind_eq_some_iff.mp hbind
      split at hbind
      · cases hbind
        exact hw.allocHints hu
      · split at hbind
        · cases hbind
          exact hw.allocHints hu
        · obtain ⟨y, hy, heq⟩ := Option.map_eq_some_iff.mp hbind
          cases heq
          exact (hw.allocHints hu).opened hy
  | connect args r =>
    obtain ⟨⟨v, res⟩, hcon, rfl⟩ := Option.map_eq_some_iff.mp hstep
    rw [StackWorld.connect] at hcon
    split at hcon
    · cases hcon
      exact hw
    · obtain ⟨u, hu, heq⟩ := Option.map_eq_some_iff.mp hcon
      cases heq
      exact hw.allocHints hu

/-! ## The destructor -/

theorem nodup_destroyed (n : ℕ) : (destroyed n).Nodup := by
  refine List.nodup_append.mpr ⟨List.nodup_cons.mpr ⟨by simp, nodup_cqs n⟩, by simp,
    fun a ha b hb => ?_⟩
  rintro rfl
  obtain rfl | ha := List.mem_cons.mp ha
  · simp at hb
  · obtain ⟨i, -, rfl⟩ := List.mem_map.mp ha
    simp at hb

theorem mem_destroyed (hs : s ≠ .pep) : s ∈ destroyed n := by
  cases s <;> simp_all [destroyed]

theorem objects_destroy (w : StackWorld n) :
    w.destroy.objects = w.objects.releaseAll (w.handles (destroyed n)) := by
  rw [destroy, foldl_close (nodup_destroyed n)]

/-- **What the destructor does to a good stack.** -/
theorem Good.destroy_iff (hw : w.Good) : w.destroy.objects.AllReleased ↔ w.EndGuard := by
  rw [objects_destroy]
  constructor
  · intro hall
    cases hw with
    | up h L hw hhints hcqs hpep => exact Or.inl h
    | down h hw =>
      refine Or.inr fun i => ?_
      by_contra hne
      exact hw.not_atMostOnce (fun t ht => by cases ht) (mem_destroyed (by simp)) hne
        (by simp) (Resources.atMostOnce_of_allReleased hall)
  · intro hend
    have hclose : ∃ L, w.Tracks L ∧ (∀ s ∈ L, s ∈ destroyed n) ∧
        ∀ s ∈ destroyed n, w.ptr s ≠ nullptr → s ∈ L := by
      cases hw with
      | up h L hw hhints hcqs hpep =>
        refine ⟨L, hw, fun s hs => mem_destroyed ?_, fun s _ hne => ?_⟩
        · rintro rfl
          exact hpep hs
        · by_contra hnot
          obtain ⟨⟨i, rfl⟩, -⟩ := hw.stale s hnot hne
          exact hnot (hcqs i)
      | down h hw =>
        refine ⟨[], hw, by simp, fun s _ hne => ?_⟩
        obtain ⟨⟨i, rfl⟩, -⟩ := hw.stale s (by simp) hne
        obtain hinit | hnull := hend
        · exact absurd (h.symm.trans hinit) (by simp)
        · exact absurd (hnull i) hne
    obtain ⟨L, htracks, hall, honly⟩ := hclose
    obtain ⟨honce, hnone⟩ := htracks.releaseAll (nodup_destroyed n) hall honly
    exact (Resources.allReleased_iff honce).mpr hnone

theorem Damaged.destroy (hw : w.Damaged) : ¬ w.destroy.objects.AllReleased := by
  intro hall
  have hpep : StackPtr.pep ∉ destroyed n := by simp [destroyed]
  have hdamaged : w.destroy.Damaged := hw.foldl (fun _ _ hs hv => hv.close hs) hpep
  obtain htwice | ⟨a, -, huse, -⟩ := hdamaged
  · exact htwice (Resources.atMostOnce_of_allReleased hall)
  · exact (Resources.allReleased_iff (Resources.atMostOnce_of_allReleased hall)).mp hall a huse

end

/-- **Everything that the stack has obtained is closed exactly once, when it is destroyed after
any sequence of calls, if and only if** every call meets the condition and the queues of a
stack that is not initialized are null. -/
theorem closed_once_iff (ops : List (StackOp n)) {w : StackWorld n}
    (hrun : run step (construct n) ops = some w) :
    w.destroy.objects.AllReleased ↔ Meets step Guard (construct n) ops ∧ w.EndGuard := by
  have hgood : (construct n).Good := .down rfl (tracks_construct n)
  obtain ⟨hmeets, hw⟩ | ⟨hnot, hw⟩ := good_or_damaged
    (fun _ _ _ hs hg ht => (step_spec hs ht).1 hg) (fun _ _ _ hs hg ht => (step_spec hs ht).2 hg)
    (fun _ _ _ hs ht => damaged_step hs ht) hgood hrun
  · rw [hw.destroy_iff]
    exact ⟨fun hend => ⟨hmeets, hend⟩, And.right⟩
  · exact iff_of_false hw.destroy fun h => hnot h.1

/-- A client that connects, whose connection cannot be set up. -/
def connectRun : List (StackOp 2) :=
  [.init fun
      | .hints => some 1 | .info => some 2 | .fabric => some 3 | .peq => some 4
      | .domain => some 5 | .cq 0 => some 6 | .cq 1 => some 7 | _ => none,
    .connect true ⟨some 8, true, none⟩]

theorem closed_once_connect :
    ∃ w, run step (construct 2) connectRun = some w ∧ w.destroy.objects.AllReleased ∧
      Meets step Guard (construct 2) connectRun ∧ w.EndGuard := by
  have hrun : (run step (construct 2) connectRun).map
      (fun w => decide w.destroy.objects.AllReleased) = some true := by
    decide +kernel
  obtain ⟨w, hw, hclosed⟩ := Option.map_eq_some_iff.mp hrun
  have hclosed := of_decide_eq_true hclosed
  exact ⟨w, hw, hclosed, (closed_once_iff connectRun hw).mp hclosed⟩

/-- The second completion queue cannot be opened. -/
def failingRun : List (StackOp 2) :=
  [.init fun
      | .hints => some 1 | .info => some 2 | .fabric => some 3 | .peq => some 4
      | .domain => some 5 | .cq 0 => some 6 | _ => none]

/-- The first one is closed by the label and by the destructor. -/
theorem not_closed_once_failing :
    ¬ ∀ w, run step (construct 2) failingRun = some w → w.destroy.objects.AllReleased := by
  intro h
  have hrun : (run step (construct 2) failingRun).map
      (fun w => decide w.destroy.objects.AllReleased) = some false := by
    decide +kernel
  obtain ⟨w, hw, hbad⟩ := Option.map_eq_some_iff.mp hrun
  exact of_decide_eq_false hbad (h w hw)

end StackWorld

end Hpnl
