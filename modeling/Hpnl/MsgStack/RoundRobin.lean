import Hpnl.Chunk
import Hpnl.Lib.Transition

/-!
# The completion queues of the connections

`MsgStack::connect` and `accept` bind a new connection to `cqs[seq_num % worker_num]`, and
count `seq_num` up when they record it in `conMap`, also when its `accept` fails afterwards.
`seq_num` is a `uint64_t`, and there are no more than 2⁶⁴ addresses for the event queues that
are open.

* `WorkerStack` — a stack with its queues; the number of workers is in range.
* `RoundRobin` — the `k`th connection to enter `conMap` is bound to queue `k % worker_num`,
  and the connections are spread evenly.
* `Inv` — the counter is the number of connections that have entered, modulo 2⁶⁴.
* `roundRobin_iff` — with connections that are taken out of the map and deleted in between, the
  queues are dealt out in turn as long as the counter does not wrap, and for ever if the number
  of workers divides 2⁶⁴.
* `roundRobin_calls` — **`connect` and `accept` deal the queues out in turn**: there are not
  enough addresses for the counter to wrap.
-/

namespace Hpnl

open MachineInt Transition

/-- `include/HPNL/Common.h`. -/
abbrev MAX_WORKERS : ℕ := 10

/-- A `MsgConnection`: the fid of its event queue, `conCq` and `cq_index`. -/
structure WorkerConnection where
  fid : Addr
  conCq : Addr
  cq_index : ℕ
  deriving DecidableEq, Repr

/-- A `MsgStack`.  `openEqs` are the fids of the event queues that are open, and `entered` the
connections that have entered `conMap`, in order. -/
structure WorkerStack where
  worker_num : ℕ
  worker_num_pos : 0 < worker_num
  worker_num_le : worker_num ≤ MAX_WORKERS
  initialized : Bool
  cqs : Fin MAX_WORKERS → Addr
  seq_num : ℕ
  conMap : StdMap Addr WorkerConnection
  openEqs : Finset Addr
  entered : List WorkerConnection

/-- A call.  `args` is whether the arguments are there and `fi_getinfo` succeeds, `init` whether
the connection's `init` does. -/
inductive WorkerOp where
  /-- `res` is what `connect` of the connection returns. -/
  | connect (args : Bool) (fid : Addr) (init : Bool) (res : ℤ)
  | accept (args : Bool) (fid : Addr) (init accept : Bool)
  /-- `MsgStack::reap`. -/
  | reap (fid : Addr)
  /-- A connection that is not in `conMap` is deleted. -/
  | delete (fid : Addr)
  deriving DecidableEq, Repr

/-- `connect` and `accept`. -/
def WorkerOp.IsCall : WorkerOp → Prop
  | connect .. => True
  | accept .. => True
  | reap _ => False
  | delete _ => False

instance : DecidablePred WorkerOp.IsCall := fun op => by
  cases op <;> unfold WorkerOp.IsCall <;> infer_instance

namespace WorkerStack

/-- A stack after `init`. -/
def init (worker_num : ℕ) (hpos : 0 < worker_num) (hle : worker_num ≤ MAX_WORKERS)
    (cqs : Fin MAX_WORKERS → Addr) : WorkerStack :=
  { worker_num := worker_num
    worker_num_pos := hpos
    worker_num_le := hle
    initialized := true
    cqs := cqs
    seq_num := 0
    conMap := ∅
    openEqs := ∅
    entered := [] }

/-- `EAGAIN`. -/
def EAGAIN : ℤ := 11

/-- `cqs[k % worker_num]`. -/
def queue (w : WorkerStack) (k : ℕ) : Addr :=
  w.cqs ⟨k % w.worker_num, (Nat.mod_lt k w.worker_num_pos).trans_le w.worker_num_le⟩

/-- `new MsgConnection(...)`. -/
def next (w : WorkerStack) (fid : Addr) : WorkerConnection :=
  { fid := fid, conCq := w.queue w.seq_num, cq_index := w.seq_num % w.worker_num }

/-- `seq_num++` and `conMap.insert`. -/
def record (w : WorkerStack) (con : WorkerConnection) : WorkerStack :=
  { w with
    seq_num := toUInt64 (w.seq_num + 1)
    conMap := w.conMap.insertNew con.fid con
    openEqs := insert con.fid w.openEqs
    entered := if w.conMap.has con.fid then w.entered else w.entered ++ [con] }

/-- `MsgStack::connect`, with the fid of the event queue that it returns.  A connection whose
`connect` is to be tried again is recorded. -/
def connect (w : WorkerStack) (args : Bool) (fid : Addr) (init : Bool) (res : ℤ) :
    WorkerStack × Addr :=
  if w.initialized = false ∨ args = false then (w, nullptr)
  else if init = false then (w, nullptr)
  else if res ≠ 0 ∧ res ≠ EAGAIN then (w, nullptr)
  else (w.record (w.next fid), fid)

/-- `MsgStack::accept`. -/
def accept (w : WorkerStack) (args : Bool) (fid : Addr) (init accept : Bool) :
    WorkerStack × Addr :=
  if w.initialized = false ∨ args = false then (w, nullptr)
  else if init = false then (w, nullptr)
  else if accept = false then (w.record (w.next fid), nullptr)
  else (w.record (w.next fid), fid)

/-- An event queue can be opened at this address: no open one is there. -/
def CanOpen (w : WorkerStack) (fid : Addr) : Prop := fid ∉ w.openEqs ∧ fid < 2 ^ 64

instance (w : WorkerStack) (fid : Addr) : Decidable (w.CanOpen fid) :=
  inferInstanceAs (Decidable (_ ∧ _))

/-- One call. -/
def step (w : WorkerStack) : WorkerOp → Option WorkerStack
  | .connect args fid init res =>
      if w.CanOpen fid then some (w.connect args fid init res).1 else none
  | .accept args fid init accept =>
      if w.CanOpen fid then some (w.accept args fid init accept).1 else none
  | .reap fid => some { w with conMap := w.conMap.remove fid }
  | .delete fid =>
      if w.conMap.find? fid = none then some { w with openEqs := w.openEqs.erase fid } else none

/-- How many connections have been bound to a worker. -/
def bound (w : WorkerStack) (i : ℕ) : ℕ := w.entered.countP fun con => con.cq_index = i

/-- The workers take turns. -/
structure RoundRobin (w : WorkerStack) : Prop where
  turn : ∀ k con, w.entered[k]? = some con →
    con.conCq = w.queue k ∧ con.cq_index = k % w.worker_num
  even : ∀ i < w.worker_num, ∀ j < w.worker_num, w.bound i ≤ w.bound j + 1

/-- What the calls keep: the queue of a connection is given by the counter, which wraps. -/
structure Inv (w : WorkerStack) : Prop where
  keys : ∀ fid con, w.conMap.find? fid = some con → fid ∈ w.openEqs
  seq_num : w.seq_num = w.entered.length % 2 ^ 64
  turn : ∀ k con, w.entered[k]? = some con →
    con.conCq = w.queue (k % 2 ^ 64) ∧ con.cq_index = k % 2 ^ 64 % w.worker_num

variable {w w' : WorkerStack} {fid : Addr}

theorem inv_init {n : ℕ} {hpos : 0 < n} {hle : n ≤ MAX_WORKERS} {cqs : Fin MAX_WORKERS → Addr} :
    (init n hpos hle cqs).Inv where
  keys := by simp [init]
  seq_num := rfl
  turn := by simp [init]

/-- **A connection is recorded**: it enters, and the counter moves. -/
theorem inv_record (h : w.Inv) (hfid : fid ∉ w.openEqs) : (w.record (w.next fid)).Inv := by
  have hnone : w.conMap.find? fid = none := by
    by_contra hsome
    obtain ⟨con, hcon⟩ := Option.ne_none_iff_exists'.mp hsome
    exact hfid (h.keys fid con hcon)
  have hhas : w.conMap.has (w.next fid).fid = false := StdMap.has_eq_false_iff.mpr hnone
  have hentered : (w.record (w.next fid)).entered = w.entered ++ [w.next fid] :=
    if_neg (by rw [hhas]; exact Bool.false_ne_true)
  refine ⟨fun f con hcon => ?_, ?_, fun k con hcon => ?_⟩
  · rcases (StdMap.find?_insertNew_eq_some hnone).mp hcon with ⟨rfl, -⟩ | hold
    · exact Finset.mem_insert_self ..
    · exact Finset.mem_insert_of_mem (h.keys f con hold)
  · rw [hentered, List.length_append, List.length_singleton]
    show toUInt64 (w.seq_num + 1) = _
    rw [h.seq_num]
    simp only [toUInt64]
    omega
  · rw [hentered] at hcon
    rcases Nat.lt_or_ge k w.entered.length with hk | hk
    · rw [List.getElem?_append_left hk] at hcon
      exact h.turn k con hcon
    · rw [List.getElem?_append_right hk, List.getElem?_singleton] at hcon
      split at hcon
      · cases hcon
        have hk : k = w.entered.length := by omega
        have hseq : w.seq_num = k % 2 ^ 64 := by rw [h.seq_num, hk]
        rw [← hseq]
        exact ⟨rfl, rfl⟩
      · cases hcon

/-- All that a call can do. -/
theorem step_cases (op : WorkerOp) (hstep : w.step op = some w') :
    w' = w ∨ (∃ fid, w.CanOpen fid ∧ w' = w.record (w.next fid)) ∨
      (∃ fid, op = .reap fid ∧ w' = { w with conMap := w.conMap.remove fid }) ∨
      ∃ fid, op = .delete fid ∧ w.conMap.find? fid = none ∧
        w' = { w with openEqs := w.openEqs.erase fid } := by
  cases op with
  | connect args fid init res =>
    simp only [step] at hstep
    split at hstep
    · rename_i hfid
      cases hstep
      unfold connect
      split
      · exact Or.inl rfl
      · split
        · exact Or.inl rfl
        · split
          · exact Or.inl rfl
          · exact Or.inr (Or.inl ⟨fid, hfid, rfl⟩)
    · cases hstep
  | accept args fid init accept =>
    simp only [step] at hstep
    split at hstep
    · rename_i hfid
      cases hstep
      unfold WorkerStack.accept
      split
      · exact Or.inl rfl
      · split
        · exact Or.inl rfl
        · split
          · exact Or.inr (Or.inl ⟨fid, hfid, rfl⟩)
          · exact Or.inr (Or.inl ⟨fid, hfid, rfl⟩)
    · cases hstep
  | reap fid =>
    cases hstep
    exact Or.inr (Or.inr (Or.inl ⟨fid, rfl, rfl⟩))
  | delete fid =>
    simp only [step] at hstep
    split at hstep
    · rename_i hnone
      cases hstep
      exact Or.inr (Or.inr (Or.inr ⟨fid, rfl, hnone, rfl⟩))
    · cases hstep

theorem inv_step (op : WorkerOp) (h : w.Inv) (hstep : w.step op = some w') : w'.Inv := by
  obtain rfl | ⟨fid, hfid, rfl⟩ | ⟨fid, -, rfl⟩ | ⟨fid, -, hnone, rfl⟩ := step_cases op hstep
  · exact h
  · exact inv_record h hfid.1
  · exact ⟨fun f con hcon => h.keys f con (StdMap.find?_remove_eq_some.mp hcon).2, h.seq_num,
      h.turn⟩
  · refine ⟨fun f con hcon => Finset.mem_erase.mpr ⟨?_, h.keys f con hcon⟩, h.seq_num, h.turn⟩
    rintro rfl
    rw [hnone] at hcon
    cases hcon

/-! ## Taking turns -/

/-- Only the remainder counts. -/
theorem queue_congr {k l : ℕ} (h : k % w.worker_num = l % w.worker_num) :
    w.queue k = w.queue l := by
  unfold queue
  congr 2

/-- Numbers dealt out in turn are dealt out evenly. -/
theorem count_le_count_add_one {n : ℕ} (hn : 0 < n) (m i j : ℕ) :
    m.count (· ≡ i [MOD n]) ≤ m.count (· ≡ j [MOD n]) + 1 := by
  rw [Nat.count_modEq_card m hn, Nat.count_modEq_card m hn]
  split <;> split <;> omega

theorem countP_range_mod {n i : ℕ} (hi : i < n) (m : ℕ) :
    (List.range m).countP (fun k => k % n = i) = m.count (· ≡ i [MOD n]) := by
  induction m with
  | zero => rfl
  | succ m ih =>
    rw [List.range_succ, List.countP_append, ih, Nat.count_succ]
    congr 1
    simp [Nat.ModEq, Nat.mod_eq_of_lt hi]

/-- How many connections a worker gets when it is its turn every `worker_num` times. -/
theorem bound_eq (hturn : ∀ k con, w.entered[k]? = some con → con.cq_index = k % w.worker_num)
    {i : ℕ} (hi : i < w.worker_num) :
    w.bound i = w.entered.length.count (· ≡ i [MOD w.worker_num]) := by
  have hmap : w.entered.map WorkerConnection.cq_index =
      (List.range w.entered.length).map (· % w.worker_num) := by
    apply List.ext_getElem?
    intro k
    rw [List.getElem?_map, List.getElem?_map]
    cases hk : w.entered[k]? with
    | none =>
      have hlen := List.getElem?_eq_none_iff.mp hk
      rw [List.getElem?_eq_none_iff.mpr (by simpa using hlen)]
      rfl
    | some con =>
      have hlt := (List.getElem?_eq_some_iff.mp hk).1
      rw [List.getElem?_range hlt, Option.map_some, Option.map_some, hturn k con hk]
  rw [← countP_range_mod hi]
  calc w.bound i = (w.entered.map WorkerConnection.cq_index).countP (· = i) := by
        rw [List.countP_map]
        rfl
    _ = ((List.range w.entered.length).map (· % w.worker_num)).countP (· = i) := by rw [hmap]
    _ = (List.range w.entered.length).countP (fun k => k % w.worker_num = i) := by
        rw [List.countP_map]
        rfl

/-- **The workers take turns exactly until the counter wraps**, or always when that makes no
difference. -/
theorem roundRobin_iff (n : ℕ) (hpos : 0 < n) (hle : n ≤ MAX_WORKERS)
    (cqs : Fin MAX_WORKERS → Addr) (ops : List WorkerOp) (w : WorkerStack)
    (hrun : run step (init n hpos hle cqs) ops = some w) :
    w.RoundRobin ↔ w.entered.length ≤ 2 ^ 64 ∨ w.worker_num ∣ 2 ^ 64 := by
  have h : w.Inv := inv_last (fun _ op _ h hstep => inv_step op h hstep) inv_init hrun
  constructor
  · intro hrobin
    by_contra hnot
    obtain ⟨hlen, hdvd⟩ := not_or.mp hnot
    have hsome : w.entered[2 ^ 64]? = some w.entered[2 ^ 64] :=
      List.getElem?_eq_getElem (not_le.mp hlen)
    have hfirst := (h.turn _ _ hsome).2
    have hturn := (hrobin.turn _ _ hsome).2
    rw [hfirst, Nat.mod_self, Nat.zero_mod] at hturn
    exact hdvd (Nat.dvd_of_mod_eq_zero hturn.symm)
  · intro hfew
    have hmod : ∀ k < w.entered.length, k % 2 ^ 64 % w.worker_num = k % w.worker_num := by
      intro k hk
      rcases hfew with hlen | hdvd
      · rw [Nat.mod_eq_of_lt (hk.trans_le hlen)]
      · exact Nat.mod_mod_of_dvd k hdvd
    have hturn : ∀ k con, w.entered[k]? = some con →
        con.conCq = w.queue k ∧ con.cq_index = k % w.worker_num := by
      intro k con hcon
      obtain ⟨hcq, hindex⟩ := h.turn k con hcon
      have hk := hmod k (List.getElem?_eq_some_iff.mp hcon).1
      exact ⟨hcq.trans (queue_congr hk), hindex.trans hk⟩
    refine ⟨hturn, fun i hi j hj => ?_⟩
    rw [bound_eq (fun k con hcon => (hturn k con hcon).2) hi,
      bound_eq (fun k con hcon => (hturn k con hcon).2) hj]
    exact count_le_count_add_one w.worker_num_pos _ i j

/-! ## Nothing but calls -/

/-- What `connect` and `accept` keep besides: each connection that has entered has an event queue
open, at an address of its own. -/
structure Opened (w : WorkerStack) : Prop extends Inv w where
  card : w.openEqs.card = w.entered.length
  address : ∀ fid ∈ w.openEqs, fid < 2 ^ 64

theorem opened_init {n : ℕ} {hpos : 0 < n} {hle : n ≤ MAX_WORKERS} {cqs : Fin MAX_WORKERS → Addr} :
    (init n hpos hle cqs).Opened where
  toInv := inv_init
  card := rfl
  address := by simp [init]

theorem opened_record (h : w.Opened) (hfid : w.CanOpen fid) : (w.record (w.next fid)).Opened := by
  have hhas : w.conMap.has (w.next fid).fid = false := by
    rw [StdMap.has_eq_false_iff]
    by_contra hsome
    obtain ⟨con, hcon⟩ := Option.ne_none_iff_exists'.mp hsome
    exact hfid.1 (h.keys fid con hcon)
  refine ⟨inv_record h.toInv hfid.1, ?_, fun f hf => ?_⟩
  · show (insert fid w.openEqs).card =
      (if w.conMap.has (w.next fid).fid = true then w.entered else w.entered ++ [_]).length
    rw [Finset.card_insert_of_notMem hfid.1, h.card, hhas, if_neg Bool.false_ne_true]
    simp
  · rcases Finset.mem_insert.mp hf with rfl | hold
    · exact hfid.2
    · exact h.address f hold

/-- A call takes no address back. -/
theorem opened_step {op : WorkerOp} (h : w.Opened) (hcall : op.IsCall)
    (hstep : w.step op = some w') : w'.Opened := by
  obtain rfl | ⟨fid, hfid, rfl⟩ | ⟨fid, rfl, -⟩ | ⟨fid, rfl, -⟩ := step_cases op hstep
  · exact h
  · exact opened_record h hfid
  · exact hcall.elim
  · exact hcall.elim

/-- No more connections have entered than there are addresses. -/
theorem Opened.length_le (h : w.Opened) : w.entered.length ≤ 2 ^ 64 := by
  have hsub : w.openEqs ⊆ Finset.range (2 ^ 64) :=
    fun fid hfid => Finset.mem_range.mpr (h.address fid hfid)
  have hcard := Finset.card_le_card hsub
  rwa [h.card, Finset.card_range] at hcard

/-- **The workers take turns** in every run of `connect` and `accept`. -/
theorem roundRobin_calls (n : ℕ) (hpos : 0 < n) (hle : n ≤ MAX_WORKERS)
    (cqs : Fin MAX_WORKERS → Addr) (ops : List WorkerOp) (hcalls : ∀ op ∈ ops, op.IsCall)
    (w : WorkerStack) (hrun : run step (init n hpos hle cqs) ops = some w) : w.RoundRobin := by
  have hmeets : Meets step (fun _ op => op.IsCall) (init n hpos hle cqs) ops :=
    meets_of_forall fun op hop _ => hcalls op hop
  have h : w.Opened :=
    (always_of_meets (fun _ _ _ h hcall hstep => opened_step h hcall hstep) opened_init
      hmeets).last hrun
  exact (roundRobin_iff n hpos hle cqs ops w hrun).mpr (Or.inl h.length_le)

/-- Five calls with three workers, of which three enter a connection. -/
def fiveCalls : List WorkerOp :=
  [.connect true 1 true 0, .connect true 2 true (-1), .accept true 2 true false,
    .accept true 3 false true, .connect true 4 true EAGAIN]

theorem roundRobin_three :
    ∃ w, run step (init 3 (by decide) (by decide) fun i => 100 + i.val) fiveCalls = some w ∧
      w.entered.map WorkerConnection.cq_index = [0, 1, 2] ∧ w.RoundRobin :=
  ⟨_, rfl, by decide +kernel, roundRobin_calls 3 (by decide) (by decide) (fun i => 100 + i.val)
    fiveCalls (by decide) _ rfl⟩

end WorkerStack

end Hpnl
