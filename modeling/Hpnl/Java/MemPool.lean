import Hpnl.ChunkMgr

/-!
# The buffers of the pool, in Java and in C++

`MemPool` allocates direct buffers under consecutive ids, puts them into its `bufferMap` and
hands each to the native side (`com/intel/hpnl/core/MemPool.java`), which files a chunk for
it in the `ExternalChunkMgr` (`ExternalEqService::set_buffer`).  The id is all that the two
registries share: `bufferMap` belongs to one `MemPool`, and `initBufferPool` makes a new one
that counts from 0 again, while `buf_map` keeps the first chunk of every id.

* `MemPool`, `EqServicePool` — the pool, and an `EqService` with its manager.
* `SameMemory` — under an id both sides find the same memory.
* `Guard` — `initBufferPool` comes before any chunk is known, and no id is set twice.
* `Linked`, `linked_alloc`, `linked_allocs` — the invariant of a pool and its manager, kept by
  one allocation and by all of a call.
* `pool_same_memory` — **for every id that a completion delivers or a send names, both sides
  find the same memory**, in every run that meets the guard.
-/

namespace Hpnl

open MachineInt Transition

/-! ## The code -/

/-- An `HpnlBuffer` of the pool; `memory` is where its `ByteBuffer` lies. -/
structure PoolBuffer where
  bufferId : ℤ
  memory : Addr
  deriving DecidableEq, Repr

/-- A `MemPool`, without its service and the number it was made with. -/
structure MemPool where
  bufferSize : ℤ
  nextBufferNum : ℤ
  bufferMap : StdMap ℤ PoolBuffer
  seqId : ℤ

/-- The pool of an `EqService` (`none` is null), its chunk manager, and the chunk headers.
`out` is a ghost: the chunks that connections have taken. -/
structure EqServicePool where
  bufferPool : Option MemPool
  mem : Mem
  chkMgr : ExternalChunkMgr
  out : List Addr

/-- `getBuffer`. -/
def MemPool.getBuffer (pool : MemPool) (bufferId : ℤ) : Option PoolBuffer :=
  pool.bufferMap.find? bufferId

namespace EqServicePool

/-- A service without a pool. -/
def init (mem : Mem) : EqServicePool := { bufferPool := none, mem := mem, chkMgr := {}, out := [] }

/-- `ExternalEqService::set_buffer`; `new Chunk` answers with `ck`. -/
def set_buffer (w : EqServicePool) (buffer : Addr) (size buffer_id : ℤ) (ck : Addr) :
    EqServicePool :=
  let mem := Function.update w.mem ck
    { buffer := buffer, buffer_id := toUInt64 buffer_id, capacity := toUInt64 size }
  { w with mem := mem, chkMgr := (w.chkMgr.reclaim mem ck none).1 }

/-- `alloc`; `allocateDirect` answers with `byteBuffer`. -/
def alloc (w : EqServicePool) (pool : MemPool) (byteBuffer ck : Addr) : MemPool × EqServicePool :=
  let bufferId := pool.seqId
  ({ pool with
      seqId := toInt32 (bufferId + 1)
      bufferMap := pool.bufferMap.assign bufferId ⟨bufferId, byteBuffer⟩ },
    w.set_buffer byteBuffer pool.bufferSize bufferId ck)

/-- `ck` is not a chunk in use. -/
def FreshChunk (w : EqServicePool) (ck : Addr) : Prop :=
  ck ≠ nullptr ∧ ck ∉ w.chkMgr.bufs ∧ ck ∉ w.out

instance (w : EqServicePool) (ck : Addr) : Decidable (w.FreshChunk ck) :=
  inferInstanceAs (Decidable (_ ∧ _ ∧ _))

/-- The loops of the constructor and of `realloc`: one `alloc` for each answer. -/
def allocs : EqServicePool → MemPool → List (Addr × Addr) → Option (MemPool × EqServicePool)
  | w, pool, [] => some (pool, w)
  | w, pool, (byteBuffer, ck) :: answers =>
      if w.FreshChunk ck then
        let (pool, w) := w.alloc pool byteBuffer ck
        allocs w pool answers
      else none

/-- A new `MemPool`, before its constructor allocates. -/
def newPool (bufferSize nextBufferNum : ℤ) : MemPool :=
  { bufferSize := bufferSize, nextBufferNum := nextBufferNum, bufferMap := ∅, seqId := 0 }

/-- `initBufferPool`, with as many answers as it allocates buffers. -/
def initBufferPool (w : EqServicePool) (bufferSize nextBufferNum : ℤ)
    (answers : List (Addr × Addr)) : Option EqServicePool :=
  (w.allocs (newPool bufferSize nextBufferNum) answers).map fun (pool, w) =>
    { w with bufferPool := some pool }

/-- `reallocBufferPool`; without a pool it is an exception. -/
def reallocBufferPool (w : EqServicePool) (answers : List (Addr × Addr)) : Option EqServicePool :=
  match w.bufferPool with
  | none => some w
  | some pool =>
      if answers.length = pool.nextBufferNum.toNat then
        (w.allocs pool answers).map fun (pool, w) => { w with bufferPool := some pool }
      else none

end EqServicePool

/-! ## Runs -/

/-- What happens to an `EqService`: its two methods, a connection that takes a chunk in its
set-up or gives one back, a native completion of a chunk that a connection has, and a send
of the buffer of such a chunk. -/
inductive EqServicePoolOp where
  | initBufferPool (bufferSize nextBufferNum : ℤ) (answers : List (Addr × Addr))
  | reallocBufferPool (answers : List (Addr × Addr))
  | get
  | reclaim (ck : Addr)
  | completion (ck : Addr)
  | send (bufferId : ℤ)

namespace EqServicePool

def step (w : EqServicePool) : EqServicePoolOp → Option EqServicePool
  | .initBufferPool bufferSize nextBufferNum answers =>
      w.initBufferPool bufferSize nextBufferNum answers
  | .reallocBufferPool answers => w.reallocBufferPool answers
  | .get =>
      (w.chkMgr.get (some {})).map fun (chkMgr, _, ck) =>
        { w with chkMgr := chkMgr, out := if ck = nullptr then w.out else ck :: w.out }
  | .reclaim ck =>
      if ck ∈ w.out then
        some { w with
          chkMgr := (w.chkMgr.reclaim w.mem ck (some {})).1
          out := w.out.erase ck }
      else none
  | .completion ck => if ck ∈ w.out then some w else none
  | .send bufferId =>
      if ∃ ck ∈ w.out, (w.mem ck).key = bufferId then
        some { w with chkMgr := (w.chkMgr.get_by_id bufferId).1 }
      else none

/-- The id that a completion delivers or a send names. -/
def names (w : EqServicePool) : EqServicePoolOp → Option ℤ
  | .completion ck => if ck ∈ w.out then some (w.mem ck).key else none
  | .send bufferId => some bufferId
  | _ => none

/-- The memory that Java finds under `id` is the memory of the chunk that the native side
finds. -/
def SameMemory (w : EqServicePool) (id : ℤ) : Prop :=
  ∃ pool b, w.bufferPool = some pool ∧ pool.getBuffer id = some b ∧
    (w.chkMgr.get_by_id id).2 ≠ nullptr ∧
    (w.mem (w.chkMgr.get_by_id id).2).buffer = b.memory

/-- It is, for the id of the step. -/
def NamesSameMemory (w : EqServicePool) (op : EqServicePoolOp) : Prop :=
  ∀ id ∈ w.names op, w.SameMemory id

/-- No chunk is known under the `k` ids from `first` on. -/
def FreshIds (w : EqServicePool) (first : ℤ) (k : ℕ) : Prop :=
  k ≤ 2 ^ 32 ∧ ∀ i < k, w.chkMgr.buf_map.find? (toInt32 (first + i)) = none

instance (w : EqServicePool) (first : ℤ) (k : ℕ) : Decidable (w.FreshIds first k) :=
  inferInstanceAs (Decidable (_ ∧ _))

/-- **The condition.**  A pool is made only before the native side has any chunk, and a buffer
is allocated only under an id that has none. -/
def Guard (w : EqServicePool) : EqServicePoolOp → Prop
  | .initBufferPool _ _ answers => w.chkMgr.buf_map.entries = [] ∧ answers.length ≤ 2 ^ 32
  | .reallocBufferPool answers => ∀ pool ∈ w.bufferPool, w.FreshIds pool.seqId answers.length
  | _ => True

instance (w : EqServicePool) : DecidablePred w.Guard
  | .initBufferPool .. => by unfold Guard; infer_instance
  | .reallocBufferPool _ => by unfold Guard; infer_instance
  | .get => isTrue trivial
  | .reclaim _ => isTrue trivial
  | .completion _ => isTrue trivial
  | .send _ => isTrue trivial

/-! ## The invariant -/

/-- A pool and the manager go together: every chunk is the one known under its id, and the
pool has a buffer with its memory under that id. -/
structure Linked (w : EqServicePool) (pool : MemPool) : Prop where
  known : ∀ ck, ck ∈ w.chkMgr.bufs ∨ ck ∈ w.out →
    ck ≠ nullptr ∧ w.chkMgr.buf_map.find? (w.mem ck).key = some ck
  same : ∀ id ck, w.chkMgr.buf_map.find? id = some ck → (ck ∈ w.chkMgr.bufs ∨ ck ∈ w.out) ∧
    ∃ b, pool.getBuffer id = some b ∧ (w.mem ck).buffer = b.memory
  range : toInt32 pool.seqId = pool.seqId

/-- The pool in use is linked to the manager; before there is one, there is no chunk. -/
def Inv (w : EqServicePool) : Prop :=
  (∃ pool, w.bufferPool = some pool ∧ w.Linked pool) ∨
    w.bufferPool = none ∧ w.chkMgr.bufs = [] ∧ w.out = [] ∧ w.chkMgr.buf_map.entries = []

theorem inv_init (mem : Mem) : (init mem).Inv := Or.inr ⟨rfl, rfl, rfl, StdMap.entries_empty⟩

section

variable {w w' : EqServicePool} {pool pool' : MemPool}

/-- A pool that is new is linked to a manager without chunks. -/
theorem linked_newPool (hknown : ∀ ck, ck ∈ w.chkMgr.bufs ∨ ck ∈ w.out →
      ck ≠ nullptr ∧ w.chkMgr.buf_map.find? (w.mem ck).key = some ck)
    (hnone : w.chkMgr.buf_map.entries = []) (bufferSize nextBufferNum : ℤ) :
    w.Linked (newPool bufferSize nextBufferNum) := by
  refine ⟨hknown, fun id ck hfind => ?_, toInt32_zero⟩
  have hmem := StdMap.mem_entries.mpr hfind
  rw [hnone] at hmem
  exact absurd hmem List.not_mem_nil

/-- An allocation files its chunk under the pool's next id. -/
theorem buf_map_alloc (h : w.Linked pool) (byteBuffer ck : Addr) :
    (w.alloc pool byteBuffer ck).2.chkMgr.buf_map = w.chkMgr.buf_map.insertNew pool.seqId ck := by
  show w.chkMgr.buf_map.insertNew (Function.update w.mem ck _ ck).key ck = _
  rw [Function.update_self, Chunk.key, toInt32_toUInt64, h.range]

/-- **One allocation** under an id without a chunk keeps the link. -/
theorem linked_alloc (h : w.Linked pool) {byteBuffer ck : Addr} (hck : w.FreshChunk ck)
    (hid : w.chkMgr.buf_map.find? pool.seqId = none) :
    (w.alloc pool byteBuffer ck).2.Linked (w.alloc pool byteBuffer ck).1 := by
  obtain ⟨hnull, hbufs, hout⟩ := hck
  have hself : (w.alloc pool byteBuffer ck).2.mem ck =
      { buffer := byteBuffer, buffer_id := toUInt64 pool.seqId
        capacity := toUInt64 pool.bufferSize } := Function.update_self ..
  have hother : ∀ a, a ∈ w.chkMgr.bufs ∨ a ∈ w.out →
      (w.alloc pool byteBuffer ck).2.mem a = w.mem a := by
    intro a ha
    refine Function.update_of_ne ?_ _ _
    rintro rfl
    exact ha.elim hbufs hout
  have hkey : ((w.alloc pool byteBuffer ck).2.mem ck).key = pool.seqId := by
    rw [hself, Chunk.key, toInt32_toUInt64, h.range]
  have hmap : ∀ id a, (w.alloc pool byteBuffer ck).2.chkMgr.buf_map.find? id = some a ↔
      id = pool.seqId ∧ a = ck ∨ w.chkMgr.buf_map.find? id = some a := by
    intro id a
    rw [buf_map_alloc h]
    exact StdMap.find?_insertNew_eq_some hid
  refine ⟨fun a ha => ?_, fun id a hfind => ?_, toInt32_toInt32 _⟩
  · rw [hmap]
    by_cases hac : a = ck
    · exact ⟨hac ▸ hnull, Or.inl ⟨hac ▸ hkey, hac⟩⟩
    · have hold : a ∈ w.chkMgr.bufs ∨ a ∈ w.out :=
        ha.imp_left fun hmem => (List.mem_cons.mp hmem).resolve_left hac
      rw [hother a hold]
      exact ⟨(h.known a hold).1, Or.inr (h.known a hold).2⟩
  · show _ ∧ ∃ b, (pool.bufferMap.assign pool.seqId _).find? id = some b ∧ _
    rcases (hmap id a).mp hfind with ⟨rfl, rfl⟩ | hold
    · refine ⟨Or.inl List.mem_cons_self, ⟨pool.seqId, byteBuffer⟩, StdMap.find?_assign_self .., ?_⟩
      rw [hself]
    · obtain ⟨hmem, b, hb, hsame⟩ := h.same id a hold
      refine ⟨hmem.imp_left (List.mem_cons_of_mem ck), b, ?_, ?_⟩
      · rw [StdMap.find?_assign_of_ne, ← MemPool.getBuffer, hb]
        rintro rfl
        exact absurd (hid.symm.trans hold) (by simp)
      · rw [hother a hmem, hsame]

/-- The ids after the first are fresh once the first has been taken. -/
theorem freshIds_alloc {byteBuffer ck : Addr} {k : ℕ} (h : w.Linked pool)
    (hfresh : w.FreshIds pool.seqId (k + 1)) :
    (w.alloc pool byteBuffer ck).2.FreshIds (w.alloc pool byteBuffer ck).1.seqId k := by
  obtain ⟨hk, hids⟩ := hfresh
  refine ⟨by omega, fun i hi => ?_⟩
  have hid : toInt32 (toInt32 (pool.seqId + 1) + i) = toInt32 (pool.seqId + (i + 1 : ℕ)) := by
    rw [toInt32_toInt32_add]
    congr 1
    push_cast
    ring
  have hne : toInt32 (pool.seqId + (i + 1 : ℕ)) ≠ pool.seqId := by
    rw [← h.range]
    simp only [toInt32]
    omega
  rw [buf_map_alloc h]
  show (w.chkMgr.buf_map.insertNew pool.seqId ck).find?
    (toInt32 (toInt32 (pool.seqId + 1) + i)) = none
  rw [hid, StdMap.find?_insertNew_of_ne _ _ hne.symm]
  exact hids (i + 1) (by omega)

/-- **All the allocations of a call.** -/
theorem linked_allocs : ∀ {answers : List (Addr × Addr)} {w : EqServicePool} {pool : MemPool},
    w.Linked pool → w.FreshIds pool.seqId answers.length →
      w.allocs pool answers = some (pool', w') → w'.Linked pool' := by
  intro answers
  induction answers with
  | nil =>
    intro w pool h _ hallocs
    cases hallocs
    exact h
  | cons answer answers ih =>
    intro w pool h hfresh hallocs
    obtain ⟨byteBuffer, ck⟩ := answer
    rw [allocs] at hallocs
    split at hallocs
    · rename_i hck
      have hid : w.chkMgr.buf_map.find? pool.seqId = none := by
        have hzero := hfresh.2 0 (Nat.succ_pos _)
        rwa [Nat.cast_zero, add_zero, h.range] at hzero
      exact ih (linked_alloc h hck hid) (freshIds_alloc h hfresh) hallocs
    · cases hallocs

/-- A call does not move the chunks that connections have. -/
theorem linked_congr (h : w.Linked pool) (hmem : w'.mem = w.mem)
    (hmap : w'.chkMgr.buf_map = w.chkMgr.buf_map)
    (hchunks : ∀ ck, (ck ∈ w'.chkMgr.bufs ∨ ck ∈ w'.out) ↔ (ck ∈ w.chkMgr.bufs ∨ ck ∈ w.out)) :
    w'.Linked pool := by
  refine ⟨fun ck hck => ?_, fun id ck hfind => ?_, h.range⟩
  · rw [hmem, hmap]
    exact h.known ck ((hchunks ck).mp hck)
  · rw [hmap] at hfind
    rw [hchunks, hmem]
    exact h.same id ck hfind

/-- A send names the id of a chunk that is known, and enters nothing. -/
theorem get_by_id_of_known (h : w.Linked pool) {ck : Addr} (hck : ck ∈ w.out) :
    w.chkMgr.get_by_id (w.mem ck).key = (w.chkMgr, ck) := by
  have hfind := (h.known ck (Or.inr hck)).2
  rw [ExternalChunkMgr.get_by_id, StdMap.index_of_some _ hfind, StdMap.value_of_some _ hfind]

/-- Before there is a pool nothing can be taken, given back or named. -/
theorem step_without_pool {op : EqServicePoolOp} (hpool : w.bufferPool = none)
    (hbufs : w.chkMgr.bufs = []) (hout : w.out = []) (hstep : w.step op = some w') :
    w' = w ∨ ∃ bufferSize nextBufferNum answers,
      op = .initBufferPool bufferSize nextBufferNum answers := by
  cases op with
  | initBufferPool bufferSize nextBufferNum answers => exact Or.inr ⟨_, _, _, rfl⟩
  | reallocBufferPool answers =>
    rw [step, reallocBufferPool, hpool] at hstep
    cases hstep
    exact Or.inl rfl
  | get =>
    simp only [step, ExternalChunkMgr.get, hbufs, Option.map_some, if_true] at hstep
    cases hstep
    exact Or.inl rfl
  | reclaim ck => simp [step, hout] at hstep
  | completion ck => simp [step, hout] at hstep
  | send bufferId => simp [step, hout] at hstep

theorem inv_initBufferPool {bufferSize nextBufferNum : ℤ} {answers : List (Addr × Addr)}
    (h : w.Inv) (hguard : w.Guard (.initBufferPool bufferSize nextBufferNum answers))
    (hstep : w.initBufferPool bufferSize nextBufferNum answers = some w') : w'.Inv := by
  obtain ⟨hnone, hlen⟩ := hguard
  obtain ⟨⟨pool, w₁⟩, hallocs, rfl⟩ := Option.map_eq_some_iff.mp hstep
  have hfind : ∀ id, w.chkMgr.buf_map.find? id = none := by
    intro id
    by_contra hsome
    obtain ⟨ck, hck⟩ := Option.ne_none_iff_exists'.mp hsome
    have hmem := StdMap.mem_entries.mpr hck
    rw [hnone] at hmem
    exact List.not_mem_nil hmem
  have hlinked : w.Linked (newPool bufferSize nextBufferNum) := by
    refine linked_newPool ?_ hnone bufferSize nextBufferNum
    intro ck hck
    rcases h with ⟨pool, -, hlink⟩ | ⟨-, hbufs, hout, -⟩
    · exact hlink.known ck hck
    · rw [hbufs, hout] at hck
      exact absurd hck (by simp)
  refine Or.inl ⟨pool, rfl, ?_⟩
  exact linked_congr (linked_allocs hlinked ⟨hlen, fun i _ => hfind _⟩ hallocs) rfl rfl
    fun _ => Iff.rfl

/-- **Every step that meets the guard keeps the two registries linked.** -/
theorem inv_step {op : EqServicePoolOp} (h : w.Inv) (hguard : w.Guard op)
    (hstep : w.step op = some w') : w'.Inv := by
  rcases h with ⟨pool, hpool, hlink⟩ | ⟨hpool, hbufs, hout, hmap⟩
  · cases op with
    | initBufferPool bufferSize nextBufferNum answers =>
      exact inv_initBufferPool (Or.inl ⟨pool, hpool, hlink⟩) hguard hstep
    | reallocBufferPool answers =>
      rw [step, reallocBufferPool, hpool] at hstep
      simp only at hstep
      split at hstep
      · obtain ⟨⟨pool', w₁⟩, hallocs, rfl⟩ := Option.map_eq_some_iff.mp hstep
        refine Or.inl ⟨pool', rfl, ?_⟩
        exact linked_congr (linked_allocs hlink (hguard pool hpool) hallocs) rfl rfl
          fun _ => Iff.rfl
      · cases hstep
    | get =>
      rw [step, ExternalChunkMgr.get] at hstep
      cases hb : w.chkMgr.bufs with
      | nil =>
        rw [hb] at hstep
        cases hstep
        exact Or.inl ⟨pool, hpool, hlink⟩
      | cons ck bufs =>
        have hnull : ck ≠ nullptr := (hlink.known ck (Or.inl (hb ▸ List.mem_cons_self))).1
        rw [hb] at hstep
        simp only [Option.map_some, if_neg hnull] at hstep
        cases hstep
        refine Or.inl ⟨pool, hpool, linked_congr hlink rfl rfl fun a => ?_⟩
        simp only [hb, List.mem_cons]
        tauto
    | reclaim ck =>
      simp only [step] at hstep
      split at hstep
      · rename_i hck
        cases hstep
        have hfind := (hlink.known ck (Or.inr hck)).2
        refine Or.inl ⟨pool, hpool, linked_congr hlink rfl ?_ fun a => ?_⟩
        · exact StdMap.insertNew_of_some _ hfind
        · show (a ∈ ck :: w.chkMgr.bufs ∨ a ∈ w.out.erase ck) ↔ _
          rw [List.mem_cons]
          constructor
          · rintro ((rfl | ha) | ha)
            · exact Or.inr hck
            · exact Or.inl ha
            · exact Or.inr (List.mem_of_mem_erase ha)
          · rintro (ha | ha)
            · exact Or.inl (Or.inr ha)
            · by_cases hac : a = ck
              · exact Or.inl (Or.inl hac)
              · exact Or.inr ((List.mem_erase_of_ne hac).mpr ha)
      · cases hstep
    | completion ck =>
      simp only [step] at hstep
      split at hstep
      · cases hstep
        exact Or.inl ⟨pool, hpool, hlink⟩
      · cases hstep
    | send bufferId =>
      simp only [step] at hstep
      split at hstep
      · rename_i hex
        obtain ⟨ck, hck, rfl⟩ := hex
        rw [get_by_id_of_known hlink hck] at hstep
        cases hstep
        exact Or.inl ⟨pool, hpool, hlink⟩
      · cases hstep
  · rcases step_without_pool hpool hbufs hout hstep with rfl | ⟨_, _, _, rfl⟩
    · exact Or.inr ⟨hpool, hbufs, hout, hmap⟩
    · exact inv_initBufferPool (Or.inr ⟨hpool, hbufs, hout, hmap⟩) hguard hstep

/-- What is known under an id has the memory that Java finds. -/
theorem Linked.sameMemory (h : w.Linked pool) (hpool : w.bufferPool = some pool) {ck : Addr}
    (hck : ck ∈ w.out) : w.SameMemory (w.mem ck).key := by
  obtain ⟨hnull, hfind⟩ := h.known ck (Or.inr hck)
  obtain ⟨-, b, hb, hsame⟩ := h.same _ ck hfind
  refine ⟨pool, b, hpool, hb, ?_⟩
  rw [get_by_id_of_known h hck]
  exact ⟨hnull, hsame⟩

theorem namesSameMemory {op : EqServicePoolOp} (h : w.Inv) (hstep : w.step op = some w') :
    w.NamesSameMemory op := by
  intro id hid
  -- the step is one of a chunk that a connection has
  have hout : ∃ ck ∈ w.out, (w.mem ck).key = id := by
    cases op with
    | completion ck =>
      simp only [step] at hstep
      split at hstep
      · rename_i hck
        simp only [names, if_pos hck, Option.mem_some_iff] at hid
        exact ⟨ck, hck, hid⟩
      · cases hstep
    | send bufferId =>
      simp only [step] at hstep
      split at hstep
      · rename_i hex
        simp only [names, Option.mem_some_iff] at hid
        exact hid ▸ hex
      · cases hstep
    | _ => cases hid
  obtain ⟨ck, hck, rfl⟩ := hout
  rcases h with ⟨pool, hpool, hlink⟩ | ⟨-, -, hnone, -⟩
  · exact hlink.sameMemory hpool hck
  · rw [hnone] at hck
    exact absurd hck List.not_mem_nil

end

/-- **One memory for every id.**  In every run in which a pool is made only before the native
side has any chunk, and no buffer is allocated under an id that has one, the memory that Java
finds under an id that a completion delivers or a send names is the memory of the chunk that
the native side finds under it. -/
theorem pool_same_memory (mem : Mem) (ops : List EqServicePoolOp)
    (hguard : Meets step Guard (init mem) ops) : Meets step NamesSameMemory (init mem) ops := by
  have keep : ∀ w op w', Inv w → w.Guard op → step w op = some w' → Inv w' :=
    fun _ _ _ h hg hstep => inv_step h hg hstep
  exact meets_of_meets keep (fun _ _ _ h _ hstep => namesSameMemory h hstep) (inv_init mem) ops
    hguard

/-- One pool of two buffers, a connection that takes one, and two more. -/
def onePool : List EqServicePoolOp :=
  [.initBufferPool 64 2 [(4096, 1), (8192, 2)], .get, .reallocBufferPool [(12288, 3), (16384, 4)],
    .get, .completion 2, .send 3]

theorem pool_same_memory_onePool : Meets step NamesSameMemory (init fun _ => {}) onePool :=
  pool_same_memory _ onePool (by decide +kernel)

/-- The pool is made again: its buffer has the id 0 of a chunk with other memory. -/
theorem pool_other_memory :
    ¬ Meets step NamesSameMemory (init fun _ => {})
      [.initBufferPool 64 1 [(4096, 1)], .initBufferPool 64 1 [(8192, 2)], .get,
        .completion 2] := by
  intro h
  have hrun : (run step (init fun _ => {})
      [.initBufferPool 64 1 [(4096, 1)], .initBufferPool 64 1 [(8192, 2)], .get]).map (fun w =>
        (w.names (.completion 2), w.bufferPool.bind fun pool => pool.getBuffer 0,
          (w.chkMgr.get_by_id 0).2, (w.mem 1).buffer, (w.step (.completion 2)).isSome)) =
        some (some 0, some ⟨0, 8192⟩, 1, 4096, true) := by
    decide +kernel
  obtain ⟨w, hw, hfields⟩ := Option.map_eq_some_iff.mp hrun
  simp only [Prod.mk.injEq] at hfields
  obtain ⟨hnames, hbuffer, hck, hmem, hstep⟩ := hfields
  obtain ⟨u, hu⟩ := Option.isSome_iff_exists.mp hstep
  obtain ⟨pool, b, hpool, hb, -, hsame⟩ := (h.at_step hw hu) 0 hnames
  rw [hpool, Option.bind_some, hb, Option.some.injEq] at hbuffer
  rw [hck, hmem, hbuffer] at hsame
  exact absurd hsame (by decide)

end EqServicePool

end Hpnl
