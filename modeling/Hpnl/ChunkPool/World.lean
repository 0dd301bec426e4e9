import Hpnl.ChunkPool.Basic
import Hpnl.Lib.Transition

/-!
# Runs of a chunk pool

A `PoolWorld` is a pool, the memory its chunks lie in, the connections that use
it and a record of which connection each chunk is out to.  A step is a call of
`get(con)`, `get(id)` or `reclaim(ck, con)`.  A step is possible when the
environment keeps its part: `std::malloc` returns memory that overlaps no block,
`boost::pool` hands out a free chunk, and a chunk that is reclaimed is out.

A header and its buffer are taken to lie apart from the others, as they do when the buffer
size is not negative.  With -127 to -1 the chunks are cut closer than their headers are long
(`hasRoom_iff`), and a write to one header would change the next, which `Mem` does not show.

* `step_get`, `step_reclaim` — what the steps do, stated once.
-/

namespace Hpnl

/-- A connection, by its address. -/
abbrev ConId := Addr

namespace ChunkPool

/-- The bytes a block was allocated with. -/
def blockBytes (p : ChunkPool) (n : ℕ) : ℕ := n * p.partition_size + 16

/-- The memory of a reply overlaps no block of the pool. -/
def FreshReply (p : ChunkPool) (reply : MallocReply) : Prop :=
  reply.memory ≠ nullptr → ∀ b ∈ p.blocks,
    b.1 + p.blockBytes b.2 ≤ reply.memory ∨ reply.memory + p.pod_size ≤ b.1

instance (p : ChunkPool) (reply : MallocReply) : Decidable (p.FreshReply reply) :=
  inferInstanceAs (Decidable (_ → _))

/-- The pool with the smaller request that `boost::pool` makes after a failure. -/
def halved (p : ChunkPool) : ChunkPool := { p with next_size := p.next_size / 2 }

/-- A call of `get` that the environment can answer so: new memory is fresh, and
the chunk handed out is a free one. -/
def CanGet (p : ChunkPool) (reply retry : MallocReply) (pick : Addr) : Prop :=
  p.FreshReply reply ∧ p.halved.FreshReply retry ∧ pick ∈ (p.refill reply retry).store

instance (p : ChunkPool) (reply retry : MallocReply) (pick : Addr) :
    Decidable (p.CanGet reply retry pick) :=
  inferInstanceAs (Decidable (_ ∧ _))

/-- What `get` does when the environment answers. -/
theorem get_eq {p : ChunkPool} {reply retry : MallocReply} {pick : Addr}
    (hcan : p.CanGet reply retry pick) (mem : Mem) (con : Option ConnectionImpl) :
    p.get mem con reply retry pick =
      if pick = nullptr then none
      else
        let taken := { p.refill reply retry with store := (p.refill reply retry).store.erase pick }
        some ((taken.prepare mem pick).1, (taken.prepare mem pick).2,
          con.map fun c => c.log_used_chunk mem pick, pick) := by
  have hne : (p.refill reply retry).store ≠ [] := List.ne_nil_of_mem hcan.2.2
  simp only [get, malloc, if_neg hne]

theorem get_eq_some {p p' : ChunkPool} {reply retry : MallocReply} {pick ck : Addr}
    {mem mem' : Mem} {con con' : Option ConnectionImpl} (hcan : p.CanGet reply retry pick)
    (h : p.get mem con reply retry pick = some (p', mem', con', ck)) :
    pick = ck ∧ pick ≠ nullptr ∧
      p' = ({ p.refill reply retry with
        store := (p.refill reply retry).store.erase pick }.prepare mem pick).1 ∧
      con' = con.map fun c => c.log_used_chunk mem pick := by
  rw [get_eq hcan] at h
  split at h
  · exact absurd h (by simp)
  · rename_i hne
    simp only [Option.some.injEq, Prod.mk.injEq] at h
    exact ⟨h.2.2.2, hne, h.1.symm, h.2.2.1.symm⟩

end ChunkPool

/-- A pool with its memory and its connections.  `holder` is a ghost: the
connection a chunk was handed out to and has not been reclaimed from. -/
structure PoolWorld where
  mem : Mem
  pool : ChunkPool
  cons : ConId → ConnectionImpl
  holder : Addr → Option ConId

/-- A call on the pool, with the environment's answers. -/
inductive PoolOp where
  /-- `get(con)`. -/
  | get (con : ConId) (reply retry : MallocReply) (pick : Addr)
  /-- `get(id)`. -/
  | get_by_id (id : ℤ)
  /-- `reclaim(ck, con)`. -/
  | reclaim (ck : Addr) (con : ConId) (link : ℕ)
  deriving DecidableEq, Repr

namespace PoolWorld

/-- A new pool: nothing is out, no connection has taken anything, and the memory
holds anything at all. -/
def init (mem : Mem) (domain : Addr) (request_buffer_size next_request_buffer_number : ℤ) :
    PoolWorld :=
  { mem := mem
    pool := ChunkPool.new domain request_buffer_size next_request_buffer_number
    cons := fun _ => {}
    holder := fun _ => none }

/-- The connection object at an address. -/
def conAt (s : PoolWorld) (con : ConId) : Option ConnectionImpl :=
  if con = nullptr then none else some (s.cons con)

/-- One call.  `get(id)` changes nothing; `reclaim` dereferences its
connection. -/
def step (s : PoolWorld) : PoolOp → Option PoolWorld
  | .get con reply retry pick =>
      if s.pool.CanGet reply retry pick then
        (s.pool.get s.mem (s.conAt con) reply retry pick).map fun (p, mem, c, ck) =>
          { mem := mem
            pool := p
            cons := (c.map fun c => Function.update s.cons con c).getD s.cons
            holder := Function.update s.holder ck (some con) }
      else none
  | .get_by_id _ => some s
  | .reclaim ck con link =>
      if con ≠ nullptr ∧ s.holder ck ≠ none then
        let (p, mem, c) := s.pool.reclaim s.mem (s.cons con) ck link
        some
          { mem := mem
            pool := p
            cons := Function.update s.cons con c
            holder := Function.update s.holder ck none }
      else none

/-! ## What a step does -/

/-- The pool at the moment a chunk has been taken from it. -/
abbrev taken (s : PoolWorld) (reply retry : MallocReply) (pick : Addr) : ChunkPool :=
  { s.pool.refill reply retry with store := (s.pool.refill reply retry).store.erase pick }

/-- The state after `get(con)` has handed out `pick`. -/
def afterGet (s : PoolWorld) (con : ConId) (reply retry : MallocReply) (pick : Addr) : PoolWorld :=
  { mem := ((s.taken reply retry pick).prepare s.mem pick).2
    pool := ((s.taken reply retry pick).prepare s.mem pick).1
    cons := if con = nullptr then s.cons
      else Function.update s.cons con ((s.cons con).log_used_chunk s.mem pick)
    holder := Function.update s.holder pick (some con) }

theorem holder_afterGet (s : PoolWorld) (con : ConId) (reply retry : MallocReply) (pick : Addr) :
    (s.afterGet con reply retry pick).holder = Function.update s.holder pick (some con) := rfl

/-- Only the header of the chunk that is handed out is written. -/
theorem mem_afterGet_of_ne (s : PoolWorld) (con : ConId) (reply retry : MallocReply)
    {pick a : Addr} (h : a ≠ pick) : (s.afterGet con reply retry pick).mem a = s.mem a :=
  Function.update_of_ne h _ _

theorem step_get_eq {s : PoolWorld} (con : ConId) {reply retry : MallocReply} {pick : Addr}
    (hcan : s.pool.CanGet reply retry pick) (hp : pick ≠ nullptr) :
    s.step (.get con reply retry pick) = some (s.afterGet con reply retry pick) := by
  rw [step, if_pos hcan, ChunkPool.get_eq hcan, if_neg hp]
  by_cases hc : con = nullptr <;> simp [conAt, hc, afterGet]

theorem step_get {s t : PoolWorld} {con : ConId} {reply retry : MallocReply} {pick : Addr}
    (h : s.step (.get con reply retry pick) = some t) :
    s.pool.CanGet reply retry pick ∧ pick ≠ nullptr ∧ t = s.afterGet con reply retry pick := by
  by_cases hcan : s.pool.CanGet reply retry pick
  swap
  · rw [step, if_neg hcan] at h
    exact absurd h (by simp)
  by_cases hp : pick = nullptr
  · rw [step, if_pos hcan, ChunkPool.get_eq hcan, if_pos hp] at h
    exact absurd h (by simp)
  · rw [step_get_eq con hcan hp, Option.some.injEq] at h
    exact ⟨hcan, hp, h.symm⟩

/-- The state after `reclaim(ck, con)`. -/
def afterReclaim (s : PoolWorld) (ck : Addr) (con : ConId) (link : ℕ) : PoolWorld :=
  { mem := Function.update s.mem ck { s.mem ck with buffer_id := link }
    pool := (s.pool.reclaim s.mem (s.cons con) ck link).1
    cons := Function.update s.cons con ((s.cons con).remove_used_chunk s.mem ck)
    holder := Function.update s.holder ck none }

theorem holder_afterReclaim (s : PoolWorld) (ck : Addr) (con : ConId) (link : ℕ) :
    (s.afterReclaim ck con link).holder = Function.update s.holder ck none := rfl

theorem mem_afterReclaim_of_ne (s : PoolWorld) {ck a : Addr} (con : ConId) (link : ℕ)
    (h : a ≠ ck) : (s.afterReclaim ck con link).mem a = s.mem a :=
  Function.update_of_ne h _ _

theorem step_reclaim {s t : PoolWorld} {ck : Addr} {con : ConId} {link : ℕ}
    (h : s.step (.reclaim ck con link) = some t) :
    con ≠ nullptr ∧ s.holder ck ≠ none ∧ t = s.afterReclaim ck con link := by
  simp only [step] at h
  split at h
  case isFalse => exact absurd h (by simp)
  case isTrue hcan =>
    refine ⟨hcan.1, hcan.2, ?_⟩
    simp only [Option.some.injEq] at h
    rw [← h]
    rfl

/-! ## Free chunks and chunks that are out -/

end PoolWorld

namespace ChunkPool

/-- The address lies in a block of the pool. -/
def Owns (p : ChunkPool) (a : Addr) : Prop :=
  ∃ b ∈ p.blocks, b.1 ≤ a ∧ a < b.1 + p.blockBytes b.2

theorem partition_size_pos (p : ChunkPool) : 0 < p.partition_size := by
  unfold partition_size
  omega

theorem nodup_segregate (p : ChunkPool) (block : Addr) (n : ℕ) : (p.segregate block n).Nodup := by
  refine List.Nodup.map ?_ List.nodup_range
  intro i j hij
  exact Nat.eq_of_mul_eq_mul_right p.partition_size_pos (Nat.add_left_cancel hij)

theorem mem_segregate {p : ChunkPool} {block a : Addr} {n : ℕ} (h : a ∈ p.segregate block n) :
    block ≤ a ∧ a < block + p.blockBytes n := by
  obtain ⟨i, hi, rfl⟩ := List.mem_map.mp h
  have hle : i * p.partition_size ≤ n * p.partition_size :=
    Nat.mul_le_mul_right _ (List.mem_range.mp hi).le
  have hlt : i * p.partition_size < p.blockBytes n :=
    lt_of_le_of_lt hle (Nat.lt_add_of_pos_right (by decide))
  exact ⟨Nat.le_add_right _ _, Nat.add_lt_add_left hlt block⟩

/-- **What refilling does**: nothing to the free list and the blocks, or, when
the free list is empty, a new block that overlaps no other becomes both. -/
theorem refill_cases {p : ChunkPool} {reply retry : MallocReply} (h : p.FreshReply reply)
    (h' : p.halved.FreshReply retry) :
    (p.refill reply retry).requested_size = p.requested_size ∧
      (((p.refill reply retry).store = p.store ∧ (p.refill reply retry).blocks = p.blocks) ∨
        p.store = [] ∧ ∃ block n, (p.refill reply retry).store = p.segregate block n ∧
          (p.refill reply retry).blocks = (block, n) :: p.blocks ∧
          ∀ b ∈ p.blocks, b.1 + p.blockBytes b.2 ≤ block ∨ block + p.blockBytes n ≤ b.1) := by
  by_cases hs : p.store = []
  swap
  · rw [refill, if_neg hs]
    exact ⟨rfl, Or.inl ⟨rfl, rfl⟩⟩
  have hmem : ∀ (q : ChunkPool) (r : MallocReply), (q.callAllocator r).2 ≠ nullptr →
      (q.callAllocator r).2 = r.memory := by
    intro q r hne
    simp only [callAllocator, PoolAllocator.malloc] at hne ⊢
    split at hne
    · cases hr : r.mr with
      | none => simp [hr] at hne
      | some mr => split <;> simp_all
    · split <;> simp_all
  rw [refill, if_pos hs]
  simp only [malloc_need_resize]
  by_cases hb : (p.callAllocator reply).2 ≠ nullptr
  · rw [if_pos hb]
    refine ⟨rfl, Or.inr ⟨hs, _, p.next_size, ?_, rfl, ?_⟩⟩
    · show p.segregate _ p.next_size ++ p.store = _
      rw [hs, List.append_nil]
    · rw [hmem p reply hb]
      exact h (hmem p reply hb ▸ hb)
  rw [if_neg hb]
  split
  · split
    · rename_i hb₂
      refine ⟨rfl, Or.inr ⟨hs, _, p.next_size / 2, ?_, rfl, ?_⟩⟩
      · show p.segregate _ (p.next_size / 2) ++ p.store = _
        rw [hs, List.append_nil]
      · rw [hmem _ retry hb₂]
        exact h' (hmem _ retry hb₂ ▸ hb₂)
    · exact ⟨rfl, Or.inl ⟨rfl, rfl⟩⟩
  · exact ⟨rfl, Or.inl ⟨rfl, rfl⟩⟩

end ChunkPool

end Hpnl
