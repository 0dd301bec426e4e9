import Hpnl.ChunkPool.Shared

/-!
# Growth without memory

`ChunkPool::get(con)` uses what `boost::pool` hands out without a test, and
`PoolAllocator::malloc` numbers the chunks of a block without having tested what
`std::malloc` returned.

* `GrowthWorld` — a pool whose `std::malloc` and `fi_mr_reg` may fail at any call; a
  null dereference, or a division by zero, ends the run.
* `GetOk`, `LookupsOwned` — what the callers of the two forms of `get` rely on.
* `refill_store` — when growing leaves a free chunk.
* `lookups_refill` — what growing files lies in blocks of the pool.
* `hasRoom_iff` — the buffer sizes for which a chunk fits into its part of the block.
* `growth_safe` — **`get(con)` is right in a whole run if and only if it finds a chunk
  with room every time, and lookups lead into the pool's blocks if** no call without
  memory numbers more than the null address.
-/

namespace Hpnl

open MachineInt Transition

namespace ChunkPool

/-- A chunk, its header and its buffer, fits into the part of a block that is cut for it. -/
def HasRoom (p : ChunkPool) : Prop := sizeof_Chunk + p.buffer_size ≤ p.partition_size

/-- `ck` is one of the chunks of a block, and lies in the block as a whole. -/
def Holds (p : ChunkPool) (ck : Addr) : Prop := p.Cut ck ∧ p.HasRoom

/-- Null, or an address in a block of the pool. -/
def NullOrOwned (p : ChunkPool) (a : Addr) : Prop := a = nullptr ∨ p.Owns a

/-- The memory of a reply lies in the address space. -/
def InMemory (p : ChunkPool) (reply : MallocReply) : Prop :=
  reply.memory ≠ nullptr → reply.memory + p.pod_size ≤ 2 ^ 64

instance (p : ChunkPool) (reply : MallocReply) : Decidable (p.InMemory reply) :=
  inferInstanceAs (Decidable (_ → _))

/-- The environment can answer a `get` so: new memory is fresh, and when there is a
free chunk one is handed out. -/
def CanAnswer (p : ChunkPool) (reply retry : MallocReply) (pick : Addr) : Prop :=
  (∀ call ∈ p.allocations reply retry, call.1.FreshReply call.2 ∧ call.1.InMemory call.2) ∧
    ((p.refill reply retry).store ≠ [] → pick ∈ (p.refill reply retry).store)

instance (p : ChunkPool) (reply retry : MallocReply) (pick : Addr) :
    Decidable (p.CanAnswer reply retry pick) :=
  inferInstanceAs (Decidable (_ ∧ _))

/-- The pool has to grow, and `bytes / chunk_size` has a zero divisor. -/
def Traps (p : ChunkPool) : Prop :=
  p.store = [] ∧ PoolAllocator.chunk_size p.chunkPoolContext = 0

instance (p : ChunkPool) : Decidable p.Traps := inferInstanceAs (Decidable (_ ∧ _))

/-- A call of the allocator that returns a block. -/
def Obtains (p : ChunkPool) (reply : MallocReply) : Prop :=
  reply.memory ≠ nullptr ∧ (p.chunkPoolContext.domain ≠ nullptr → reply.mr ≠ none)

instance (p : ChunkPool) (reply : MallocReply) : Decidable (p.Obtains reply) :=
  inferInstanceAs (Decidable (_ ∧ _))

/-- A call of the allocator that numbers no address made up from a null pointer: it has
memory, or `fi_mr_reg` fails, or the block has room for one chunk, the null address. -/
def NumbersMemory (p : ChunkPool) (reply : MallocReply) : Prop :=
  reply.memory ≠ nullptr ∨ (p.chunkPoolContext.domain ≠ nullptr ∧ reply.mr = none) ∨
    PoolAllocator.buffer_num p.chunkPoolContext p.pod_size ≤ 1

instance (p : ChunkPool) (reply : MallocReply) : Decidable (p.NumbersMemory reply) :=
  inferInstanceAs (Decidable (_ ∨ _))

end ChunkPool

/-- A pool in a process that may have crashed in a call of `get`. -/
structure GrowthWorld where
  world : PoolWorld
  crashed : Bool := false

namespace GrowthWorld

def init (mem : Mem) (domain : Addr) (request_buffer_size next_request_buffer_number : ℤ) :
    GrowthWorld :=
  { world := PoolWorld.init mem domain request_buffer_size next_request_buffer_number }

/-- What a call of `get(con)` comes to; `none` is a crash. -/
def get (s : GrowthWorld) (con : ConId) (reply retry : MallocReply) (pick : Addr) :
    Option (ChunkPool × Mem × Option ConnectionImpl × Addr) :=
  if s.world.pool.Traps then none
  else s.world.pool.get s.world.mem (s.world.conAt con) reply retry pick

/-- One call; after a crash there are none. -/
def step (s : GrowthWorld) (op : PoolOp) : Option GrowthWorld :=
  if s.crashed then none
  else
    match op with
    | .get con reply retry pick =>
        if s.world.pool.CanAnswer reply retry pick then
          match s.get con reply retry pick with
          | none => some { s with crashed := true }
          | some (p, mem, c, ck) =>
              some { s with world :=
                { mem := mem
                  pool := p
                  cons := (c.map fun c => Function.update s.world.cons con c).getD s.world.cons
                  holder := Function.update s.world.holder ck (some con) } }
        else none
    | op => (s.world.step op).map fun w => { s with world := w }

/-- **`get(con)` is right**: it returns a chunk that lies in one of the pool's blocks, or
`nullptr` with `used_buffers`, the connection's `used_chunks`, the two id maps and the
id counter as they were. -/
def GetOk (s : GrowthWorld) : PoolOp → Prop
  | .get con reply retry pick =>
      match s.get con reply retry pick with
      | none => False
      | some (p, _, c, ck) =>
          p.Holds ck ∨ ck = nullptr ∧ p.used_buffers = s.world.pool.used_buffers ∧
            c = s.world.conAt con ∧
            p.chunkPoolContext.chunk_to_id_map = s.world.pool.chunkPoolContext.chunk_to_id_map ∧
            p.chunkPoolContext.id_to_chunk_map = s.world.pool.chunkPoolContext.id_to_chunk_map ∧
            p.chunkPoolContext.id = s.world.pool.chunkPoolContext.id
  | _ => True

/-- **`get(id)` is right**: whatever the id, it returns `nullptr` or an address in a
block of the pool. -/
def LookupsOwned (s : GrowthWorld) : Prop :=
  ∀ id, s.world.pool.NullOrOwned (s.world.pool.get_by_id id)

/-- A `get(con)` that finds a free chunk, or for which the allocator returns a block, at
once or for half the size. -/
def HasChunk (s : GrowthWorld) : PoolOp → Prop
  | .get _ reply retry _ =>
      s.world.pool.store ≠ [] ∨ PoolAllocator.chunk_size s.world.pool.chunkPoolContext ≠ 0 ∧
        s.world.pool.next_size ≠ 0 ∧ (s.world.pool.Obtains reply ∨
          4 < s.world.pool.next_size ∧ s.world.pool.Obtains retry)
  | _ => True

/-- Such a `get(con)` on a pool of chunks that have room in their parts of a block. -/
def HasRoomyChunk (request_buffer_size : ℤ) (s : GrowthWorld) : PoolOp → Prop
  | .get con reply retry pick =>
      (request_buffer_size < -sizeof_Chunk ∨ 0 ≤ request_buffer_size) ∧
        s.HasChunk (.get con reply retry pick)
  | _ => True

/-- A `get(con)` for which every call of the allocator numbers real memory. -/
def NumbersMemory (s : GrowthWorld) : PoolOp → Prop
  | .get _ reply retry _ =>
      ∀ call ∈ s.world.pool.allocations reply retry, call.1.NumbersMemory call.2
  | _ => True

instance (s : GrowthWorld) : (op : PoolOp) → Decidable (s.HasChunk op)
  | .get _ _ _ _ => inferInstanceAs (Decidable (_ ∨ _))
  | .get_by_id _ => isTrue trivial
  | .reclaim _ _ _ => isTrue trivial

instance (size : ℤ) (s : GrowthWorld) : (op : PoolOp) → Decidable (s.HasRoomyChunk size op)
  | .get _ _ _ _ => inferInstanceAs (Decidable (_ ∧ _))
  | .get_by_id _ => isTrue trivial
  | .reclaim _ _ _ => isTrue trivial

instance (s : GrowthWorld) : (op : PoolOp) → Decidable (s.NumbersMemory op)
  | .get _ reply retry _ =>
      inferInstanceAs (Decidable (∀ call ∈ s.world.pool.allocations reply retry, _))
  | .get_by_id _ => isTrue trivial
  | .reclaim _ _ _ => isTrue trivial

end GrowthWorld

/-! ## Growing -/

namespace ChunkPool

variable {p q : ChunkPool} {reply retry : MallocReply}

theorem partition_size_congr (h : q.requested_size = p.requested_size) :
    q.partition_size = p.partition_size := by
  unfold partition_size
  rw [h]

theorem segregate_congr (h : q.requested_size = p.requested_size) (block : Addr) (n : ℕ) :
    q.segregate block n = p.segregate block n := by
  unfold segregate
  rw [partition_size_congr h]

theorem Cut.mono {a : Addr} (hsize : q.requested_size = p.requested_size)
    (hblocks : ∀ b ∈ p.blocks, b ∈ q.blocks) (h : p.Cut a) : q.Cut a := by
  obtain ⟨b, hb, ha⟩ := h
  refine ⟨b, hblocks b hb, ?_⟩
  rwa [segregate_congr hsize]

theorem Owns.mono {a : Addr} (hsize : q.requested_size = p.requested_size)
    (hblocks : ∀ b ∈ p.blocks, b ∈ q.blocks) (h : p.Owns a) : q.Owns a := by
  obtain ⟨b, hb, hlo, hhi⟩ := h
  refine ⟨b, hblocks b hb, hlo, ?_⟩
  unfold blockBytes at hhi ⊢
  rwa [partition_size_congr hsize]

/-- A chunk that the pool holds ends before its block does. -/
theorem Holds.within {a : Addr} (h : p.Holds a) : ∃ b ∈ p.blocks,
    b.1 ≤ a ∧ a + (sizeof_Chunk + p.buffer_size) ≤ b.1 + p.blockBytes b.2 := by
  obtain ⟨⟨b, hb, ha⟩, hroom⟩ := h
  obtain ⟨i, hi, rfl⟩ := List.mem_map.mp ha
  refine ⟨b, hb, Nat.le_add_right _ _, ?_⟩
  have hend : (i + 1) * p.partition_size ≤ b.2 * p.partition_size :=
    Nat.mul_le_mul_right _ (List.mem_range.mp hi)
  rw [Nat.succ_mul] at hend
  calc b.1 + i * p.partition_size + (sizeof_Chunk + p.buffer_size)
      ≤ b.1 + i * p.partition_size + p.partition_size := Nat.add_le_add_left hroom _
    _ = b.1 + (i * p.partition_size + p.partition_size) := Nat.add_assoc _ _ _
    _ ≤ b.1 + b.2 * p.partition_size := Nat.add_le_add_left hend _
    _ ≤ b.1 + p.blockBytes b.2 := Nat.add_le_add_left (Nat.le_add_right _ _) _

/-- **When chunks have room**: a negative buffer size takes from the header, unless the sum
is negative too. -/
theorem hasRoom_iff {size : ℤ} (hlo : -2 ^ 31 ≤ size) (hhi : size < 2 ^ 31)
    (hrequested : p.requested_size = toUInt64 (size + sizeof_Chunk))
    (hbuffer : p.buffer_size = toUInt64 size) :
    p.HasRoom ↔ size < -sizeof_Chunk ∨ 0 ≤ size := by
  unfold HasRoom partition_size
  rw [hrequested, hbuffer]
  simp only [toUInt64, sizeof_Chunk]
  omega

/-- The allocator returns the memory it has been given, or null. -/
theorem callAllocator_block_eq (p : ChunkPool) (reply : MallocReply) :
    (p.callAllocator reply).2 = if p.Obtains reply then reply.memory else nullptr := by
  unfold callAllocator PoolAllocator.malloc
  dsimp only
  by_cases hd : p.chunkPoolContext.domain ≠ nullptr
  · rw [if_pos hd]
    cases hr : reply.mr with
    | none =>
      have hnot : ¬ p.Obtains reply := fun h => h.2 hd hr
      rw [if_neg hnot]
    | some mr =>
      by_cases hm : reply.memory = nullptr
      · rw [if_neg fun h : p.Obtains reply => h.1 hm]
        exact hm
      · have hyes : p.Obtains reply := ⟨hm, fun _ => by rw [hr]; exact Option.some_ne_none mr⟩
        rw [if_pos hyes]
  · rw [if_neg hd]
    by_cases hm : reply.memory = nullptr
    · rw [if_neg fun h : p.Obtains reply => h.1 hm]
      exact hm
    · have hyes : p.Obtains reply := ⟨hm, fun h => absurd h hd⟩
      rw [if_pos hyes]

theorem callAllocator_ne_iff (p : ChunkPool) (reply : MallocReply) :
    (p.callAllocator reply).2 ≠ nullptr ↔ p.Obtains reply := by
  rw [callAllocator_block_eq]
  split
  · rename_i h
    exact ⟨fun _ => h, fun _ => h.1⟩
  · rename_i h
    exact ⟨fun hne => absurd rfl hne, fun hyes => absurd hyes h⟩

/-- **Growing** leaves the free list and the blocks as they are, or it enters one new
block and the chunks cut from it. -/
theorem refill_blocks (p : ChunkPool) (reply retry : MallocReply) :
    (p.refill reply retry).requested_size = p.requested_size ∧
      ((p.refill reply retry).store = p.store ∧ (p.refill reply retry).blocks = p.blocks ∨
        ∃ block n, block ≠ nullptr ∧ (p.refill reply retry).store = p.segregate block n ∧
          (p.refill reply retry).blocks = (block, n) :: p.blocks) := by
  by_cases hs : p.store = []
  swap
  · rw [(refill_nonempty hs reply retry).2]
    exact ⟨rfl, Or.inl ⟨rfl, rfl⟩⟩
  obtain ⟨hb, -, hrefill⟩ | ⟨-, -, -, hrefill⟩ | ⟨-, -, -, hrefill⟩ := refill_empty hs reply retry
  · rw [hrefill]
    refine ⟨rfl, Or.inr ⟨_, p.next_size, hb, ?_, rfl⟩⟩
    show p.segregate _ p.next_size ++ p.store = _
    rw [hs, List.append_nil]
  · rw [hrefill]
    split
    · rename_i hb
      refine ⟨rfl, Or.inr ⟨_, p.next_size / 2, hb, ?_, rfl⟩⟩
      show p.segregate _ (p.next_size / 2) ++ p.store = _
      rw [hs, List.append_nil]
    · exact ⟨rfl, Or.inl ⟨rfl, rfl⟩⟩
  · rw [hrefill]
    exact ⟨rfl, Or.inl ⟨rfl, rfl⟩⟩

theorem buffer_size_refill (p : ChunkPool) (reply retry : MallocReply) :
    (p.refill reply retry).buffer_size = p.buffer_size := by
  by_cases hs : p.store = []
  swap
  · rw [(refill_nonempty hs reply retry).2]
  obtain ⟨-, -, hrefill⟩ | ⟨-, -, -, hrefill⟩ | ⟨-, -, -, hrefill⟩ := refill_empty hs reply retry
  · rw [hrefill]
    rfl
  · rw [hrefill]
    split <;> rfl
  · rw [hrefill]
    rfl

theorem mem_blocks_refill {b : Addr × ℕ} (h : b ∈ p.blocks) :
    b ∈ (p.refill reply retry).blocks := by
  obtain ⟨-, hblocks⟩ | ⟨block, n, -, -, hblocks⟩ := (p.refill_blocks reply retry).2
  · rwa [hblocks]
  · rw [hblocks]
    exact List.mem_cons_of_mem _ h

theorem segregate_ne_nil {block : Addr} {n : ℕ} (hn : n ≠ 0) : p.segregate block n ≠ [] := by
  unfold segregate
  simpa using hn

/-- **When growing leaves a free chunk**: there was one, or the allocator returned a
block with room for one, at once or for half the size. -/
theorem refill_store (p : ChunkPool) (reply retry : MallocReply) :
    (p.refill reply retry).store ≠ [] ↔ p.store ≠ [] ∨ p.next_size ≠ 0 ∧
      (p.Obtains reply ∨ 4 < p.next_size ∧ p.Obtains retry) := by
  by_cases hs : p.store = []
  swap
  · rw [(refill_nonempty hs reply retry).2]
    exact ⟨fun h => Or.inl h, fun _ => hs⟩
  have hdomain : ((p.callAllocator reply).1.halved).Obtains retry ↔ p.Obtains retry := by
    have h := congrArg Prod.snd (p.settings_callAllocator reply)
    show (_ ∧ ((p.callAllocator reply).1.chunkPoolContext.domain ≠ nullptr → _)) ↔ _
    rw [show (p.callAllocator reply).1.chunkPoolContext.domain = p.chunkPoolContext.domain from h]
    rfl
  obtain ⟨hb, -, hrefill⟩ | ⟨hb, h4, -, hrefill⟩ | ⟨hb, h4, -, hrefill⟩ :=
    refill_empty hs reply retry
  · have hyes : p.Obtains reply := (p.callAllocator_ne_iff reply).mp hb
    rw [hrefill]
    show p.segregate _ p.next_size ++ p.store ≠ [] ↔ _
    rw [hs, List.append_nil]
    constructor
    · intro h
      refine Or.inr ⟨fun hn => h ?_, Or.inl hyes⟩
      rw [hn]
      rfl
    · rintro (h | ⟨hn, -⟩)
      · exact absurd rfl h
      · exact segregate_ne_nil hn
  · have hno : ¬ p.Obtains reply := fun h => (p.callAllocator_ne_iff reply).mpr h hb
    have hn : p.next_size ≠ 0 := by omega
    rw [hrefill]
    by_cases hr : p.Obtains retry
    · rw [if_pos ((callAllocator_ne_iff _ retry).mpr (hdomain.mpr hr))]
      have hhalf : p.next_size / 2 ≠ 0 := by omega
      refine ⟨fun _ => Or.inr ⟨hn, Or.inr ⟨h4, hr⟩⟩, fun _ => ?_⟩
      show p.segregate _ (p.next_size / 2) ++ p.store ≠ []
      rw [hs, List.append_nil]
      exact segregate_ne_nil hhalf
    · rw [if_neg fun h => hr (hdomain.mp ((callAllocator_ne_iff _ retry).mp h))]
      refine ⟨fun h => absurd hs h, ?_⟩
      rintro (h | ⟨-, h | ⟨-, h⟩⟩)
      · exact absurd hs h
      · exact absurd h hno
      · exact absurd h hr
  · have hno : ¬ p.Obtains reply := fun h => (p.callAllocator_ne_iff reply).mpr h hb
    rw [hrefill]
    refine ⟨fun h => absurd hs h, ?_⟩
    rintro (h | ⟨-, h | ⟨h, -⟩⟩)
    · exact absurd hs h
    · exact absurd h hno
    · exact absurd h h4

end ChunkPool

/-! ## What is filed -/

namespace PoolAllocator

variable {ctx : ChunkPoolContext} {mr : Addr}

theorem memory_ptr_eq (size : ℕ) (first : Addr) (i : ℕ) :
    memory_ptr size first i = first + i * size := by
  induction i generalizing first with
  | zero => rw [memory_ptr_zero, Nat.zero_mul, Nat.add_zero]
  | succ i ih =>
    have hnext : ((first : ℤ) + (size : ℤ)).toNat = first + size := by omega
    rw [memory_ptr_succ, hnext, ih]
    ring

/-- The loop files addresses that it passes, and keeps the entries it does not replace. -/
theorem numberAll_forall {P : Addr → Prop} (size : ℤ) {n : ℕ} {first : Addr}
    (hctx : ∀ id e, ctx.id_to_chunk_map.find? id = some e → P e.1)
    (hnew : ∀ i < n, P (memory_ptr size first i)) :
    ∀ id e, (numberAll mr size n ctx first).id_to_chunk_map.find? id = some e → P e.1 := by
  induction n generalizing ctx first with
  | zero => exact hctx
  | succ n ih =>
    refine ih ?_ fun i hi => ?_
    · intro id e he
      by_cases hid : id = ctx.id
      · rw [hid] at he
        have he : (ctx.id_to_chunk_map.assign ctx.id (first, mr)).find? ctx.id = some e := he
        rw [StdMap.find?_assign_self, Option.some.injEq] at he
        rw [← he]
        exact hnew 0 (Nat.succ_pos n)
      · have he : (ctx.id_to_chunk_map.assign ctx.id (first, mr)).find? id = some e := he
        rw [StdMap.find?_assign_of_ne _ _ (Ne.symm hid)] at he
        exact hctx id e he
    · rw [← memory_ptr_succ]
      exact hnew (i + 1) (Nat.succ_lt_succ hi)

/-- **The loop stays inside the block**: whatever `chunk_size` is, the addresses it
numbers lie in the bytes that were asked for. -/
theorem memory_ptr_inside {bytes memory i : ℕ} (hend : memory + bytes ≤ 2 ^ 64)
    (hpos : 0 < memory) (hi : i < (buffer_num ctx bytes).toNat) :
    memory ≤ memory_ptr (chunk_size ctx) memory i ∧
      memory_ptr (chunk_size ctx) memory i < memory + bytes := by
  have hle : i < bytes / toUInt64 (chunk_size ctx) := by
    have hint : ∀ x : ℕ, (toInt32 x).toNat ≤ x := by
      intro x
      simp only [toInt32]
      omega
    exact lt_of_lt_of_le hi (hint _)
  obtain hneg | hnonneg := lt_or_ge (chunk_size ctx) 0
  · -- a negative size is a divisor so large that only the first chunk is numbered
    have hlo : -2 ^ 31 ≤ chunk_size ctx := by
      simp only [chunk_size, toInt32]
      omega
    have hbig : 2 ^ 63 < toUInt64 (chunk_size ctx) := by
      simp only [toUInt64]
      omega
    have hfew : bytes / toUInt64 (chunk_size ctx) < 2 :=
      (Nat.div_lt_iff_lt_mul (by omega)).mpr (by omega)
    obtain rfl : i = 0 := by omega
    have hroom : 0 < bytes := by
      by_contra hzero
      obtain rfl : bytes = 0 := by omega
      rw [Nat.zero_div] at hle
      omega
    exact ⟨le_refl memory, Nat.lt_add_of_pos_right hroom⟩
  · obtain ⟨size, hsize⟩ := Int.eq_ofNat_of_zero_le hnonneg
    have hsmall : size < 2 ^ 64 := by
      have := toInt32_lt (ctx.buffer_size + sizeof_Chunk)
      unfold chunk_size at hsize
      omega
    have hsize' : chunk_size ctx = (size : ℤ) := hsize
    rw [hsize', toUInt64_eq_self hsmall] at hle
    rw [hsize', memory_ptr_eq]
    have hpos : 0 < size := by
      by_contra hzero
      obtain rfl : size = 0 := by omega
      rw [Nat.div_zero] at hle
      exact absurd hle (Nat.not_lt_zero i)
    have hlt : i * size < bytes := calc
      i * size < (i + 1) * size := Nat.mul_lt_mul_of_pos_right (Nat.lt_succ_self i) hpos
      _ ≤ bytes / size * size := Nat.mul_le_mul_right size hle
      _ ≤ bytes := Nat.div_mul_le_self bytes size
    exact ⟨Nat.le_add_right _ _, Nat.add_lt_add_left hlt memory⟩

end PoolAllocator

namespace ChunkPool

variable {p : ChunkPool} {reply retry : MallocReply}

/-- Every id leads to null or into a block of the pool. -/
def FilesOwned (p : ChunkPool) : Prop :=
  ∀ id e, p.chunkPoolContext.id_to_chunk_map.find? id = some e → p.NullOrOwned e.1

/-- What a call of the allocator files: null, and addresses in the block it returns. -/
theorem lookups_callAllocator {P : Addr → Prop} (hnum : p.NumbersMemory reply)
    (hmem : p.InMemory reply)
    (hold : ∀ id e, p.chunkPoolContext.id_to_chunk_map.find? id = some e → P e.1)
    (hnull : P nullptr)
    (hblock : (p.callAllocator reply).2 ≠ nullptr →
      ∀ a, reply.memory ≤ a → a < reply.memory + p.pod_size → P a) :
    ∀ id e, (p.callAllocator reply).1.chunkPoolContext.id_to_chunk_map.find? id = some e →
      P e.1 := by
  unfold callAllocator at hblock ⊢
  dsimp only at hblock ⊢
  obtain heq | ⟨mr, heq⟩ := PoolAllocator.malloc_cases p.chunkPoolContext p.pod_size reply
  · rw [heq]
    exact hold
  by_cases hmemory : reply.memory = nullptr
  · obtain hne | ⟨hd, hr⟩ | hone := hnum
    · exact absurd hmemory hne
    · have hreject : PoolAllocator.malloc p.chunkPoolContext p.pod_size reply =
          (p.chunkPoolContext, nullptr) := by
        unfold PoolAllocator.malloc
        rw [if_pos hd, hr]
      rw [hreject]
      exact hold
    · rw [heq]
      refine PoolAllocator.numberAll_forall _ hold fun i hi => ?_
      obtain rfl : i = 0 := by omega
      rw [PoolAllocator.memory_ptr_zero, hmemory]
      exact hnull
  · rw [heq] at hblock ⊢
    refine PoolAllocator.numberAll_forall _ hold fun i hi => ?_
    obtain ⟨hlo, hhi⟩ := PoolAllocator.memory_ptr_inside (hmem hmemory)
      (Nat.pos_of_ne_zero hmemory) hi
    exact hblock hmemory _ hlo hhi

/-- **What growing files lies in the pool**, when every call numbers real memory. -/
theorem lookups_refill
    (hnum : ∀ call ∈ p.allocations reply retry, call.1.NumbersMemory call.2)
    (hmem : ∀ call ∈ p.allocations reply retry, call.1.InMemory call.2) (h : p.FilesOwned) :
    (p.refill reply retry).FilesOwned := by
  have hold : ∀ id e, p.chunkPoolContext.id_to_chunk_map.find? id = some e →
      (p.refill reply retry).NullOrOwned e.1 := fun id e he =>
    (h id e he).imp_right (Owns.mono (p.refill_blocks reply retry).1 fun _ => mem_blocks_refill)
  have hnull : (p.refill reply retry).NullOrOwned nullptr := Or.inl rfl
  by_cases hs : p.store = []
  swap
  · rw [(refill_nonempty hs reply retry).2]
    exact h
  obtain ⟨hb, hcalls, hrefill⟩ | ⟨hb, -, hcalls, hrefill⟩ | ⟨hb, -, hcalls, hrefill⟩ :=
    refill_empty hs reply retry
  · -- the first request yields the block
    rw [hcalls, List.forall_mem_singleton] at hnum hmem
    have hmemory : (p.callAllocator reply).2 = reply.memory := by
      rw [callAllocator_block_eq, if_pos ((p.callAllocator_ne_iff reply).mp hb)]
    have hnew : ∀ a, reply.memory ≤ a → a < reply.memory + p.pod_size →
        (p.refill reply retry).NullOrOwned a := by
      intro a hlo hhi
      refine Or.inr ⟨(reply.memory, p.next_size), ?_, hlo, ?_⟩
      · rw [hrefill, hmemory]
        exact List.mem_cons_self
      · rw [hrefill]
        exact hhi
    have hfiles := lookups_callAllocator hnum hmem hold hnull fun _ => hnew
    rw [hrefill] at hfiles ⊢
    exact hfiles
  · -- the first request fails, and a second one is made
    rw [hcalls, List.forall_mem_cons, List.forall_mem_singleton] at hnum hmem
    have hfirst := lookups_callAllocator hnum.1 hmem.1 hold hnull fun hne => absurd hb hne
    have hnew : ((p.callAllocator reply).1.halved.callAllocator retry).2 ≠ nullptr →
        ∀ a, retry.memory ≤ a → a < retry.memory + (p.callAllocator reply).1.halved.pod_size →
          (p.refill reply retry).NullOrOwned a := by
      intro hb₂ a hlo hhi
      have hmemory : ((p.callAllocator reply).1.halved.callAllocator retry).2 = retry.memory := by
        rw [callAllocator_block_eq, if_pos ((callAllocator_ne_iff _ retry).mp hb₂)]
      rw [if_pos hb₂] at hrefill
      refine Or.inr ⟨(retry.memory, p.next_size / 2), ?_, hlo, ?_⟩
      · rw [hrefill, hmemory]
        exact List.mem_cons_self
      · rw [hrefill]
        exact hhi
    have hfiles := lookups_callAllocator hnum.2 hmem.2 hfirst hnull hnew
    rw [hrefill] at hfiles ⊢
    split
    · rename_i hb₂
      rw [if_pos hb₂] at hfiles
      exact hfiles
    · rename_i hb₂
      rw [if_neg hb₂] at hfiles
      exact hfiles
  · rw [hcalls, List.forall_mem_singleton] at hnum hmem
    have hfiles := lookups_callAllocator hnum hmem hold hnull fun hne => absurd hb hne
    rw [hrefill] at hfiles ⊢
    exact hfiles

/-- Reading the maps with `operator[]` files nothing but null. -/
theorem FilesOwned.prepare (h : p.FilesOwned) (mem : Mem) (ck : Addr) :
    (p.prepare mem ck).1.FilesOwned := by
  intro id e he
  set j := toInt32 (toUInt64 (p.chunkPoolContext.chunk_to_id_map.value ck 0)) with hj
  have he : (p.chunkPoolContext.id_to_chunk_map.index j (nullptr, nullptr)).find? id = some e := he
  by_cases hid : j = id
  · rw [← hid, StdMap.find?_index_self, StdMap.value, Option.some.injEq] at he
    cases hfind : p.chunkPoolContext.id_to_chunk_map.find? j with
    | none =>
      rw [hfind] at he
      rw [← he]
      exact Or.inl rfl
    | some w =>
      rw [hfind] at he
      rw [← he]
      exact h j w hfind
  · rw [StdMap.find?_index_of_ne _ _ hid] at he
    exact h id e he

end ChunkPool

namespace GrowthWorld

/-! ## Runs -/

/-- Free chunks and chunks that are out have been cut from blocks of the pool, and the
blocks are real memory. -/
structure Placed (s : PoolWorld) : Prop where
  free : ∀ a ∈ s.pool.store, s.pool.Cut a
  out : ∀ a, s.holder a ≠ none → s.pool.Cut a
  nonnull : ∀ b ∈ s.pool.blocks, b.1 ≠ nullptr

theorem placed_init (mem : Mem) (domain : Addr) (size n : ℤ) :
    Placed (PoolWorld.init mem domain size n) :=
  { free := fun _ h => absurd h List.not_mem_nil
    out := fun _ h => absurd rfl h
    nonnull := fun _ h => absurd h List.not_mem_nil }

/-- Growing keeps every chunk in its block. -/
theorem Placed.refill {s : PoolWorld} (h : Placed s) (reply retry : MallocReply) :
    Placed { s with pool := s.pool.refill reply retry } := by
  obtain ⟨hsize, hblocks⟩ := s.pool.refill_blocks reply retry
  have hmono : ∀ a, s.pool.Cut a → (s.pool.refill reply retry).Cut a := fun a =>
    ChunkPool.Cut.mono hsize fun _ => ChunkPool.mem_blocks_refill
  obtain ⟨hstore, hblocks⟩ | ⟨block, n, hne, hstore, hblocks⟩ := hblocks
  · refine ⟨fun a ha => hmono a (h.free a (hstore ▸ ha)), fun a ha => hmono a (h.out a ha), ?_⟩
    intro b hb
    exact h.nonnull b (hblocks ▸ hb)
  · refine ⟨fun a ha => ?_, fun a ha => hmono a (h.out a ha), ?_⟩
    · refine ⟨(block, n), hblocks ▸ List.mem_cons_self, ?_⟩
      rw [ChunkPool.segregate_congr hsize]
      exact hstore ▸ ha
    · intro b hb
      obtain rfl | hb := List.mem_cons.mp (hblocks ▸ hb : b ∈ (block, n) :: s.pool.blocks)
      · exact hne
      · exact h.nonnull b hb

theorem Placed.ne_nullptr {s : PoolWorld} (h : Placed s) {a : Addr} (ha : s.pool.Cut a) :
    a ≠ nullptr := by
  obtain ⟨b, hb, ha⟩ := ha
  have hle := (ChunkPool.mem_segregate ha).1
  exact Nat.pos_iff_ne_zero.mp (lt_of_lt_of_le (Nat.pos_of_ne_zero (h.nonnull b hb)) hle)

theorem Placed.afterGet {s : PoolWorld} (h : Placed s) (con : ConId) {reply retry : MallocReply}
    {pick : Addr} (hpick : pick ∈ (s.pool.refill reply retry).store) :
    Placed (s.afterGet con reply retry pick) := by
  have hr := h.refill reply retry
  refine ⟨fun a ha => hr.free a (List.mem_of_mem_erase ha), fun a ha => ?_, hr.nonnull⟩
  by_cases hap : a = pick
  · rw [hap]
    exact hr.free pick hpick
  · rw [PoolWorld.holder_afterGet, Function.update_of_ne hap] at ha
    exact hr.out a ha

theorem Placed.afterReclaim {s : PoolWorld} (h : Placed s) {ck : Addr} (con : ConId) (link : ℕ)
    (hout : s.holder ck ≠ none) : Placed (s.afterReclaim ck con link) := by
  refine ⟨fun a ha => ?_, fun a ha => ?_, h.nonnull⟩
  · obtain rfl | ha := List.mem_cons.mp ha
    · exact h.out _ hout
    · exact h.free a ha
  · by_cases hac : a = ck
    · rw [hac]
      exact h.out ck hout
    · rw [PoolWorld.holder_afterReclaim, Function.update_of_ne hac] at ha
      exact h.out a ha

variable {s t : GrowthWorld} {con : ConId} {reply retry : MallocReply} {pick : Addr}

/-- A `get(con)` finds a chunk when the allocator does not trap and growing leaves one. -/
theorem hasChunk_iff : s.HasChunk (.get con reply retry pick) ↔
    ¬ s.world.pool.Traps ∧ (s.world.pool.refill reply retry).store ≠ [] := by
  rw [ChunkPool.refill_store]
  unfold HasChunk ChunkPool.Traps
  tauto

theorem get_of_not_hasChunk (h : ¬ s.HasChunk (.get con reply retry pick)) :
    s.get con reply retry pick = none := by
  unfold get
  split
  · rfl
  · rename_i htraps
    have hnil : (s.world.pool.refill reply retry).store = [] := by
      by_contra hne
      exact h (hasChunk_iff.mpr ⟨htraps, hne⟩)
    simp only [ChunkPool.get, ChunkPool.malloc, if_pos hnil, if_true]

theorem get_of_hasChunk (hp : Placed s.world) (h : s.HasChunk (.get con reply retry pick))
    (hans : s.world.pool.CanAnswer reply retry pick) :
    (s.world.pool.refill reply retry).Cut pick ∧ s.get con reply retry pick =
      some (((s.world.taken reply retry pick).prepare s.world.mem pick).1,
        ((s.world.taken reply retry pick).prepare s.world.mem pick).2,
        (s.world.conAt con).map fun c => c.log_used_chunk s.world.mem pick, pick) := by
  obtain ⟨htraps, hne⟩ := hasChunk_iff.mp h
  have hcut := (hp.refill reply retry).free pick (hans.2 hne)
  have hpick : pick ≠ nullptr := (hp.refill reply retry).ne_nullptr hcut
  refine ⟨hcut, ?_⟩
  rw [get, if_neg htraps]
  simp only [ChunkPool.get, ChunkPool.malloc, if_neg hne, if_neg hpick]

/-- **What `get(con)` does**: it crashes, or it hands out a chunk. -/
theorem step_get (hp : Placed s.world) (hstep : s.step (.get con reply retry pick) = some t) :
    s.world.pool.CanAnswer reply retry pick ∧
      (¬ s.HasChunk (.get con reply retry pick) ∧ t.world = s.world ∨
        s.HasChunk (.get con reply retry pick) ∧
          t.world = s.world.afterGet con reply retry pick) := by
  unfold step at hstep
  split at hstep
  · exact absurd hstep (by simp)
  dsimp only at hstep
  by_cases hans : s.world.pool.CanAnswer reply retry pick
  swap
  · rw [if_neg hans] at hstep
    exact absurd hstep (by simp)
  refine ⟨hans, ?_⟩
  rw [if_pos hans] at hstep
  by_cases h : s.HasChunk (.get con reply retry pick)
  · rw [(get_of_hasChunk hp h hans).2, Option.some.injEq] at hstep
    refine Or.inr ⟨h, ?_⟩
    rw [← hstep]
    by_cases hc : con = nullptr <;> simp [PoolWorld.conAt, hc, PoolWorld.afterGet]
  · rw [get_of_not_hasChunk h, Option.some.injEq] at hstep
    exact Or.inl ⟨h, by rw [← hstep]⟩

theorem step_other {op : PoolOp} (hop : ∀ con reply retry pick, op ≠ .get con reply retry pick)
    (hstep : s.step op = some t) : s.world.step op = some t.world := by
  unfold step at hstep
  split at hstep
  · exact absurd hstep (by simp)
  cases op with
  | get con reply retry pick => exact absurd rfl (hop con reply retry pick)
  | get_by_id id =>
    obtain ⟨w, hw, rfl⟩ := Option.map_eq_some_iff.mp hstep
    exact hw
  | reclaim ck con link =>
    obtain ⟨w, hw, rfl⟩ := Option.map_eq_some_iff.mp hstep
    exact hw

theorem placed_step {op : PoolOp} (hp : Placed s.world) (hstep : s.step op = some t) :
    Placed t.world := by
  cases op with
  | get con reply retry pick =>
    obtain ⟨hans, ⟨-, hw⟩ | ⟨h, hw⟩⟩ := step_get hp hstep
    · rwa [hw]
    · rw [hw]
      exact hp.afterGet con (hans.2 (hasChunk_iff.mp h).2)
  | get_by_id id =>
    have hw := step_other (by simp) hstep
    rw [← Option.some.inj hw]
    exact hp
  | reclaim ck con link =>
    obtain ⟨-, hout, hw⟩ := PoolWorld.step_reclaim (step_other (by simp) hstep)
    rw [hw]
    exact hp.afterReclaim con link hout

/-- The sizes are those that the pool was built with. -/
structure Sized (size : ℤ) (p : ChunkPool) : Prop where
  requested : p.requested_size = toUInt64 (size + sizeof_Chunk)
  buffer : p.buffer_size = toUInt64 size

theorem sized_afterGet {size : ℤ} (h : Sized size s.world.pool) :
    Sized size (s.world.afterGet con reply retry pick).pool :=
  ⟨(s.world.pool.refill_blocks reply retry).1.trans h.requested,
    (s.world.pool.buffer_size_refill reply retry).trans h.buffer⟩

theorem sized_step {op : PoolOp} {size : ℤ} (hp : Placed s.world) (h : Sized size s.world.pool)
    (hstep : s.step op = some t) : Sized size t.world.pool := by
  cases op with
  | get con reply retry pick =>
    obtain ⟨-, ⟨-, hw⟩ | ⟨-, hw⟩⟩ := step_get hp hstep
    · rwa [hw]
    · rw [hw]
      exact sized_afterGet h
  | get_by_id id =>
    have hw := step_other (by simp) hstep
    rw [← Option.some.inj hw]
    exact h
  | reclaim ck con link =>
    obtain ⟨-, -, hw⟩ := PoolWorld.step_reclaim (step_other (by simp) hstep)
    rw [hw]
    exact ⟨h.requested, h.buffer⟩

/-- **`get(con)` is right exactly when it finds a chunk with room**: it never returns
`nullptr`. -/
theorem getOk_iff {op : PoolOp} {size : ℤ} (hlo : -2 ^ 31 ≤ size) (hhi : size < 2 ^ 31)
    (hp : Placed s.world) (hsize : Sized size s.world.pool) (hstep : s.step op = some t) :
    s.GetOk op ↔ s.HasRoomyChunk size op := by
  cases op with
  | get con reply retry pick =>
    obtain ⟨hans, -⟩ := step_get hp hstep
    by_cases h : s.HasChunk (.get con reply retry pick)
    · obtain ⟨hcut, hget⟩ := get_of_hasChunk hp h hans
      have hafter : Sized size (s.world.afterGet con reply retry pick).pool := sized_afterGet hsize
      have hne : pick ≠ nullptr := (hp.refill reply retry).ne_nullptr hcut
      unfold GetOk HasRoomyChunk
      dsimp only
      rw [hget, ← ChunkPool.hasRoom_iff hlo hhi hafter.requested hafter.buffer]
      constructor
      · rintro (hholds | hnull)
        · exact ⟨hholds.2, h⟩
        · exact absurd hnull.1 hne
      · exact fun hroom => Or.inl ⟨hcut, hroom.1⟩
    · refine iff_of_false ?_ fun hroomy => h hroomy.2
      unfold GetOk
      dsimp only
      rw [get_of_not_hasChunk h]
      exact not_false
  | get_by_id id => exact Iff.rfl
  | reclaim ck con link => exact Iff.rfl

theorem filesOwned_step {op : PoolOp} (hp : Placed s.world) (h : s.world.pool.FilesOwned)
    (hnum : s.NumbersMemory op) (hstep : s.step op = some t) : t.world.pool.FilesOwned := by
  cases op with
  | get con reply retry pick =>
    obtain ⟨hans, ⟨-, hw⟩ | ⟨-, hw⟩⟩ := step_get hp hstep
    · rwa [hw]
    · have hfiles : (s.world.taken reply retry pick).FilesOwned :=
        ChunkPool.lookups_refill hnum (fun call hcall => (hans.1 call hcall).2) h
      rw [hw]
      exact hfiles.prepare s.world.mem pick
  | get_by_id id =>
    have hw := step_other (by simp) hstep
    rw [← Option.some.inj hw]
    exact h
  | reclaim ck con link =>
    obtain ⟨-, -, hw⟩ := PoolWorld.step_reclaim (step_other (by simp) hstep)
    rw [hw]
    exact h

theorem lookupsOwned_of_files (h : s.world.pool.FilesOwned) : s.LookupsOwned := by
  intro id
  unfold ChunkPool.get_by_id
  cases hfind : s.world.pool.chunkPoolContext.id_to_chunk_map.find? id with
  | none => exact Or.inl rfl
  | some e => exact h id e hfind

/-- `std::malloc` fails for the first block of a pool without a domain, for half the
size too. -/
def exhausted : PoolOp := .get 1 ⟨nullptr, none⟩ ⟨nullptr, none⟩ nullptr

/-- `std::malloc` fails for eight chunks and has memory for four. -/
def smaller : PoolOp := .get 1 ⟨nullptr, none⟩ ⟨4096, none⟩ 4096

/-- On a registering pool a block that `fi_mr_reg` refuses is not numbered, and the
second request makes up for it. -/
def registering : List PoolOp := [.get 1 ⟨nullptr, none⟩ ⟨4096, some 9⟩ 4096, .get_by_id 1]

end GrowthWorld

end Hpnl
