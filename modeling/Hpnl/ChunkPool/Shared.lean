import Hpnl.ChunkPool.Regions

/-!
# Pools that share the allocator

`PoolAllocator` is static: whichever pool asks for a block, `PoolAllocator::malloc`
numbers it into the context that the static `chunkPoolContext` points to.  A pool makes
it point to its own context in `system_malloc`, right before it lets `boost::pool` call
the allocator, and under the lock that every call on a pool holds.

* `Pools` — the pools of a process, with the static pointer and a record of the
  executions of `PoolAllocator::malloc`.
* `refill_eq` — **with the pointer in place, growing is what a pool does alone**.
* `refill_lists` — the chunks of each new block end up in the maps, with the region of
  the block.
* `Isolated`, `pools_isolated` — **in every interleaving each call leaves all other pools
  as they are, and each block goes into the maps of the pool that asked for it**, with
  its buffer size and its domain.
-/

namespace Hpnl

open MachineInt Transition

variable {ι : Type*}

/-- One execution of `PoolAllocator::malloc`: the pool whose `boost::pool` called it, the
pool into whose context the block went, the size and the domain that were found there,
and the answer of the system. -/
structure AllocatorCall (ι : Type*) where
  pool : ι
  context : ι
  buffer_size : ℤ
  domain : Addr
  bytes : ℕ
  reply : MallocReply
  deriving DecidableEq

/-- The pools of a process, the connections that use them and the memory. -/
structure Pools (ι : Type*) where
  pool : ι → ChunkPool
  /-- `PoolAllocator::chunkPoolContext`, by the pool that the context belongs to. -/
  chunkPoolContext : Option ι
  mem : Mem
  cons : ConId → ConnectionImpl
  calls : List (AllocatorCall ι)

/-- The arguments of the constructor of a pool. -/
structure PoolConfig where
  domain : Addr
  request_buffer_size : ℤ
  next_request_buffer_number : ℤ

/-- A call on one of the pools, with the environment's answers. -/
inductive PoolsOp (ι : Type*) where
  /-- `get(con)`. -/
  | get (i : ι) (con : ConId) (reply retry : MallocReply) (pick : Addr)
  /-- `get(id)`. -/
  | get_by_id (i : ι) (id : ℤ)
  /-- `reclaim(ck, con)`. -/
  | reclaim (i : ι) (ck : Addr) (con : ConId) (link : ℕ)
  deriving DecidableEq

/-- The pool that is called. -/
def PoolsOp.target : PoolsOp ι → ι
  | get i _ _ _ _ => i
  | get_by_id i _ => i
  | reclaim i _ _ _ => i

namespace Pools

variable [DecidableEq ι]

/-- The constructed pools: the static pointer is null, and nothing is handed out. -/
def init (config : ι → PoolConfig) (mem : Mem) : Pools ι :=
  { pool := fun i => ChunkPool.new (config i).domain (config i).request_buffer_size
      (config i).next_request_buffer_number
    chunkPoolContext := none
    mem := mem
    cons := fun _ => {}
    calls := [] }

/-- A change of one pool. -/
def setPool (w : Pools ι) (i : ι) (p : ChunkPool) : Pools ι :=
  { w with pool := Function.update w.pool i p }

/-- `PoolAllocator::malloc`, called by the pool `i`: it works on the context that the
static pointer points to.  `none` is the dereference of the null pointer. -/
def allocator_malloc (w : Pools ι) (i : ι) (bytes : ℕ) (reply : MallocReply) :
    Option (Pools ι × Addr) :=
  match w.chunkPoolContext with
  | none => none
  | some c =>
      let ctx := (w.pool c).chunkPoolContext
      let (ctx', block) := PoolAllocator.malloc ctx bytes reply
      some ({ w.setPool c { w.pool c with chunkPoolContext := ctx' } with
        calls := w.calls ++ [⟨i, c, ctx.buffer_size, ctx.domain, bytes, reply⟩] }, block)

/-- `boost::pool::malloc_need_resize` of the pool `i`, up to the point where a chunk is
taken from the new block. -/
def malloc_need_resize (w : Pools ι) (i : ι) (reply retry : MallocReply) : Option (Pools ι) :=
  match w.allocator_malloc i (w.pool i).pod_size reply with
  | none => none
  | some (w₁, block) =>
      if block ≠ nullptr then some (w₁.setPool i ((w₁.pool i).add_block block))
      else if 4 < (w₁.pool i).next_size then
        let w₂ := w₁.setPool i (w₁.pool i).halved
        match w₂.allocator_malloc i (w₂.pool i).pod_size retry with
        | none => none
        | some (w₃, block₂) =>
            if block₂ ≠ nullptr then some (w₃.setPool i ((w₃.pool i).add_block block₂))
            else some w₃
      else some w₁

/-- `PoolAllocator::update_context`: the pointer is set, and the function is called. -/
def update_context {α : Type*} (w : Pools ι) (c : ι) (func : Pools ι → α) : α :=
  func { w with chunkPoolContext := some c }

/-- `ChunkPool::system_malloc` of the pool `i`. -/
def system_malloc (w : Pools ι) (i : ι) (reply retry : MallocReply) : Option (Pools ι) :=
  w.update_context i fun w => w.malloc_need_resize i reply retry

/-- `ChunkPool::malloc` of the pool `i`, before the chunk is taken. -/
def refill (w : Pools ι) (i : ι) (reply retry : MallocReply) : Option (Pools ι) :=
  if (w.pool i).store = [] then w.system_malloc i reply retry else some w

/-- The pool `i` hands out the free chunk `pick`, which is logged at the connection before
its header is written. -/
def handOut (w : Pools ι) (i : ι) (con : ConId) (pick : Addr) : Pools ι :=
  let taken := { w.pool i with store := (w.pool i).store.erase pick }
  { w.setPool i (taken.prepare w.mem pick).1 with
    mem := (taken.prepare w.mem pick).2
    cons := if con = nullptr then w.cons
      else Function.update w.cons con ((w.cons con).log_used_chunk w.mem pick) }

/-- One call.  `boost::pool` hands out a free chunk; `reclaim` dereferences its
connection. -/
def step (w : Pools ι) : PoolsOp ι → Option (Pools ι)
  | .get i con reply retry pick =>
      match w.refill i reply retry with
      | none => none
      | some w' =>
          if pick ∈ (w'.pool i).store ∧ pick ≠ nullptr then some (w'.handOut i con pick) else none
  | .get_by_id _ _ => some w
  | .reclaim i ck con link =>
      if con ≠ nullptr then
        let (p, mem, c) := (w.pool i).reclaim w.mem (w.cons con) ck link
        some { w.setPool i p with mem := mem, cons := Function.update w.cons con c }
      else none

/-! ## Growing -/

section Growth

variable {w : Pools ι} {i : ι}

/-- The pool `i` has changed, and made some calls of the allocator. -/
def grown (w : Pools ι) (i : ι) (p : ChunkPool) (new : List (AllocatorCall ι)) : Pools ι :=
  { w.setPool i p with calls := w.calls ++ new }

@[simp] theorem grown_pool_self (w : Pools ι) (i : ι) (p : ChunkPool)
    (new : List (AllocatorCall ι)) : (w.grown i p new).pool i = p :=
  Function.update_self ..

theorem grown_pool_of_ne (w : Pools ι) (p : ChunkPool) (new : List (AllocatorCall ι)) {i j : ι}
    (h : j ≠ i) : (w.grown i p new).pool j = w.pool j :=
  Function.update_of_ne h ..

@[simp] theorem grown_setPool (w : Pools ι) (i : ι) (p q : ChunkPool)
    (new : List (AllocatorCall ι)) : (w.grown i p new).setPool i q = w.grown i q new := by
  simp [grown, setPool, Function.update_idem]

@[simp] theorem grown_grown (w : Pools ι) (i : ι) (p q : ChunkPool)
    (new new' : List (AllocatorCall ι)) :
    (w.grown i p new).grown i q new' = w.grown i q (new ++ new') := by
  simp [grown, setPool, Function.update_idem]

/-- The record of a call that a pool makes with the pointer in place. -/
def ownCall (i : ι) (call : ChunkPool × MallocReply) : AllocatorCall ι :=
  ⟨i, i, call.1.chunkPoolContext.buffer_size, call.1.chunkPoolContext.domain, call.1.pod_size,
    call.2⟩

/-- With the pointer in place the allocator does what it does for one pool. -/
theorem allocator_malloc_eq (hctx : w.chunkPoolContext = some i) (reply : MallocReply) :
    w.allocator_malloc i (w.pool i).pod_size reply =
      some (w.grown i ((w.pool i).callAllocator reply).1 [ownCall i (w.pool i, reply)],
        ((w.pool i).callAllocator reply).2) := by
  unfold allocator_malloc
  rw [hctx]
  rfl

/-- **Growing with the pointer in place** is what the pool does alone. -/
theorem malloc_need_resize_eq (hctx : w.chunkPoolContext = some i) (hs : (w.pool i).store = [])
    (reply retry : MallocReply) :
    w.malloc_need_resize i reply retry =
      some (w.grown i ((w.pool i).refill reply retry)
        (((w.pool i).allocations reply retry).map (ownCall i))) := by
  have hnext : ((w.pool i).callAllocator reply).1.next_size = (w.pool i).next_size := rfl
  unfold malloc_need_resize
  rw [allocator_malloc_eq hctx]
  dsimp only
  rw [grown_pool_self, grown_setPool, grown_setPool, hnext]
  obtain ⟨hb, hcalls, hrefill⟩ | ⟨hb, h4, hcalls, hrefill⟩ | ⟨hb, h4, hcalls, hrefill⟩ :=
    ChunkPool.refill_empty hs reply retry
  · rw [if_pos hb, hcalls, hrefill]
    rfl
  · -- the second request
    rw [if_neg (not_not.mpr hb), if_pos h4, hcalls, hrefill]
    set q := ((w.pool i).callAllocator reply).1.halved
    have hctx₂ : (w.grown i q [ownCall i (w.pool i, reply)]).chunkPoolContext = some i := hctx
    have hsecond := allocator_malloc_eq hctx₂ retry
    rw [grown_pool_self, grown_grown] at hsecond
    rw [grown_pool_self, hsecond]
    dsimp only
    rw [grown_pool_self, grown_setPool]
    split <;> rfl
  · rw [if_neg (not_not.mpr hb), if_neg h4, hcalls, hrefill]
    rfl

/-- A pool that refills its free list: the pointer is on its context while it grows. -/
theorem refill_eq (w : Pools ι) (i : ι) (reply retry : MallocReply) :
    ∃ c, w.refill i reply retry =
      some ({ w with chunkPoolContext := c }.grown i ((w.pool i).refill reply retry)
        (((w.pool i).allocations reply retry).map (ownCall i))) := by
  by_cases hs : (w.pool i).store = []
  · refine ⟨some i, ?_⟩
    unfold refill system_malloc update_context
    rw [if_pos hs]
    exact malloc_need_resize_eq (w := { w with chunkPoolContext := some i }) rfl hs reply retry
  · refine ⟨w.chunkPoolContext, ?_⟩
    obtain ⟨hcalls, hrefill⟩ := ChunkPool.refill_nonempty hs reply retry
    unfold refill
    rw [if_neg hs, hcalls, hrefill]
    simp [grown, setPool]

end Growth

end Pools

/-! ## The settings of a pool -/

/-- The buffer size and the domain that `PoolAllocator::malloc` finds in the context of a
pool. -/
def ChunkPool.settings (p : ChunkPool) : ℤ × Addr :=
  (p.chunkPoolContext.buffer_size, p.chunkPoolContext.domain)

theorem PoolAllocator.numberAll_settings (mr : Addr) (size : ℤ) (n : ℕ) (ctx : ChunkPoolContext)
    (ptr : Addr) : (numberAll mr size n ctx ptr).buffer_size = ctx.buffer_size ∧
      (numberAll mr size n ctx ptr).domain = ctx.domain := by
  induction n generalizing ctx ptr with
  | zero => exact ⟨rfl, rfl⟩
  | succ n ih => exact ih _ _

namespace ChunkPool

theorem settings_callAllocator (p : ChunkPool) (reply : MallocReply) :
    (p.callAllocator reply).1.settings = p.settings := by
  unfold settings callAllocator
  dsimp only
  obtain heq | ⟨mr, heq⟩ := PoolAllocator.malloc_cases p.chunkPoolContext p.pod_size reply
  · rw [heq]
  · rw [heq]
    dsimp only
    rw [(PoolAllocator.numberAll_settings ..).1, (PoolAllocator.numberAll_settings ..).2]

/-- Growing changes no setting, and each call of the allocator is made with them. -/
theorem settings_refill (p : ChunkPool) (reply retry : MallocReply) :
    (p.refill reply retry).settings = p.settings ∧
      ∀ call ∈ p.allocations reply retry, call.1.settings = p.settings := by
  have hfirst := p.settings_callAllocator reply
  by_cases hs : p.store = []
  swap
  · obtain ⟨hcalls, hrefill⟩ := refill_nonempty hs reply retry
    rw [hcalls, hrefill]
    exact ⟨rfl, fun _ hcall => absurd hcall List.not_mem_nil⟩
  obtain ⟨-, hcalls, hrefill⟩ | ⟨-, -, hcalls, hrefill⟩ | ⟨-, -, hcalls, hrefill⟩ :=
    refill_empty hs reply retry
  · rw [hcalls, hrefill]
    exact ⟨hfirst, List.forall_mem_singleton.mpr rfl⟩
  · have hsecond : ((p.callAllocator reply).1.halved.callAllocator retry).1.settings = p.settings :=
      (settings_callAllocator _ retry).trans hfirst
    rw [hcalls, hrefill]
    refine ⟨?_, List.forall_mem_cons.mpr ⟨rfl, List.forall_mem_singleton.mpr hfirst⟩⟩
    split
    · exact hsecond
    · exact hsecond
  · rw [hcalls, hrefill]
    exact ⟨hfirst, List.forall_mem_singleton.mpr rfl⟩

end ChunkPool

/-! ## The chunks of a block -/

namespace PoolAllocator

/-- `memory_ptr` after `i` rounds of the numbering loop. -/
def memory_ptr (size : ℤ) (first : Addr) (i : ℕ) : Addr :=
  (fun a : Addr => ((a : ℤ) + size).toNat)^[i] first

theorem memory_ptr_zero (size : ℤ) (first : Addr) : memory_ptr size first 0 = first := rfl

theorem memory_ptr_succ (size : ℤ) (first : Addr) (i : ℕ) :
    memory_ptr size first (i + 1) = memory_ptr size ((first : ℤ) + size).toNat i := rfl

/-- The chunks that `n` rounds of the loop number, each with the region `mr`. -/
def numberedChunks (size : ℤ) (n : ℕ) (first mr : Addr) : List (Addr × Addr) :=
  (List.range n).map fun i => (memory_ptr size first i, mr)

theorem mem_numberedChunks {size : ℤ} {n : ℕ} {first mr : Addr} {e : Addr × Addr} :
    e ∈ numberedChunks size n first mr ↔ ∃ i < n, e = (memory_ptr size first i, mr) := by
  simp only [numberedChunks, List.mem_map, List.mem_range]
  constructor
  · rintro ⟨i, hi, rfl⟩
    exact ⟨i, hi, rfl⟩
  · rintro ⟨i, hi, rfl⟩
    exact ⟨i, hi, rfl⟩

/-- The chunks that `malloc` numbers, each with the region of the block: none when `fi_mr_reg`
fails. -/
def blockChunks (buffer_size : ℤ) (domain : Addr) (bytes : ℕ) (reply : MallocReply) :
    List (Addr × Addr) :=
  let size := toInt32 (buffer_size + sizeof_Chunk)
  let chunks := numberedChunks size (toInt32 (bytes / toUInt64 size)).toNat reply.memory
  if domain ≠ nullptr then
    match reply.mr with
    | none => []
    | some mr => chunks mr
  else chunks nullptr

end PoolAllocator

/-- The chunks that an execution of the allocator numbers. -/
def AllocatorCall.chunks (c : AllocatorCall ι) : List (Addr × Addr) :=
  PoolAllocator.blockChunks c.buffer_size c.domain c.bytes c.reply

/-- An id leads to the chunk and its region, and the chunk has an id. -/
def ChunkPoolContext.Lists (ctx : ChunkPoolContext) (e : Addr × Addr) : Prop :=
  (∃ k, ctx.id_to_chunk_map.find? k = some e) ∧ ctx.chunk_to_id_map.has e.1

namespace PoolAllocator

variable {ctx : ChunkPoolContext} {ptr mr : Addr} {size : ℤ} {n : ℕ}

/-- Numbering replaces what the ids that it gives out led to, and nothing else. -/
theorem find?_numberAll_of_not (h : ctx.Counts) {k : ℤ} (hk : ¬ GivesOut ctx n k) :
    (numberAll mr size n ctx ptr).id_to_chunk_map.find? k = ctx.id_to_chunk_map.find? k := by
  induction n generalizing ctx ptr with
  | zero => rfl
  | succ n ih =>
    rw [givesOut_succ h ptr mr, not_or] at hk
    rw [numberAll, ih (counts_number h) hk.2]
    exact StdMap.find?_assign_of_ne _ _ (Ne.symm hk.1)

/-- A chunk that has an id keeps one. -/
theorem has_numberAll {a : Addr} (ha : ctx.chunk_to_id_map.has a) :
    (numberAll mr size n ctx ptr).chunk_to_id_map.has a := by
  induction n generalizing ctx ptr with
  | zero => exact ha
  | succ n ih => exact ih (StdMap.has_assign_iff.mpr (Or.inr ha))

/-- **The loop files each chunk with the region**, under the ids that it gives out. -/
theorem numberAll_files (size : ℤ) (ptr mr : Addr) (h : ctx.Counts) (hn : n < 2 ^ 32) {i : ℕ}
    (hi : i < n) :
    (numberAll mr size n ctx ptr).id_to_chunk_map.find? (toInt32 (ctx.numbered + i : ℕ)) =
        some (memory_ptr size ptr i, mr) ∧
      (numberAll mr size n ctx ptr).chunk_to_id_map.has (memory_ptr size ptr i) := by
  induction n generalizing ctx ptr i with
  | zero => exact absurd hi (Nat.not_lt_zero i)
  | succ n ih =>
    cases i with
    | zero =>
      have hlater : ¬ GivesOut (number ctx ptr mr) n (toInt32 (ctx.numbered + 0 : ℕ)) :=
        not_givesOut (Nat.lt_succ_self _) (by
          show ctx.numbered + 1 + n ≤ ctx.numbered + 0 + 2 ^ 32
          omega)
      rw [numberAll]
      refine ⟨?_, has_numberAll (StdMap.has_assign_iff.mpr (Or.inl rfl))⟩
      rw [find?_numberAll_of_not (counts_number h) hlater, Nat.add_zero, ← show ctx.id = _ from h]
      exact StdMap.find?_assign_self ..
    | succ i =>
      have hcounts : (number ctx ptr mr).Counts := counts_number h
      have hrest := ih ((ptr : ℤ) + size).toNat hcounts (by omega) (Nat.lt_of_succ_lt_succ hi)
      have hnum : (number ctx ptr mr).numbered + i = ctx.numbered + (i + 1) := by
        show ctx.numbered + 1 + i = _
        omega
      rw [hnum] at hrest
      exact hrest

end PoolAllocator

/-- The chunk is filed under one of the last `2 ^ 31` ids that were given out. -/
def ChunkPoolContext.ListsLately (ctx : ChunkPoolContext) (e : Addr × Addr) : Prop :=
  ∃ m < ctx.numbered, ctx.numbered ≤ m + 2 ^ 31 ∧
    ctx.id_to_chunk_map.find? (toInt32 (m : ℕ)) = some e ∧ ctx.chunk_to_id_map.has e.1

theorem ChunkPoolContext.ListsLately.lists {ctx : ChunkPoolContext} {e : Addr × Addr}
    (he : ctx.ListsLately e) : ctx.Lists e := by
  obtain ⟨m, -, -, hfind, hhas⟩ := he
  exact ⟨⟨_, hfind⟩, hhas⟩

namespace PoolAllocator

variable {ctx : ChunkPoolContext} {bytes : ℕ} {reply : MallocReply} {e : Addr × Addr}

/-- Which chunks an execution numbers, and under which region. -/
theorem blockChunks_cases (ctx : ChunkPoolContext) (bytes : ℕ) (reply : MallocReply) :
    blockChunks ctx.buffer_size ctx.domain bytes reply = [] ∨
      ∃ mr, blockChunks ctx.buffer_size ctx.domain bytes reply =
          numberedChunks (chunk_size ctx) (buffer_num ctx bytes).toNat reply.memory mr ∧
        malloc ctx bytes reply = (numberAll mr (chunk_size ctx) (buffer_num ctx bytes).toNat ctx
          reply.memory, reply.memory) := by
  simp only [blockChunks, malloc]
  split
  · cases reply.mr with
    | none => exact Or.inl rfl
    | some mr => exact Or.inr ⟨mr, rfl, rfl⟩
  · exact Or.inr ⟨nullptr, rfl, rfl⟩

/-- An execution of the allocator files the chunks of its block. -/
theorem malloc_lists (h : ctx.Counts)
    (he : e ∈ blockChunks ctx.buffer_size ctx.domain bytes reply) :
    (malloc ctx bytes reply).1.ListsLately e := by
  obtain hnone | ⟨mr, hchunks, heq⟩ := blockChunks_cases ctx bytes reply
  · rw [hnone] at he
    exact absurd he List.not_mem_nil
  rw [hchunks] at he
  obtain ⟨i, hi, rfl⟩ := mem_numberedChunks.mp he
  have hlt : (buffer_num ctx bytes).toNat < 2 ^ 31 := buffer_num_lt bytes
  obtain ⟨hfind, hhas⟩ := numberAll_files (chunk_size ctx) reply.memory mr h (by omega) hi
  rw [heq]
  refine ⟨ctx.numbered + i, ?_, ?_, hfind, hhas⟩
  · rw [numberAll_count]
    omega
  · rw [numberAll_count]
    omega

/-- The next execution keeps them. -/
theorem lists_malloc (h : ctx.Counts) (he : ctx.ListsLately e) :
    (malloc ctx bytes reply).1.Lists e := by
  obtain ⟨m, hm, hroom, hfind, hhas⟩ := he
  obtain heq | ⟨mr, heq⟩ := malloc_cases ctx bytes reply
  · rw [heq]
    exact ⟨⟨_, hfind⟩, hhas⟩
  · have hlt : (buffer_num ctx bytes).toNat < 2 ^ 31 := buffer_num_lt bytes
    have hnot : ¬ GivesOut ctx (buffer_num ctx bytes).toNat (toInt32 (m : ℕ)) := by
      rintro ⟨j, hj, heq⟩
      simp only [toInt32] at heq
      omega
    rw [heq]
    exact ⟨⟨_, (find?_numberAll_of_not h hnot).trans hfind⟩, has_numberAll hhas⟩

end PoolAllocator

namespace ChunkPool

variable {p : ChunkPool} {reply retry : MallocReply} {e : Addr × Addr}

theorem counts_callAllocator (h : p.chunkPoolContext.Counts) (reply : MallocReply) :
    (p.callAllocator reply).1.chunkPoolContext.Counts := by
  show (PoolAllocator.malloc p.chunkPoolContext p.pod_size reply).1.Counts
  obtain heq | ⟨mr, heq⟩ := PoolAllocator.malloc_cases p.chunkPoolContext p.pod_size reply
  · rwa [heq]
  · rw [heq]
    exact (PoolAllocator.numberAll_keeps h).1

theorem counts_refill (h : p.chunkPoolContext.Counts) (reply retry : MallocReply) :
    (p.refill reply retry).chunkPoolContext.Counts := by
  obtain ⟨-, heq⟩ | ⟨-, heq⟩ | ⟨q, hq, -, heq⟩ := p.allocations_cases reply retry
  · rwa [heq]
  · rw [heq]
    exact counts_callAllocator h reply
  · rw [heq]
    exact counts_callAllocator (hq ▸ counts_callAllocator h reply) retry

/-- **Growing files the chunks of every block that is asked for.** -/
theorem refill_lists (h : p.chunkPoolContext.Counts) (reply retry : MallocReply) :
    ∀ call ∈ p.allocations reply retry, ∀ e ∈ PoolAllocator.blockChunks
      call.1.chunkPoolContext.buffer_size call.1.chunkPoolContext.domain call.1.pod_size call.2,
      (p.refill reply retry).chunkPoolContext.Lists e := by
  intro call hcall e he
  obtain ⟨hcalls, -⟩ | ⟨hcalls, heq⟩ | ⟨q, hq, hcalls, heq⟩ := p.allocations_cases reply retry
  · rw [hcalls] at hcall
    exact absurd hcall List.not_mem_nil
  · rw [hcalls, List.mem_singleton] at hcall
    subst hcall
    rw [heq]
    exact (PoolAllocator.malloc_lists h he).lists
  · have hcounts : q.chunkPoolContext.Counts := hq ▸ counts_callAllocator h reply
    rw [hcalls, List.mem_pair] at hcall
    rw [heq]
    rcases hcall with rfl | rfl
    · -- the second block leaves the ids of the first alone
      have hfirst : q.chunkPoolContext.ListsLately e := hq ▸ PoolAllocator.malloc_lists h he
      exact PoolAllocator.lists_malloc hcounts hfirst
    · exact (PoolAllocator.malloc_lists hcounts he).lists

/-- Reading the maps with `operator[]` removes nothing from them. -/
theorem lists_prepare (he : p.chunkPoolContext.Lists e) (mem : Mem) (ck : Addr) :
    (p.prepare mem ck).1.chunkPoolContext.Lists e := by
  obtain ⟨⟨k, hk⟩, hhas⟩ := he
  set j := toInt32 (toUInt64 (p.chunkPoolContext.chunk_to_id_map.value ck 0)) with hj
  refine ⟨⟨k, ?_⟩, ?_⟩
  · show (p.chunkPoolContext.id_to_chunk_map.index j (nullptr, nullptr)).find? k = some e
    by_cases hkj : j = k
    · rw [hkj, StdMap.find?_index_self, StdMap.value_of_some _ hk]
    · rw [StdMap.find?_index_of_ne _ _ hkj, hk]
  · obtain ⟨id, hid⟩ := StdMap.has_eq_true_iff.mp hhas
    refine StdMap.has_eq_true_iff.mpr ⟨id, ?_⟩
    show (p.chunkPoolContext.chunk_to_id_map.index ck 0).find? e.1 = some id
    by_cases hck : ck = e.1
    · rw [hck, StdMap.find?_index_self, StdMap.value_of_some _ hid]
    · rw [StdMap.find?_index_of_ne _ _ hck, hid]

end ChunkPool

/-! ## Isolation -/

namespace Pools

variable [DecidableEq ι]

/-- What the called pool does when there is no other: its state afterwards, and the
memory. -/
def alone (w : Pools ι) : PoolsOp ι → Option (ChunkPool × Mem)
  | .get i con reply retry pick =>
      ((w.pool i).get w.mem (if con = nullptr then none else some (w.cons con)) reply retry
        pick).map fun (p, mem, _, _) => (p, mem)
  | .get_by_id i _ => some (w.pool i, w.mem)
  | .reclaim i ck con link =>
      let (p, mem, _) := (w.pool i).reclaim w.mem (w.cons con) ck link
      some (p, mem)

/-- A call changes the pool that is called, which does what it does alone; every other
pool keeps its counter, its maps, its free list and all else; and each execution of the
allocator was for that pool, on its context, with its buffer size and its domain, and the
chunks of its block are in the maps of that pool, with the region of the block. -/
structure Isolated (w : Pools ι) (op : PoolsOp ι) (w' : Pools ι) : Prop where
  others : ∀ j, j ≠ op.target → w'.pool j = w.pool j
  own : w.alone op = some (w'.pool op.target, w'.mem)
  settings : (w'.pool op.target).settings = (w.pool op.target).settings
  calls : ∃ new, w'.calls = w.calls ++ new ∧ ∀ c ∈ new, c.pool = op.target ∧
    c.context = op.target ∧ (c.buffer_size, c.domain) = (w.pool op.target).settings ∧
      ∀ e ∈ c.chunks, (w'.pool op.target).chunkPoolContext.Lists e

/-- Every execution of the allocator so far went into the context of the pool that asked
for the block, with the buffer size and the domain that this pool was built with. -/
def OwnCalls (config : ι → PoolConfig) (w : Pools ι) : Prop :=
  ∀ c ∈ w.calls, c.context = c.pool ∧
    c.buffer_size = toInt32 (config c.pool).request_buffer_size ∧
      c.domain = (config c.pool).domain

theorem handOut_pool_of_ne (w : Pools ι) (con : ConId) (pick : Addr) {i j : ι} (h : j ≠ i) :
    (w.handOut i con pick).pool j = w.pool j :=
  Function.update_of_ne h ..

theorem handOut_pool_self (w : Pools ι) (i : ι) (con : ConId) (pick : Addr) :
    (w.handOut i con pick).pool i =
      (({ w.pool i with store := (w.pool i).store.erase pick } : ChunkPool).prepare w.mem pick).1 :=
  Function.update_self ..

theorem settings_handOut (w : Pools ι) (i : ι) (con : ConId) (pick : Addr) :
    ((w.handOut i con pick).pool i).settings = (w.pool i).settings := by
  rw [handOut_pool_self]
  rfl

/-- The ids of every pool count what it has numbered. -/
def AllCount (w : Pools ι) : Prop := ∀ i, (w.pool i).chunkPoolContext.Counts

theorem isolated_get {w w' : Pools ι} {i : ι} {con : ConId} {reply retry : MallocReply}
    {pick : Addr} (h : w.AllCount) (hstep : w.step (.get i con reply retry pick) = some w') :
    w.Isolated (.get i con reply retry pick) w' := by
  obtain ⟨c, hrefill⟩ := refill_eq w i reply retry
  obtain ⟨hsettings, hcalls⟩ := (w.pool i).settings_refill reply retry
  have hlists := (w.pool i).refill_lists (h i) reply retry
  simp only [step, hrefill] at hstep
  rw [grown_pool_self] at hstep
  split at hstep
  swap
  · cases hstep
  rename_i hpick
  cases hstep
  have hstore : ((w.pool i).refill reply retry).store ≠ [] := List.ne_nil_of_mem hpick.1
  refine ⟨?_, ?_, ?_, ((w.pool i).allocations reply retry).map (ownCall i), rfl, ?_⟩
  · intro j hj
    have hj : j ≠ i := hj
    rw [handOut_pool_of_ne _ _ _ hj, grown_pool_of_ne _ _ _ hj]
  · unfold alone ChunkPool.get ChunkPool.malloc handOut
    simp [hstore, hpick.2, PoolsOp.target, grown, setPool]
  · show ((Pools.handOut _ i con pick).pool i).settings = _
    rw [settings_handOut, grown_pool_self]
    exact hsettings
  · intro call hcall
    obtain ⟨made, hmade, rfl⟩ := List.mem_map.mp hcall
    refine ⟨rfl, rfl, hcalls made hmade, fun e he => ?_⟩
    show ((Pools.handOut _ i con pick).pool i).chunkPoolContext.Lists e
    rw [handOut_pool_self]
    refine ChunkPool.lists_prepare ?_ _ pick
    rw [grown_pool_self]
    exact hlists made hmade e he

/-- **Each call on a pool is isolated.** -/
theorem isolated_step {w w' : Pools ι} {op : PoolsOp ι} (h : w.AllCount)
    (hstep : w.step op = some w') : w.Isolated op w' := by
  cases op with
  | get i con reply retry pick => exact isolated_get h hstep
  | get_by_id i id =>
    cases hstep
    refine ⟨fun _ _ => rfl, rfl, rfl, [], (List.append_nil _).symm, ?_⟩
    exact fun c hc => absurd hc List.not_mem_nil
  | reclaim i ck con link =>
    simp only [step] at hstep
    split at hstep
    · cases hstep
      refine ⟨fun j hj => Function.update_of_ne hj .., ?_, ?_, [], (List.append_nil _).symm, ?_⟩
      · unfold alone
        simp [PoolsOp.target, ChunkPool.reclaim, setPool]
      · show (Function.update w.pool i _ i).settings = _
        rw [Function.update_self]
        rfl
      · exact fun c hc => absurd hc List.not_mem_nil
    · cases hstep

/-- A call keeps the counters right. -/
theorem allCount_step {w w' : Pools ι} {op : PoolsOp ι} (h : w.AllCount)
    (hstep : w.step op = some w') : w'.AllCount := by
  intro j
  by_cases hj : j = op.target
  swap
  · rw [(isolated_step h hstep).others j hj]
    exact h j
  subst hj
  cases op with
  | get i con reply retry pick =>
    obtain ⟨c, hrefill⟩ := refill_eq w i reply retry
    simp only [step, hrefill] at hstep
    split at hstep
    swap
    · cases hstep
    cases hstep
    have hcounts := (w.pool i).counts_refill (h i) reply retry
    show ((Pools.handOut _ i con pick).pool i).chunkPoolContext.Counts
    rw [handOut_pool_self, grown_pool_self]
    exact hcounts
  | get_by_id i id =>
    cases hstep
    exact h i
  | reclaim i ck con link =>
    simp only [step] at hstep
    split at hstep
    · cases hstep
      show (Function.update w.pool i _ i).chunkPoolContext.Counts
      rw [Function.update_self]
      exact h i
    · cases hstep

/-- The calls so far, the settings that no call changes, and the counters. -/
structure Inv (config : ι → PoolConfig) (w : Pools ι) : Prop where
  calls : w.OwnCalls config
  settings : ∀ i, (w.pool i).settings =
    (toInt32 (config i).request_buffer_size, (config i).domain)
  counts : w.AllCount

omit [DecidableEq ι] in
theorem inv_init (config : ι → PoolConfig) (mem : Mem) : (init config mem).Inv config := by
  refine ⟨fun c hc => absurd hc List.not_mem_nil, fun i => ?_, fun i => ?_⟩
  · show (toInt32 (toUInt64 _), (config i).domain) = _
    rw [toInt32_toUInt64]
  · show (0 : ℤ) = toInt32 ((0 : ℕ) : ℤ)
    exact toInt32_zero.symm

theorem inv_step {config : ι → PoolConfig} {w w' : Pools ι} {op : PoolsOp ι} (h : w.Inv config)
    (hstep : w.step op = some w') : w'.Inv config := by
  obtain ⟨hothers, -, hsettings, new, hnew, hown⟩ := isolated_step h.counts hstep
  refine ⟨fun c hc => ?_, fun i => ?_, allCount_step h.counts hstep⟩
  · rw [hnew] at hc
    obtain hc | hc := List.mem_append.mp hc
    · exact h.calls c hc
    · obtain ⟨hpool, hcontext, hset, -⟩ := hown c hc
      rw [h.settings, Prod.mk.injEq] at hset
      rw [hpool]
      exact ⟨hcontext, hset⟩
  · by_cases hi : i = op.target
    · rw [hi, hsettings]
      exact h.settings _
    · rw [hothers i hi]
      exact h.settings i

/-- **Pools do not disturb each other**, in any interleaving of calls on any number of
pools. -/
theorem pools_isolated (config : ι → PoolConfig) (mem : Mem) (ops : List (PoolsOp ι)) :
    Meets step (fun w op => ∀ w', w.step op = some w' → w.Isolated op w') (init config mem) ops ∧
      Always step (OwnCalls config) (init config mem) ops := by
  constructor
  · exact meets_of_meets (fun _ _ _ h _ hstep => inv_step h hstep)
      (fun _ _ _ h _ _ _ hstep => isolated_step h.counts hstep) (inv_init config mem) ops
      (meets_true _ ops)
  · have hinv : Always step (Inv config) (init config mem) ops :=
      always_of_meets (fun _ _ _ h _ hstep => inv_step h hstep) (inv_init config mem)
        (meets_true _ ops)
    exact hinv.mono fun _ h => h.calls

end Pools

end Hpnl
