import Hpnl.ChunkPool.World

/-!
# The ids of the pool's chunks

`PoolAllocator::malloc` walks a new block in steps of its own `chunk_size`, while
`boost::pool` cuts the block at a stride rounded up to a multiple of 8.  The
chunks it numbers are the chunks that are handed out when the two agree, that
is, when the buffer size is a multiple of 8 (and small enough for `int`).

* `number_extends`, `numberAll_numbered` — what numbering does to the two maps.
* `Aligned` — the two strides agree, a property of the size the pool was built
  with (`aligned_new`).
* `IdsInv` — every chunk the pool owns is numbered, and the id of a chunk that
  is out leads back to it; `idsInv_step` — a step keeps it.
* `pool_ids_distinct` — **ids are unambiguous** in every state of every run of
  an aligned pool, as long as the ids do not run out.
* `pool_ids_collide` — with 1-byte buffers the second chunk gets the id of the
  first.
-/

namespace Hpnl

open MachineInt Transition

/-! ## Numbering -/

namespace ChunkPoolContext

/-- The id `k` was given out by the numbering loop and leads to the chunk `a`. -/
def Names (ctx : ChunkPoolContext) (k : ℤ) (a : Addr) : Prop :=
  ∃ j < ctx.numbered, k = toInt32 j ∧ ∃ mr, ctx.id_to_chunk_map.find? k = some (a, mr)

/-- The chunk `a` has an id, and the id leads back to it. -/
def Numbered (ctx : ChunkPoolContext) (a : Addr) : Prop :=
  ∃ k, ctx.chunk_to_id_map.find? a = some k ∧ ctx.Names k a

/-- `id` is the number of ids given out, as an `int`. -/
def Counts (ctx : ChunkPoolContext) : Prop := ctx.id = toInt32 ctx.numbered

theorem Names.chunk_eq {ctx : ChunkPoolContext} {k : ℤ} {a b : Addr} (ha : ctx.Names k a)
    (hb : ctx.Names k b) : a = b := by
  obtain ⟨-, -, -, mr, ha⟩ := ha
  obtain ⟨-, -, -, mr', hb⟩ := hb
  rw [ha, Option.some.injEq, Prod.mk.injEq] at hb
  exact hb.1

/-- An id that leads to a chunk is an `int`. -/
theorem Names.toInt32_eq {ctx : ChunkPoolContext} {k : ℤ} {a : Addr} (h : ctx.Names k a) :
    toInt32 k = k := by
  obtain ⟨j, -, rfl, -⟩ := h
  exact toInt32_toInt32 j

/-- `ctx'` has kept every id of `ctx`. -/
structure Extends (ctx ctx' : ChunkPoolContext) : Prop where
  counts : ctx'.Counts
  buffer_size : ctx'.buffer_size = ctx.buffer_size
  count_le : ctx.numbered ≤ ctx'.numbered
  names : ∀ k a, ctx.Names k a → ctx'.Names k a
  numbered : ∀ a, ctx.Numbered a → ctx'.Numbered a

theorem Extends.refl {ctx : ChunkPoolContext} (h : ctx.Counts) : ctx.Extends ctx :=
  ⟨h, rfl, le_rfl, fun _ _ h => h, fun _ h => h⟩

theorem Extends.trans {ctx₁ ctx₂ ctx₃ : ChunkPoolContext} (h : ctx₁.Extends ctx₂)
    (h' : ctx₂.Extends ctx₃) : ctx₁.Extends ctx₃ :=
  { counts := h'.counts
    buffer_size := h'.buffer_size.trans h.buffer_size
    count_le := h.count_le.trans h'.count_le
    names := fun k a hk => h'.names k a (h.names k a hk)
    numbered := fun a ha => h'.numbered a (h.numbered a ha) }

end ChunkPoolContext

namespace PoolAllocator

open ChunkPoolContext

variable {ctx : ChunkPoolContext} {ptr mr : Addr}

/-- The chunk that is numbered gets the next id. -/
theorem number_numbered_self (h : ctx.Counts) : (number ctx ptr mr).Numbered ptr :=
  ⟨ctx.id, StdMap.find?_assign_self ..,
    ⟨ctx.numbered, Nat.lt_succ_self _, h, mr, StdMap.find?_assign_self ..⟩⟩

/-- Numbering a chunk keeps every id given out before. -/
theorem number_extends (h : ctx.Counts) (hroom : ctx.numbered < 2 ^ 32) :
    ctx.Extends (number ctx ptr mr) := by
  have hnames : ∀ k a, ctx.Names k a → (number ctx ptr mr).Names k a := by
    rintro k a ⟨j, hj, rfl, r, hr⟩
    have hne : ctx.id ≠ toInt32 j := by
      intro heq
      have := toInt32_inj (by omega) (by omega) (heq ▸ h : toInt32 j = toInt32 ctx.numbered)
      omega
    exact ⟨j, Nat.lt_succ_of_lt hj, rfl, r, (StdMap.find?_assign_of_ne _ _ hne).trans hr⟩
  refine ⟨?_, rfl, Nat.le_succ _, hnames, ?_⟩
  · show toInt32 (ctx.id + 1) = toInt32 ((ctx.numbered + 1 : ℕ) : ℤ)
    rw [h, toInt32_toInt32_add]
    push_cast
    rfl
  · intro a ha
    by_cases hp : ptr = a
    · rw [← hp]
      exact number_numbered_self h
    · obtain ⟨k, hk, hka⟩ := ha
      exact ⟨k, (StdMap.find?_assign_of_ne _ _ hp).trans hk, hnames k a hka⟩

/-! ### The loop -/

theorem numberAll_count (size : ℤ) : ∀ (n : ℕ) (ctx : ChunkPoolContext) (ptr : Addr),
    (numberAll mr size n ctx ptr).numbered = ctx.numbered + n := by
  intro n
  induction n with
  | zero => intro ctx ptr; rfl
  | succ n ih =>
    intro ctx ptr
    rw [numberAll, ih]
    show ctx.numbered + 1 + n = ctx.numbered + (n + 1)
    omega

theorem numberAll_extends (size : ℤ) : ∀ (n : ℕ) (ctx : ChunkPoolContext) (ptr : Addr),
    ctx.Counts → ctx.numbered + n ≤ 2 ^ 32 → ctx.Extends (numberAll mr size n ctx ptr) := by
  intro n
  induction n with
  | zero => intro ctx ptr h _; exact Extends.refl h
  | succ n ih =>
    intro ctx ptr h hroom
    have hstep : ctx.Extends (number ctx ptr mr) := number_extends h (by omega)
    refine hstep.trans (ih _ _ hstep.counts ?_)
    show ctx.numbered + 1 + n ≤ 2 ^ 32
    omega

/-- **The loop numbers every `size`-th address** from where it starts. -/
theorem numberAll_numbered (size : ℕ) :
    ∀ (n : ℕ) (ctx : ChunkPoolContext) (ptr : Addr), ctx.Counts → ctx.numbered + n ≤ 2 ^ 32 →
      ∀ i < n, (numberAll mr size n ctx ptr).Numbered (ptr + i * size) := by
  intro n
  induction n with
  | zero => intro ctx ptr _ _ i hi; exact absurd hi (Nat.not_lt_zero i)
  | succ n ih =>
    intro ctx ptr h hroom i hi
    have hstep : ctx.Extends (number ctx ptr mr) := number_extends h (by omega)
    have hroom' : (number ctx ptr mr).numbered + n ≤ 2 ^ 32 := by
      show ctx.numbered + 1 + n ≤ 2 ^ 32
      omega
    have hnext : ((ptr : ℤ) + (size : ℤ)).toNat = ptr + size := by omega
    rw [numberAll, hnext]
    cases i with
    | zero =>
      rw [Nat.zero_mul, Nat.add_zero]
      exact (numberAll_extends _ _ _ _ hstep.counts hroom').numbered _ (number_numbered_self h)
    | succ i =>
      have := ih (number ctx ptr mr) (ptr + size) hstep.counts hroom' i (by omega)
      rwa [show ptr + size + i * size = ptr + (i + 1) * size by ring] at this

/-! ### The allocator -/

/-- `PoolAllocator::malloc` either numbers nothing and fails, or runs the loop
over the memory it returns. -/
theorem malloc_cases (ctx : ChunkPoolContext) (bytes : ℕ) (reply : MallocReply) :
    malloc ctx bytes reply = (ctx, nullptr) ∨
      ∃ mr, malloc ctx bytes reply = (numberAll mr (chunk_size ctx) (buffer_num ctx bytes).toNat ctx
        reply.memory, reply.memory) := by
  simp only [malloc]
  split
  · cases reply.mr with
    | none => exact Or.inl rfl
    | some mr => exact Or.inr ⟨mr, rfl⟩
  · exact Or.inr ⟨nullptr, rfl⟩

theorem malloc_extends {bytes : ℕ} {reply : MallocReply} (h : ctx.Counts)
    (hroom : (malloc ctx bytes reply).1.numbered ≤ 2 ^ 32) :
    ctx.Extends (malloc ctx bytes reply).1 := by
  rcases malloc_cases ctx bytes reply with heq | ⟨mr, heq⟩
  · rw [heq]
    exact Extends.refl h
  · rw [heq] at hroom ⊢
    refine numberAll_extends _ _ _ _ h ?_
    rwa [numberAll_count] at hroom

theorem malloc_count_le (ctx : ChunkPoolContext) (bytes : ℕ) (reply : MallocReply) :
    ctx.numbered ≤ (malloc ctx bytes reply).1.numbered := by
  rcases malloc_cases ctx bytes reply with heq | ⟨mr, heq⟩
  · rw [heq]
  · rw [heq, numberAll_count]
    exact Nat.le_add_right _ _

/-- The block that is returned is numbered in steps of `chunk_size`. -/
theorem malloc_numbered {bytes : ℕ} {reply : MallocReply} {size : ℕ} (h : ctx.Counts)
    (hroom : (malloc ctx bytes reply).1.numbered ≤ 2 ^ 32) (hsize : chunk_size ctx = size)
    (hblock : (malloc ctx bytes reply).2 ≠ nullptr) :
    ∀ i < (buffer_num ctx bytes).toNat,
      (malloc ctx bytes reply).1.Numbered ((malloc ctx bytes reply).2 + i * size) := by
  rcases malloc_cases ctx bytes reply with heq | ⟨mr, heq⟩
  · rw [heq] at hblock
    exact absurd rfl hblock
  · rw [heq] at hroom ⊢
    rw [numberAll_count] at hroom
    rw [hsize]
    exact numberAll_numbered size _ _ _ h hroom

end PoolAllocator

/-! ## Pools whose strides agree -/

namespace ChunkPool

/-- The allocator's step is the stride of `boost::pool`. -/
def Aligned (p : ChunkPool) : Prop :=
  PoolAllocator.chunk_size p.chunkPoolContext = p.partition_size ∧
    sizeof_Chunk ≤ p.partition_size ∧ p.partition_size < 2 ^ 31

/-- A pool for buffers of a multiple of 8 bytes is aligned. -/
theorem aligned_new (domain : Addr) {size n : ℤ} (hsize : 0 ≤ size) (h8 : 8 ∣ size)
    (hint : size + sizeof_Chunk < 2 ^ 31) : (new domain size n).Aligned := by
  have h128 : (sizeof_Chunk : ℤ) = 128 := rfl
  rw [h128] at hint
  refine ⟨?_, ?_, ?_⟩
  · simp only [PoolAllocator.chunk_size, new, partition_size, toInt32, toUInt64, h128]
    omega
  · simp only [new, partition_size, toUInt64, show sizeof_Chunk = 128 from rfl]
    omega
  · simp only [new, partition_size, toUInt64, h128]
    omega

/-- On an aligned pool the allocator numbers as many chunks as `boost::pool` cuts. -/
theorem Aligned.buffer_num_eq {p : ChunkPool} (h : p.Aligned) (hnext : p.next_size < 2 ^ 31) :
    PoolAllocator.buffer_num p.chunkPoolContext p.pod_size = p.next_size := by
  obtain ⟨hsize, hlo, hhi⟩ := h
  have h128 : sizeof_Chunk = 128 := rfl
  have hdiv : p.pod_size / p.partition_size = p.next_size := by
    have h16 : 16 / p.partition_size = 0 := Nat.div_eq_of_lt (by omega)
    rw [pod_size, Nat.add_comm, Nat.add_mul_div_right _ _ (by omega), h16, Nat.zero_add]
  rw [PoolAllocator.buffer_num, hsize, toUInt64_eq_self (by omega)]
  norm_cast
  rw [hdiv, toInt32_eq_self (by omega) (by omega)]

/-! ## The invariant of the pool -/

/-- What the numbering maintains: every free chunk has an id that leads back to
it. -/
structure IdsInv (p : ChunkPool) : Prop where
  aligned : p.Aligned
  counts : p.chunkPoolContext.Counts
  store_numbered : ∀ a ∈ p.store, p.chunkPoolContext.Numbered a

theorem idsInv_new (domain : Addr) {size n : ℤ} (hsize : 0 ≤ size) (h8 : 8 ∣ size)
    (hint : size + sizeof_Chunk < 2 ^ 31) : (new domain size n).IdsInv :=
  { aligned := aligned_new domain hsize h8 hint
    counts := toInt32_zero.symm
    store_numbered := by intro a ha; exact absurd ha List.not_mem_nil }

/-! ### Growth -/

/-- A call of the allocator keeps the invariant. -/
theorem IdsInv.callAllocator {p : ChunkPool} (h : p.IdsInv) {reply : MallocReply}
    (hroom : (p.callAllocator reply).1.chunkPoolContext.numbered ≤ 2 ^ 32) :
    p.chunkPoolContext.Extends (p.callAllocator reply).1.chunkPoolContext ∧
      (p.callAllocator reply).1.IdsInv := by
  have hext : p.chunkPoolContext.Extends (p.callAllocator reply).1.chunkPoolContext :=
    PoolAllocator.malloc_extends h.counts hroom
  refine ⟨hext, ?_, hext.counts, fun a ha => hext.numbered a (h.store_numbered a ha)⟩
  obtain ⟨hsize, hlo, hhi⟩ := h.aligned
  refine ⟨?_, hlo, hhi⟩
  rw [PoolAllocator.chunk_size, hext.buffer_size]
  exact hsize

/-- A call of the allocator that returns a block, followed by `add_block`. -/
theorem IdsInv.add_block {p : ChunkPool} (h : p.IdsInv) {reply : MallocReply}
    (hnext : p.next_size < 2 ^ 31)
    (hroom : (p.callAllocator reply).1.chunkPoolContext.numbered ≤ 2 ^ 32)
    (hblock : (p.callAllocator reply).2 ≠ nullptr) :
    ((p.callAllocator reply).1.add_block (p.callAllocator reply).2).IdsInv := by
  obtain ⟨-, hinv⟩ := h.callAllocator hroom
  have hnew : ∀ i < p.next_size, (p.callAllocator reply).1.chunkPoolContext.Numbered
      ((p.callAllocator reply).2 + i * p.partition_size) := by
    have hnum := PoolAllocator.malloc_numbered h.counts hroom h.aligned.1 hblock
    rwa [h.aligned.buffer_num_eq hnext, Int.toNat_natCast] at hnum
  refine ⟨hinv.aligned, hinv.counts, ?_⟩
  intro a ha
  rcases List.mem_append.mp ha with ha | ha
  · obtain ⟨i, hi, rfl⟩ := List.mem_map.mp ha
    exact hnew i (List.mem_range.mp hi)
  · exact hinv.store_numbered a ha

theorem callAllocator_count_le (p : ChunkPool) (reply : MallocReply) :
    p.chunkPoolContext.numbered ≤ (p.callAllocator reply).1.chunkPoolContext.numbered :=
  PoolAllocator.malloc_count_le _ _ _

/-- The growth of the pool fits its 32-bit counters: the block has fewer than
2³¹ chunks, and no more than 2³² ids have been given out after it. -/
def RefillFits (p : ChunkPool) (reply retry : MallocReply) : Prop :=
  p.store = [] → p.next_size < 2 ^ 31 ∧
    (p.refill reply retry).chunkPoolContext.numbered ≤ 2 ^ 32

instance (p : ChunkPool) (reply retry : MallocReply) : Decidable (p.RefillFits reply retry) :=
  inferInstanceAs (Decidable (_ → _))

/-- Refilling the free list keeps the invariant and every id given out before. -/
theorem IdsInv.refill {p : ChunkPool} (h : p.IdsInv) {reply retry : MallocReply}
    (hfits : p.RefillFits reply retry) :
    p.chunkPoolContext.Extends (p.refill reply retry).chunkPoolContext ∧
      (p.refill reply retry).IdsInv := by
  by_cases hs : p.store = []
  swap
  · rw [ChunkPool.refill, if_neg hs]
    exact ⟨ChunkPoolContext.Extends.refl h.counts, h⟩
  obtain ⟨hnext, hroom⟩ := hfits hs
  rw [ChunkPool.refill, if_pos hs] at hroom ⊢
  simp only [malloc_need_resize] at hroom ⊢
  by_cases hb : (p.callAllocator reply).2 ≠ nullptr
  · -- the first request succeeds
    rw [if_pos hb] at hroom ⊢
    exact ⟨(h.callAllocator hroom).1, h.add_block hnext hroom hb⟩
  rw [if_neg hb] at hroom ⊢
  by_cases h4 : 4 < (p.callAllocator reply).1.next_size
  swap
  · rw [if_neg h4] at hroom ⊢
    exact h.callAllocator hroom
  -- the second request is made with half the size
  rw [if_pos h4] at hroom ⊢
  set q : ChunkPool := { (p.callAllocator reply).1 with
    next_size := (p.callAllocator reply).1.next_size / 2 } with hq
  have hroom₂ : (q.callAllocator retry).1.chunkPoolContext.numbered ≤ 2 ^ 32 := by
    split at hroom <;> exact hroom
  have hroom₁ : (p.callAllocator reply).1.chunkPoolContext.numbered ≤ 2 ^ 32 :=
    (callAllocator_count_le q retry).trans hroom₂
  obtain ⟨hext₁, hinv₁⟩ := h.callAllocator hroom₁
  have hinvq : q.IdsInv := ⟨hinv₁.aligned, hinv₁.counts, hinv₁.store_numbered⟩
  obtain ⟨hext₂, hinv₂⟩ := hinvq.callAllocator hroom₂
  have hqnext : q.next_size < 2 ^ 31 := lt_of_le_of_lt (Nat.div_le_self _ _) hnext
  split
  · rename_i hb₂
    exact ⟨hext₁.trans hext₂, hinvq.add_block hqnext hroom₂ hb₂⟩
  · exact ⟨hext₁.trans hext₂, hinv₂⟩

/-! ### Handing out a chunk -/

/-- On a chunk that is numbered, `prepare` leaves both maps alone and writes the
chunk's id into its header. -/
theorem prepare_of_numbered {p : ChunkPool} {ck : Addr}
    (h : p.chunkPoolContext.Numbered ck) (mem : Mem) :
    (p.prepare mem ck).1.chunkPoolContext = p.chunkPoolContext ∧
      p.chunkPoolContext.Names ((p.prepare mem ck).2 ck).key ck := by
  obtain ⟨k, hk, hnames⟩ := h
  have hint : toInt32 (toUInt64 k) = k := (toInt32_toUInt64 k).trans hnames.toInt32_eq
  have hval : p.chunkPoolContext.chunk_to_id_map.value ck 0 = k := StdMap.value_of_some 0 hk
  obtain ⟨-, -, -, mr, hmr⟩ := id hnames
  constructor
  · simp only [prepare, hval, hint, StdMap.index_of_some _ hk, StdMap.index_of_some _ hmr]
  · simp only [prepare, Function.update_self, Chunk.key, hval, hint]
    exact hnames

end ChunkPool

/-! ## Runs -/

namespace PoolWorld

/-- Every chunk that is out has an id of its own: no other chunk that is out has
the same `buffer_id`, and `get(ck->buffer_id)` returns the chunk. -/
def IdsDistinct (s : PoolWorld) : Prop :=
  ∀ c, s.holder c ≠ none →
    (∀ d, s.holder d ≠ none → d ≠ c → (s.mem d).buffer_id ≠ (s.mem c).buffer_id) ∧
      s.pool.get_by_id (s.mem c).key = c

/-- A step whose growth, if any, fits the pool's counters. -/
def Fits (s : PoolWorld) : PoolOp → Prop
  | .get _ reply retry _ => s.pool.RefillFits reply retry
  | _ => True

instance (s : PoolWorld) : (op : PoolOp) → Decidable (s.Fits op)
  | .get _ reply retry _ => inferInstanceAs (Decidable (s.pool.RefillFits reply retry))
  | .get_by_id _ => isTrue trivial
  | .reclaim _ _ _ => isTrue trivial

/-- The invariant: the pool's own, a chunk that is out is numbered, and the id in
its header leads to it. -/
structure IdsInv (s : PoolWorld) : Prop where
  pool : s.pool.IdsInv
  out_numbered : ∀ c, s.holder c ≠ none → s.pool.chunkPoolContext.Numbered c
  out_names : ∀ c, s.holder c ≠ none → s.pool.chunkPoolContext.Names (s.mem c).key c

theorem IdsInv.distinct {s : PoolWorld} (h : s.IdsInv) : s.IdsDistinct := by
  intro c hc
  refine ⟨fun d hd hne heq => hne ?_, ?_⟩
  · have hkey : (s.mem d).key = (s.mem c).key := congrArg (fun n : ℕ => toInt32 n) heq
    exact (hkey ▸ h.out_names d hd).chunk_eq (h.out_names c hc)
  · obtain ⟨-, -, -, mr, hfind⟩ := h.out_names c hc
    simp only [ChunkPool.get_by_id, hfind]

/-- **A step keeps the invariant**, when its growth fits. -/
theorem idsInv_step {s t : PoolWorld} {op : PoolOp} (h : s.IdsInv) (hfits : s.Fits op)
    (hstep : s.step op = some t) : t.IdsInv := by
  cases op with
  | get con reply retry pick =>
    obtain ⟨hcan, -, rfl⟩ := step_get hstep
    obtain ⟨hext, hinv⟩ := h.pool.refill hfits
    have hnum : (s.taken reply retry pick).chunkPoolContext.Numbered pick :=
      hinv.store_numbered _ hcan.2.2
    obtain ⟨hctx, hnames⟩ := ChunkPool.prepare_of_numbered hnum s.mem
    change (s.afterGet con reply retry pick).pool.chunkPoolContext = _ at hctx
    refine ⟨⟨?_, ?_, ?_⟩, ?_, ?_⟩
    · show PoolAllocator.chunk_size _ = _ ∧ _
      rw [hctx]
      exact hinv.aligned
    · show ChunkPoolContext.Counts _
      rw [hctx]
      exact hinv.counts
    · intro a ha
      rw [hctx]
      exact hinv.store_numbered a (List.mem_of_mem_erase ha)
    · intro c hc
      rw [hctx]
      by_cases hcp : c = pick
      · rw [hcp]
        exact hnum
      · rw [holder_afterGet, Function.update_of_ne hcp] at hc
        exact hext.numbered c (h.out_numbered c hc)
    · intro c hc
      rw [hctx]
      by_cases hcp : c = pick
      · rw [hcp]
        exact hnames
      · rw [holder_afterGet, Function.update_of_ne hcp] at hc
        rw [mem_afterGet_of_ne s con reply retry hcp]
        exact hext.names _ _ (h.out_names c hc)
  | get_by_id id =>
    cases hstep
    exact h
  | reclaim ck con link =>
    obtain ⟨-, hout, rfl⟩ := step_reclaim hstep
    have hother : ∀ c, (s.afterReclaim ck con link).holder c ≠ none →
        c ≠ ck ∧ s.holder c ≠ none := by
      intro c hc
      rw [holder_afterReclaim] at hc
      by_cases hck : c = ck
      · rw [hck, Function.update_self] at hc
        exact absurd rfl hc
      · rw [Function.update_of_ne hck] at hc
        exact ⟨hck, hc⟩
    refine ⟨⟨h.pool.aligned, h.pool.counts, ?_⟩, ?_, ?_⟩
    · intro a ha
      rcases List.mem_cons.mp ha with rfl | ha
      · exact h.out_numbered _ hout
      · exact h.pool.store_numbered a ha
    · intro c hc
      exact h.out_numbered c (hother c hc).2
    · intro c hc
      obtain ⟨hne, hc⟩ := hother c hc
      rw [mem_afterReclaim_of_ne s con link hne]
      exact h.out_names c hc

theorem idsInv_init (mem : Mem) (domain : Addr) {size n : ℤ} (hsize : 0 ≤ size) (h8 : 8 ∣ size)
    (hint : size + sizeof_Chunk < 2 ^ 31) : (init mem domain size n).IdsInv :=
  { pool := ChunkPool.idsInv_new domain hsize h8 hint
    out_numbered := fun _ hc => absurd rfl hc
    out_names := fun _ hc => absurd rfl hc }

end PoolWorld

/-! ## Pools whose strides differ -/

/-- The chunk `a` has no id, and no id leads to it. -/
def ChunkPoolContext.Unnumbered (ctx : ChunkPoolContext) (a : Addr) : Prop :=
  ctx.chunk_to_id_map.find? a = none ∧ ∀ k mr, ctx.id_to_chunk_map.find? k ≠ some (a, mr)

theorem PoolAllocator.number_unnumbered {ctx : ChunkPoolContext} {ptr mr a : Addr}
    (h : ctx.Unnumbered a) (hne : ptr ≠ a) : (number ctx ptr mr).Unnumbered a := by
  refine ⟨(StdMap.find?_assign_of_ne _ _ hne).trans h.1, ?_⟩
  intro k r
  show (ctx.id_to_chunk_map.assign ctx.id (ptr, mr)).find? k ≠ some (a, r)
  by_cases hk : ctx.id = k
  · rw [hk, StdMap.find?_assign_self]
    simp [hne]
  · rw [StdMap.find?_assign_of_ne _ _ hk]
    exact h.2 k r

/-- The loop numbers no address that it does not step on. -/
theorem PoolAllocator.numberAll_unnumbered {mr a : Addr} (size : ℕ) :
    ∀ (n : ℕ) (ctx : ChunkPoolContext) (ptr : Addr), ctx.Unnumbered a →
      (∀ i < n, ptr + i * size ≠ a) → (numberAll mr size n ctx ptr).Unnumbered a := by
  intro n
  induction n with
  | zero => intro ctx ptr h _; exact h
  | succ n ih =>
    intro ctx ptr h hne
    have hnext : ((ptr : ℤ) + (size : ℤ)).toNat = ptr + size := by omega
    have hptr : ptr ≠ a := by
      have h0 := hne 0 (Nat.succ_pos n)
      rwa [Nat.zero_mul, Nat.add_zero] at h0
    rw [numberAll, hnext]
    refine ih _ _ (number_unnumbered h hptr) ?_
    intro i hi
    have hi' := hne (i + 1) (Nat.succ_lt_succ hi)
    rwa [show ptr + (i + 1) * size = ptr + size + i * size by ring] at hi'

/-- A chunk that is handed out without an id is not found under the id in its
header: `operator[]` makes up the id 0, and that leads elsewhere. -/
theorem ChunkPool.prepare_of_unnumbered {p : ChunkPool} {ck : Addr} (hck : ck ≠ nullptr)
    (h : p.chunkPoolContext.Unnumbered ck) (mem : Mem) :
    (p.prepare mem ck).1.get_by_id ((p.prepare mem ck).2 ck).key ≠ ck := by
  have hval : p.chunkPoolContext.chunk_to_id_map.value ck 0 = 0 := by
    rw [StdMap.value, h.1]
    rfl
  have h0 : toInt32 (toUInt64 0) = 0 := (toInt32_toUInt64 0).trans toInt32_zero
  have hkey : ((p.prepare mem ck).2 ck).key = 0 := by
    simp only [prepare, Function.update_self, Chunk.key, hval, h0]
  have hmap : (p.prepare mem ck).1.chunkPoolContext.id_to_chunk_map =
      p.chunkPoolContext.id_to_chunk_map.index 0 (nullptr, nullptr) := by
    simp only [prepare, hval, h0]
  rw [hkey, get_by_id, hmap, StdMap.find?_index_self]
  show (p.chunkPoolContext.id_to_chunk_map.value 0 (nullptr, nullptr)).1 ≠ ck
  rw [StdMap.value]
  cases hfind : p.chunkPoolContext.id_to_chunk_map.find? 0 with
  | none => exact hck.symm
  | some e =>
    rintro rfl
    exact h.2 0 e.2 hfind

/-- The first block of a pool whose allocator answers. -/
theorem ChunkPool.refill_first {p : ChunkPool} (hs : p.store = []) {reply : MallocReply}
    (hblock : (p.callAllocator reply).2 ≠ nullptr) (retry : MallocReply) :
    (p.refill reply retry).store = p.segregate (p.callAllocator reply).2 p.next_size ∧
      (p.refill reply retry).chunkPoolContext = (p.callAllocator reply).1.chunkPoolContext := by
  rw [refill, if_pos hs, malloc_need_resize]
  simp only [if_pos hblock]
  refine ⟨?_, rfl⟩
  show p.segregate _ p.next_size ++ p.store = _
  rw [hs, List.append_nil]

/-- Without a fabric domain the allocator returns what `std::malloc` does. -/
theorem ChunkPool.callAllocator_block {p : ChunkPool} (h : p.chunkPoolContext.domain = nullptr)
    (reply : MallocReply) : (p.callAllocator reply).2 = reply.memory := by
  rw [callAllocator, PoolAllocator.malloc, if_neg (not_not.mpr h)]

theorem ChunkPool.next_size_two (size : ℤ) : (new nullptr size 2).next_size = 2 := by
  show toUInt64 2 = 2
  simp only [toUInt64]
  omega

/-- Unless the strides agree, the second chunk of the first block has no id. -/
theorem ChunkPool.second_unnumbered {size : ℤ} (h0 : 0 ≤ size) (hint : size < 2 ^ 31)
    (hbad : ¬ (8 ∣ size ∧ size + sizeof_Chunk < 2 ^ 31)) (block : Addr) :
    ((new nullptr size 2).callAllocator ⟨block, none⟩).1.chunkPoolContext.Unnumbered
      (block + (new nullptr size 2).partition_size) := by
  set p := new nullptr size 2 with hp
  have h128 : (sizeof_Chunk : ℤ) = 128 := rfl
  have hctx : p.chunkPoolContext.Unnumbered (block + p.partition_size) :=
    ⟨StdMap.find?_empty _, fun k mr => by simp [hp, new]⟩
  have hstride : (p.partition_size : ℤ) = (size + 135) / 8 * 8 := by
    simp only [hp, partition_size, new, toUInt64, h128]
    omega
  have hsize : PoolAllocator.chunk_size p.chunkPoolContext = toInt32 (size + 128) := by
    simp only [hp, PoolAllocator.chunk_size, new, toInt32, toUInt64, h128]
    omega
  show (PoolAllocator.numberAll nullptr (PoolAllocator.chunk_size p.chunkPoolContext)
    (PoolAllocator.buffer_num p.chunkPoolContext p.pod_size).toNat p.chunkPoolContext
      block).Unnumbered _
  rw [h128] at hbad
  by_cases hlarge : size + 128 < 2 ^ 31
  · -- the allocator steps by less than the stride, and by more than half of it
    have hstep : toInt32 (size + 128) = ((size + 128).toNat : ℤ) := by
      rw [toInt32_eq_self (by omega) hlarge]
      omega
    rw [hsize, hstep]
    refine PoolAllocator.numberAll_unnumbered _ _ _ _ hctx ?_
    intro i _ hi
    have hi : i * (size + 128).toNat = p.partition_size := Nat.add_left_cancel hi
    have hmis : ¬ 8 ∣ size := fun h8 => hbad ⟨h8, hlarge⟩
    rcases i with _ | _ | j
    · omega
    · omega
    · have : 2 * (size + 128).toNat ≤ (j + 1 + 1) * (size + 128).toNat :=
        Nat.mul_le_mul_right _ (Nat.le_add_left 2 j)
      omega
  · -- the size is no `int`: the division yields no chunks
    have hnum : PoolAllocator.buffer_num p.chunkPoolContext p.pod_size = 0 := by
      have hpod : p.pod_size = 2 * p.partition_size + 16 := by
        rw [pod_size, next_size_two]
      have hdiv : p.pod_size / toUInt64 (toInt32 (size + 128)) = 0 := by
        refine Nat.div_eq_of_lt ?_
        rw [hpod]
        simp only [toUInt64, toInt32]
        omega
      rw [PoolAllocator.buffer_num, hsize]
      norm_cast
      rw [hdiv]
      exact toInt32_zero
    rw [hnum]
    exact hctx

namespace PoolWorld

/-- A pool with blocks of two chunks hands out the second chunk of its first
block. -/
abbrev secondFirst (size : ℤ) (block : Addr) : PoolOp :=
  .get 1 ⟨block, none⟩ ⟨nullptr, none⟩ (block + (ChunkPool.new nullptr size 2).partition_size)

theorem refill_new (size : ℤ) {block : Addr} (hblock : block ≠ nullptr) (retry : MallocReply) :
    ((ChunkPool.new nullptr size 2).refill ⟨block, none⟩ retry).store =
        (ChunkPool.new nullptr size 2).segregate block 2 ∧
      ((ChunkPool.new nullptr size 2).refill ⟨block, none⟩ retry).chunkPoolContext =
        ((ChunkPool.new nullptr size 2).callAllocator ⟨block, none⟩).1.chunkPoolContext := by
  have hb : ((ChunkPool.new nullptr size 2).callAllocator ⟨block, none⟩).2 = block :=
    ChunkPool.callAllocator_block rfl _
  have hs : (ChunkPool.new nullptr size 2).store = [] := rfl
  have h := ChunkPool.refill_first hs (hb.symm ▸ hblock) retry
  rwa [hb, ChunkPool.next_size_two] at h

theorem canGet_second (size : ℤ) {block : Addr} (hblock : block ≠ nullptr) :
    (ChunkPool.new nullptr size 2).CanGet ⟨block, none⟩ ⟨nullptr, none⟩
      (block + (ChunkPool.new nullptr size 2).partition_size) := by
  refine ⟨fun _ b hb => absurd hb List.not_mem_nil, fun _ b hb => absurd hb List.not_mem_nil, ?_⟩
  rw [(refill_new size hblock _).1]
  refine List.mem_map.mpr ⟨1, List.mem_range.mpr Nat.one_lt_two, ?_⟩
  rw [Nat.one_mul]

/-- The first block, of two chunks, fits the counters. -/
theorem second_fits (size : ℤ) {block : Addr} (hblock : block ≠ nullptr) (retry : MallocReply) :
    (ChunkPool.new nullptr size 2).RefillFits ⟨block, none⟩ retry := by
  intro _
  rw [ChunkPool.next_size_two, (refill_new size hblock retry).2]
  refine ⟨by decide, ?_⟩
  show (PoolAllocator.numberAll nullptr _ _ _ block).numbered ≤ 2 ^ 32
  rw [PoolAllocator.numberAll_count]
  have hlt := toInt32_lt (((ChunkPool.new nullptr size 2).pod_size /
    toUInt64 (PoolAllocator.chunk_size (ChunkPool.new nullptr size 2).chunkPoolContext) : ℕ) : ℤ)
  have h0 : (ChunkPool.new nullptr size 2).chunkPoolContext.numbered = 0 := rfl
  rw [h0]
  rw [PoolAllocator.buffer_num]
  push_cast at hlt
  omega

/-- **Misaligned pools confuse ids**: the very first chunk can be one whose id
does not lead back to it. -/
theorem not_idsDistinct_of_misaligned {size : ℤ} (h0 : 0 ≤ size) (hint : size < 2 ^ 31)
    (hbad : ¬ (8 ∣ size ∧ size + sizeof_Chunk < 2 ^ 31)) (mem : Mem) {block : Addr}
    (hblock : block ≠ nullptr) :
    ¬ Always step IdsDistinct (init mem nullptr size 2) [secondFirst size block] := by
  intro h
  have hpick : block + (ChunkPool.new nullptr size 2).partition_size ≠ nullptr :=
    fun h0 => hblock (Nat.add_eq_zero_iff.mp h0).1
  have hdist : IdsDistinct (afterGet (init mem nullptr size 2) 1 ⟨block, none⟩
      ⟨nullptr, none⟩ (block + (ChunkPool.new nullptr size 2).partition_size)) :=
    (h.2 _ (step_get_eq 1 (canGet_second size hblock) hpick)).head
  refine ChunkPool.prepare_of_unnumbered hpick ?_ _ (hdist _ ?_).2
  · have hun := ChunkPool.second_unnumbered h0 hint hbad block
    rwa [← (refill_new size hblock ⟨nullptr, none⟩).2] at hun
  · rw [holder_afterGet, Function.update_self]
    exact Option.some_ne_none _

/-- **Ids are unambiguous exactly in aligned pools.**  For the buffer sizes an
`int` can hold: in every run whose growth fits the pool's 32-bit counters the
chunks that are out have different ids that lead back to them, if and only if the
size is a multiple of 8 and is still an `int` together with the chunk header. -/
theorem pool_ids_distinct (size : ℤ) (h0 : 0 ≤ size) (hint : size < 2 ^ 31) :
    (∀ (mem : Mem) (domain : Addr) (n : ℤ) (ops : List PoolOp), 1 ≤ n →
        Meets step Fits (init mem domain size n) ops →
        Always step IdsDistinct (init mem domain size n) ops) ↔
      8 ∣ size ∧ size + sizeof_Chunk < 2 ^ 31 := by
  constructor
  · intro h
    by_contra hbad
    have hblock : (4096 : Addr) ≠ nullptr := by decide
    refine not_idsDistinct_of_misaligned h0 hint hbad (fun _ => {}) hblock ?_
    refine h (fun _ => {}) nullptr 2 [secondFirst size 4096] (by decide) ?_
    exact fun t _ => ⟨second_fits size hblock _, trivial⟩
  · rintro ⟨h8, hint'⟩ mem domain n ops - hfits
    exact (always_of_meets (fun _ _ _ h hf hstep => idsInv_step h hf hstep)
      (idsInv_init mem domain h0 h8 hint') hfits).mono fun _ h => h.distinct

/-- With 1-byte buffers and blocks of two chunks, the second chunk lies 136 bytes
behind the first, the allocator numbers the address 129 bytes behind it, and both
chunks get the id 0. -/
def collidingRun : List PoolOp :=
  [.get 1 ⟨4096, none⟩ ⟨nullptr, none⟩ 4096, .get 1 ⟨nullptr, none⟩ ⟨nullptr, none⟩ 4232]

theorem pool_ids_collide :
    ¬ Always step IdsDistinct (init (fun _ => {}) nullptr 1 2) collidingRun := by
  intro h
  have hrun : (run step (init (fun _ => {}) nullptr 1 2) collidingRun).map
      (fun t => (t.holder 4096, t.holder 4232, (t.mem 4096).buffer_id, (t.mem 4232).buffer_id)) =
        some (some 1, some 1, 0, 0) := by
    decide +kernel
  obtain ⟨t, ht, hfields⟩ := Option.map_eq_some_iff.mp hrun
  simp only [Prod.mk.injEq] at hfields
  obtain ⟨hc, hd, hidc, hidd⟩ := hfields
  exact ((h.last ht) 4096 (by simp [hc])).1 4232 (by simp [hd]) (by decide) (hidd.trans hidc.symm)

/-- With 8-byte buffers the same run is in order. -/
theorem pool_ids_distinct_run :
    Always step IdsDistinct (init (fun _ => {}) nullptr 8 2) collidingRun :=
  (pool_ids_distinct 8 (by decide) (by decide)).mpr ⟨by decide, by decide⟩ (fun _ => {}) nullptr 2
    collidingRun (by decide) (by decide +kernel)

end PoolWorld

end Hpnl
