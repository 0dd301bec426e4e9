import Hpnl.ChunkPool.Ids

/-!
# The memory regions of a pool

`PoolAllocator::malloc` registers one region for each block and files it with every
chunk that it numbers.  `~ChunkPool` closes the region of every entry of
`id_to_chunk_map`.

* `destroy` — the destructor; `allocations`, `registered` — the calls of the allocator
  that a `get` makes, and the region that each obtains.
* `Filed` — an id under which a region is filed; `filed_numberAll` — what numbering a
  block does to it.
* `RegionPool` — a pool and the regions obtained for it.
* `regions_closed_once` — **destroying the pool closes each region exactly once, at any
  point of a run, if and only if** every block that was registered numbered exactly one
  chunk, under an id that led to no other region.
-/

namespace Hpnl

open MachineInt Transition

namespace ChunkPool

/-- `ChunkPool::~ChunkPool`: the regions that it closes, in this order, and the pool
with its maps cleared. -/
def destroy (p : ChunkPool) : List Addr × ChunkPool :=
  (p.chunkPoolContext.id_to_chunk_map.entries.filterMap fun e =>
      if e.2.2 ≠ nullptr then some e.2.2 else none,
    { p with chunkPoolContext :=
        { p.chunkPoolContext with chunk_to_id_map := ∅, id_to_chunk_map := ∅ } })

/-- The calls of `PoolAllocator::malloc` that refilling the free list makes: the pool
that makes the call, and the answer. -/
def allocations (p : ChunkPool) (reply retry : MallocReply) : List (ChunkPool × MallocReply) :=
  if p.store = [] then
    (p, reply) ::
      if (p.callAllocator reply).2 = nullptr ∧ 4 < p.next_size then
        [((p.callAllocator reply).1.halved, retry)]
      else []
  else []

/-- The region that a call of the allocator obtains. -/
def registered (p : ChunkPool) (reply : MallocReply) : List Addr :=
  if p.chunkPoolContext.domain ≠ nullptr then reply.mr.toList else []

/-- The regions that refilling the free list obtains. -/
def obtains (p : ChunkPool) (reply retry : MallocReply) : List Addr :=
  (p.allocations reply retry).flatMap fun call => call.1.registered call.2

/-- A call that registers its block numbers exactly one chunk, under an id that leads to
no region. -/
def NumbersOne (p : ChunkPool) (reply : MallocReply) : Prop :=
  p.registered reply ≠ [] →
    PoolAllocator.buffer_num p.chunkPoolContext p.pod_size = 1 ∧
      ((p.chunkPoolContext.id_to_chunk_map.find? p.chunkPoolContext.id).map Prod.snd).getD
        nullptr = nullptr

instance (p : ChunkPool) (reply : MallocReply) : Decidable (p.NumbersOne reply) :=
  inferInstanceAs (Decidable (_ → _))

/-- **What refilling an empty free list does**: the first request yields a block, or a
second one is made with half the size, or the pool gives up. -/
theorem refill_empty {p : ChunkPool} (hs : p.store = []) (reply retry : MallocReply) :
    ((p.callAllocator reply).2 ≠ nullptr ∧ p.allocations reply retry = [(p, reply)] ∧
        p.refill reply retry = (p.callAllocator reply).1.add_block (p.callAllocator reply).2) ∨
      ((p.callAllocator reply).2 = nullptr ∧ 4 < p.next_size ∧
        p.allocations reply retry = [(p, reply), ((p.callAllocator reply).1.halved, retry)] ∧
        p.refill reply retry =
          if ((p.callAllocator reply).1.halved.callAllocator retry).2 ≠ nullptr then
            ((p.callAllocator reply).1.halved.callAllocator retry).1.add_block
              ((p.callAllocator reply).1.halved.callAllocator retry).2
          else ((p.callAllocator reply).1.halved.callAllocator retry).1) ∨
      ((p.callAllocator reply).2 = nullptr ∧ ¬ 4 < p.next_size ∧
        p.allocations reply retry = [(p, reply)] ∧
        p.refill reply retry = (p.callAllocator reply).1) := by
  have hnext : (p.callAllocator reply).1.next_size = p.next_size := rfl
  unfold allocations refill malloc_need_resize
  rw [if_pos hs, if_pos hs]
  dsimp only
  by_cases hb : (p.callAllocator reply).2 ≠ nullptr
  · rw [if_pos hb, if_neg fun h => hb h.1]
    exact Or.inl ⟨hb, rfl, rfl⟩
  rw [if_neg hb, hnext]
  have hb := not_not.mp hb
  by_cases h4 : 4 < p.next_size
  · rw [if_pos h4, if_pos ⟨hb, h4⟩]
    exact Or.inr (Or.inl ⟨hb, h4, rfl, rfl⟩)
  · rw [if_neg h4, if_neg fun h => h4 h.2]
    exact Or.inr (Or.inr ⟨hb, h4, rfl, rfl⟩)

theorem refill_nonempty {p : ChunkPool} (hs : p.store ≠ []) (reply retry : MallocReply) :
    p.allocations reply retry = [] ∧ p.refill reply retry = p := by
  unfold allocations refill
  rw [if_neg hs, if_neg hs]
  exact ⟨rfl, rfl⟩

/-- Refilling makes no call, one, or two. -/
theorem allocations_cases (p : ChunkPool) (reply retry : MallocReply) :
    (p.allocations reply retry = [] ∧
        (p.refill reply retry).chunkPoolContext = p.chunkPoolContext) ∨
      (p.allocations reply retry = [(p, reply)] ∧
        (p.refill reply retry).chunkPoolContext = (p.callAllocator reply).1.chunkPoolContext) ∨
      ∃ q : ChunkPool, q.chunkPoolContext = (p.callAllocator reply).1.chunkPoolContext ∧
        p.allocations reply retry = [(p, reply), (q, retry)] ∧
        (p.refill reply retry).chunkPoolContext =
          (q.callAllocator retry).1.chunkPoolContext := by
  by_cases hs : p.store = []
  · obtain ⟨-, hcalls, hrefill⟩ | ⟨-, -, hcalls, hrefill⟩ | ⟨-, -, hcalls, hrefill⟩ :=
      refill_empty hs reply retry
    · refine Or.inr (Or.inl ⟨hcalls, ?_⟩)
      rw [hrefill]
      rfl
    · refine Or.inr (Or.inr ⟨(p.callAllocator reply).1.halved, rfl, hcalls, ?_⟩)
      rw [hrefill]
      split <;> rfl
    · refine Or.inr (Or.inl ⟨hcalls, ?_⟩)
      rw [hrefill]
  · obtain ⟨hcalls, hrefill⟩ := refill_nonempty hs reply retry
    refine Or.inl ⟨hcalls, ?_⟩
    rw [hrefill]

end ChunkPool

/-! ## Filing a region -/

/-- The region is filed under the id. -/
def ChunkPoolContext.Filed (ctx : ChunkPoolContext) (k : ℤ) (mr : Addr) : Prop :=
  ∃ a, ctx.id_to_chunk_map.find? k = some (a, mr)

/-- The region is filed under exactly one id. -/
def ChunkPoolContext.FiledOnce (ctx : ChunkPoolContext) (mr : Addr) : Prop :=
  ∃! k, ctx.Filed k mr

namespace PoolAllocator

open ChunkPoolContext

variable {ctx : ChunkPoolContext} {ptr mr : Addr} {size : ℤ} {n : ℕ}

/-- One of the ids that numbering `n` chunks gives out. -/
def GivesOut (ctx : ChunkPoolContext) (n : ℕ) (k : ℤ) : Prop :=
  ∃ i < n, k = toInt32 (ctx.numbered + i : ℕ)

theorem counts_number (h : ctx.Counts) : (number ctx ptr mr).Counts := by
  show toInt32 (ctx.id + 1) = toInt32 ((ctx.numbered + 1 : ℕ) : ℤ)
  rw [h, toInt32_toInt32_add]
  push_cast
  rfl

theorem numberAll_keeps (h : ctx.Counts) : (numberAll mr size n ctx ptr).Counts ∧
    (numberAll mr size n ctx ptr).domain = ctx.domain := by
  induction n generalizing ctx ptr with
  | zero => exact ⟨h, rfl⟩
  | succ n ih => exact ih (counts_number h)

theorem filed_number (k : ℤ) (m : Addr) :
    (number ctx ptr mr).Filed k m ↔ (k = ctx.id ∧ m = mr) ∨ (k ≠ ctx.id ∧ ctx.Filed k m) := by
  unfold Filed
  by_cases hk : k = ctx.id
  · rw [hk]
    show (∃ a, (ctx.id_to_chunk_map.assign ctx.id (ptr, mr)).find? ctx.id = some (a, m)) ↔ _
    rw [StdMap.find?_assign_self]
    simp [eq_comm]
  · show (∃ a, (ctx.id_to_chunk_map.assign ctx.id (ptr, mr)).find? k = some (a, m)) ↔ _
    rw [StdMap.find?_assign_of_ne _ _ (Ne.symm hk)]
    simp [hk]

/-- The first round gives out the next id, and the others the ids after it. -/
theorem givesOut_succ (h : ctx.Counts) (ptr mr : Addr) (k : ℤ) :
    GivesOut ctx (n + 1) k ↔ k = ctx.id ∨ GivesOut (number ctx ptr mr) n k := by
  constructor
  · rintro ⟨i, hi, rfl⟩
    cases i with
    | zero => exact Or.inl h.symm
    | succ i =>
      refine Or.inr ⟨i, by omega, ?_⟩
      show _ = toInt32 (ctx.numbered + 1 + i : ℕ)
      congr 2
      omega
  · rintro (rfl | ⟨i, hi, rfl⟩)
    · exact ⟨0, by omega, h⟩
    · refine ⟨i + 1, by omega, ?_⟩
      show toInt32 (ctx.numbered + 1 + i : ℕ) = _
      congr 2
      omega

/-- **What numbering a block files**: its region under the ids it gives out. -/
theorem filed_numberAll (h : ctx.Counts) (k : ℤ) (m : Addr) :
    (numberAll mr size n ctx ptr).Filed k m ↔
      (GivesOut ctx n k ∧ m = mr) ∨ (¬ GivesOut ctx n k ∧ ctx.Filed k m) := by
  induction n generalizing ctx ptr with
  | zero =>
    have hnone : ¬ GivesOut ctx 0 k := by
      rintro ⟨i, hi, -⟩
      exact absurd hi (Nat.not_lt_zero i)
    simp [hnone, numberAll]
  | succ n ih =>
    rw [numberAll, ih (counts_number h), filed_number, givesOut_succ h ptr mr]
    by_cases hk : k = ctx.id <;> by_cases hg : GivesOut (number ctx ptr mr) n k <;>
      simp [hk, hg]
    · rw [← hk]
      simp [hg]
    · rw [← hk]
      simp [hg]

theorem givesOut_first (hn : 0 < n) (h : ctx.Counts) : GivesOut ctx n ctx.id :=
  ⟨0, hn, h⟩

/-- Ids less than 2³² apart are different. -/
theorem not_givesOut {ctx' : ChunkPoolContext} {i m : ℕ} (hlt : ctx.numbered + i < ctx'.numbered)
    (hroom : ctx'.numbered + m ≤ ctx.numbered + i + 2 ^ 32) :
    ¬ GivesOut ctx' m (toInt32 (ctx.numbered + i : ℕ)) := by
  rintro ⟨j, hj, heq⟩
  simp only [toInt32] at heq
  omega

theorem toInt32_succ_ne (x : ℤ) : toInt32 (x + 1) ≠ toInt32 x := by
  simp only [toInt32]
  omega

theorem buffer_num_lt (bytes : ℕ) : (buffer_num ctx bytes).toNat < 2 ^ 31 := by
  have hlt := toInt32_lt ((bytes / toUInt64 (chunk_size ctx) : ℕ) : ℤ)
  unfold buffer_num
  push_cast at hlt
  omega

end PoolAllocator

/-! ## The accounting -/

namespace ChunkPoolContext

open PoolAllocator

/-- Every region that is filed was obtained, and every region obtained is filed
once. -/
structure RegionsInv (ctx : ChunkPoolContext) (regions : List Addr) : Prop where
  counts : ctx.Counts
  domain : ctx.domain ≠ nullptr
  filed : ∀ k m, ctx.Filed k m → m ≠ nullptr → m ∈ regions
  nonnull : ∀ m ∈ regions, m ≠ nullptr
  once : ∀ m ∈ regions, ctx.FiledOnce m

variable {ctx : ChunkPoolContext} {regions : List Addr} {ptr mr : Addr} {size : ℤ} {n : ℕ}

/-- A block of one chunk, under a free id, is filed once and displaces no region. -/
theorem RegionsInv.numberOne (h : ctx.RegionsInv regions) (hmr : mr ≠ nullptr)
    (hnew : mr ∉ regions) (hfree : ∀ m, ctx.Filed ctx.id m → m = nullptr) :
    (numberAll mr size 1 ctx ptr).RegionsInv (regions ++ [mr]) := by
  have hgives : ∀ k, GivesOut ctx 1 k ↔ k = ctx.id := by
    intro k
    constructor
    · rintro ⟨i, hi, rfl⟩
      rw [Nat.lt_one_iff.mp hi]
      exact h.counts.symm
    · rintro rfl
      exact givesOut_first Nat.one_pos h.counts
  have hfiled : ∀ k m, (numberAll mr size 1 ctx ptr).Filed k m ↔
      (k = ctx.id ∧ m = mr) ∨ (k ≠ ctx.id ∧ ctx.Filed k m) := by
    intro k m
    rw [filed_numberAll h.counts, hgives]
  have hkeeps : (numberAll mr size 1 ctx ptr).Counts ∧
      (numberAll mr size 1 ctx ptr).domain = ctx.domain := numberAll_keeps h.counts
  obtain ⟨hcounts, hdomain⟩ := hkeeps
  refine ⟨hcounts, hdomain ▸ h.domain, ?_, ?_, ?_⟩
  · intro k m hkm hm
    obtain ⟨-, rfl⟩ | ⟨-, hold⟩ := (hfiled k m).mp hkm
    · exact List.mem_append_right _ List.mem_cons_self
    · exact List.mem_append_left _ (h.filed k m hold hm)
  · intro m hm
    obtain hm | hm := List.mem_append.mp hm
    · exact h.nonnull m hm
    · exact List.mem_singleton.mp hm ▸ hmr
  · intro m hm
    obtain hm | hm := List.mem_append.mp hm
    swap
    · obtain rfl := List.mem_singleton.mp hm
      refine ⟨ctx.id, (hfiled _ _).mpr (Or.inl ⟨rfl, rfl⟩), ?_⟩
      intro k hk
      obtain ⟨hk, -⟩ | ⟨-, hold⟩ := (hfiled k m).mp hk
      · exact hk
      · exact absurd (h.filed k m hold hmr) hnew
    · have hne : m ≠ mr := fun heq => hnew (heq ▸ hm)
      refine (existsUnique_congr fun k => ?_).mpr (h.once m hm)
      rw [hfiled]
      constructor
      · rintro (⟨-, heq⟩ | ⟨-, hold⟩)
        · exact absurd heq hne
        · exact hold
      · intro hold
        refine Or.inr ⟨?_, hold⟩
        rintro rfl
        exact h.nonnull m hm (hfree m hold)

/-- A region is filed once after its block has been numbered, and after one more block,
only if its block has one chunk and has displaced no region. -/
theorem RegionsInv.numberOne_of_once (h : ctx.RegionsInv regions) (hmr : mr ≠ nullptr)
    (hnew : mr ∉ regions) (hn : n < 2 ^ 31) {mr₂ ptr₂ : Addr} {size₂ : ℤ} {n₂ : ℕ}
    (hn₂ : n₂ < 2 ^ 31) (hmr₂ : n₂ ≠ 0 → mr₂ ∉ regions ++ [mr])
    (honce : ∀ m ∈ regions ++ [mr],
      (numberAll mr₂ size₂ n₂ (numberAll mr size n ctx ptr) ptr₂).FiledOnce m) :
    n = 1 ∧ ∀ m, ctx.Filed ctx.id m → m = nullptr := by
  have hmem : mr ∈ regions ++ [mr] := List.mem_append_right _ List.mem_cons_self
  have hold : ∀ m ∈ regions, m ∈ regions ++ [mr] := fun m hm => List.mem_append_left _ hm
  set ctx₁ := numberAll mr size n ctx ptr with hctx₁
  have hcounts₁ : ctx₁.Counts := (numberAll_keeps h.counts).1
  have hnum₁ : ctx₁.numbered = ctx.numbered + n := numberAll_count _ _ _ _
  -- the second block files nothing of what is looked at here
  have hother : ∀ k m, m ∈ regions ++ [mr] →
      ((numberAll mr₂ size₂ n₂ ctx₁ ptr₂).Filed k m ↔ ¬ GivesOut ctx₁ n₂ k ∧ ctx₁.Filed k m) := by
    intro k m hm
    rw [filed_numberAll hcounts₁]
    constructor
    · rintro (⟨⟨i, hi, -⟩, rfl⟩ | hold)
      · exact absurd hm (hmr₂ (by omega))
      · exact hold
    · exact Or.inr
  have hlast : ∀ i < n, (numberAll mr₂ size₂ n₂ ctx₁ ptr₂).Filed
      (toInt32 (ctx.numbered + i : ℕ)) mr := by
    intro i hi
    rw [hother _ _ hmem]
    refine ⟨not_givesOut (by omega) (by omega), ?_⟩
    rw [hctx₁, filed_numberAll h.counts]
    exact Or.inl ⟨⟨i, hi, rfl⟩, rfl⟩
  have hone : n = 1 := by
    obtain ⟨k, hk, hunique⟩ := honce mr hmem
    rcases n with _ | _ | n
    · -- the region is filed nowhere
      rw [hother _ _ hmem] at hk
      exact absurd (h.filed k mr hk.2 hmr) hnew
    · rfl
    · -- the region is filed under the first two ids
      have h0 := hunique _ (hlast 0 (by omega))
      have h1 := hunique _ (hlast 1 (by omega))
      have hsame := h1.trans h0.symm
      push_cast at hsame
      rw [add_zero] at hsame
      exact absurd hsame (toInt32_succ_ne _)
  refine ⟨hone, ?_⟩
  intro m hid
  by_contra hm
  have hreg : m ∈ regions := h.filed _ m hid hm
  have hne : m ≠ mr := fun heq => hnew (heq ▸ hreg)
  obtain ⟨k, hk, -⟩ := honce m (hold m hreg)
  rw [hother _ _ (hold m hreg), hctx₁, filed_numberAll h.counts] at hk
  obtain ⟨-, ⟨-, heq⟩ | ⟨hnot, hkm⟩⟩ := hk
  · exact hne heq
  · obtain ⟨j, -, hunique⟩ := h.once m hreg
    have hid : k = ctx.id := (hunique k hkm).trans (hunique ctx.id hid).symm
    exact hnot (hid ▸ givesOut_first (by omega) h.counts)

/-- The invariant speaks of the counter, the domain and the regions that are filed. -/
theorem RegionsInv.congr {ctx' : ChunkPoolContext} (h : ctx.RegionsInv regions)
    (hcounts : ctx'.Counts) (hdomain : ctx'.domain = ctx.domain)
    (hfiled : ∀ k m, m ≠ nullptr → (ctx'.Filed k m ↔ ctx.Filed k m)) : ctx'.RegionsInv regions :=
  { counts := hcounts
    domain := hdomain ▸ h.domain
    filed := fun k m hkm hm => h.filed k m ((hfiled k m hm).mp hkm) hm
    nonnull := h.nonnull
    once := fun m hm =>
      (existsUnique_congr fun k => hfiled k m (h.nonnull m hm)).mpr (h.once m hm) }

theorem free_iff : ((ctx.id_to_chunk_map.find? ctx.id).map Prod.snd).getD nullptr = nullptr ↔
    ∀ m, ctx.Filed ctx.id m → m = nullptr := by
  unfold Filed
  cases ctx.id_to_chunk_map.find? ctx.id with
  | none => simp
  | some e => simp [Prod.ext_iff]

end ChunkPoolContext

/-! ### The calls of the allocator -/

namespace ChunkPool

open PoolAllocator ChunkPoolContext

variable {p : ChunkPool} {regions : List Addr} {reply : MallocReply}

/-- A call of the allocator on a pool with a domain: without a region it does nothing, and
with one it numbers its block. -/
theorem callAllocator_cases (hdomain : p.chunkPoolContext.domain ≠ nullptr)
    (reply : MallocReply) :
    (p.registered reply = [] ∧
        (p.callAllocator reply).1.chunkPoolContext = p.chunkPoolContext) ∨
      ∃ mr, p.registered reply = [mr] ∧ (p.callAllocator reply).1.chunkPoolContext =
        numberAll mr (chunk_size p.chunkPoolContext)
          (buffer_num p.chunkPoolContext p.pod_size).toNat p.chunkPoolContext reply.memory := by
  unfold registered callAllocator PoolAllocator.malloc
  rw [if_pos hdomain, if_pos hdomain]
  cases reply.mr with
  | none => exact Or.inl ⟨rfl, rfl⟩
  | some mr => exact Or.inr ⟨mr, rfl, rfl⟩

theorem domain_callAllocator (h : p.chunkPoolContext.RegionsInv regions) (reply : MallocReply) :
    (p.callAllocator reply).1.chunkPoolContext.domain ≠ nullptr := by
  obtain ⟨-, hctx⟩ | ⟨mr, -, hctx⟩ := callAllocator_cases h.domain reply
  · rw [hctx]
    exact h.domain
  · rw [hctx, (numberAll_keeps h.counts).2]
    exact h.domain

theorem RegionsInv.callAllocator (h : p.chunkPoolContext.RegionsInv regions)
    (hone : p.NumbersOne reply) (hnonnull : ∀ mr ∈ p.registered reply, mr ≠ nullptr)
    (hnew : ∀ mr ∈ p.registered reply, mr ∉ regions) :
    (p.callAllocator reply).1.chunkPoolContext.RegionsInv (regions ++ p.registered reply) := by
  obtain ⟨hnone, hctx⟩ | ⟨mr, hsome, hctx⟩ := callAllocator_cases h.domain reply
  · rw [hnone, hctx, List.append_nil]
    exact h
  · obtain ⟨hnum, hfree⟩ := hone (by simp [hsome])
    rw [hsome] at hnonnull hnew ⊢
    rw [hctx, hnum]
    exact h.numberOne (hnonnull mr List.mem_cons_self) (hnew mr List.mem_cons_self)
      (free_iff.mp hfree)

/-- If every region is filed once after a call of the allocator, and one more block, then
the call has numbered one chunk. -/
theorem numbersOne_of_once (h : p.chunkPoolContext.RegionsInv regions)
    (hnonnull : ∀ mr ∈ p.registered reply, mr ≠ nullptr)
    (hnew : ∀ mr ∈ p.registered reply, mr ∉ regions) (mr₂ ptr₂ : Addr) (size₂ : ℤ) {n₂ : ℕ}
    (hn₂ : n₂ < 2 ^ 31) (hmr₂ : n₂ ≠ 0 → mr₂ ∉ regions ++ p.registered reply)
    (honce : ∀ m ∈ regions ++ p.registered reply, (numberAll mr₂ size₂ n₂
      (p.callAllocator reply).1.chunkPoolContext ptr₂).FiledOnce m) : p.NumbersOne reply := by
  intro hne
  obtain ⟨hnone, -⟩ | ⟨mr, hsome, hctx⟩ := callAllocator_cases h.domain reply
  · exact absurd hnone hne
  · rw [hsome] at hnonnull hnew hmr₂ honce
    rw [hctx] at honce
    obtain ⟨hnum, hfree⟩ := h.numberOne_of_once (hnonnull mr List.mem_cons_self)
      (hnew mr List.mem_cons_self) (buffer_num_lt p.pod_size) hn₂ hmr₂ honce
    exact ⟨by omega, free_iff.mpr hfree⟩

/-- If every region is filed once after the call, the call has numbered one chunk. -/
theorem numbersOne_of_filedOnce (h : p.chunkPoolContext.RegionsInv regions)
    (hnonnull : ∀ mr ∈ p.registered reply, mr ≠ nullptr)
    (hnew : ∀ mr ∈ p.registered reply, mr ∉ regions)
    (honce : ∀ m ∈ regions ++ p.registered reply,
      (p.callAllocator reply).1.chunkPoolContext.FiledOnce m) : p.NumbersOne reply :=
  numbersOne_of_once h hnonnull hnew nullptr nullptr 0 (Nat.two_pow_pos 31)
    (fun hne => absurd rfl hne) honce

/-- Refilling keeps the accounting when each of its calls numbers one chunk. -/
theorem RegionsInv.refill {retry : MallocReply} (h : p.chunkPoolContext.RegionsInv regions)
    (hnonnull : ∀ mr ∈ p.obtains reply retry, mr ≠ nullptr)
    (hnodup : (regions ++ p.obtains reply retry).Nodup)
    (hone : ∀ call ∈ p.allocations reply retry, call.1.NumbersOne call.2) :
    (p.refill reply retry).chunkPoolContext.RegionsInv (regions ++ p.obtains reply retry) := by
  unfold obtains at *
  obtain ⟨hcalls, hctx⟩ | ⟨hcalls, hctx⟩ | ⟨q, hq, hcalls, hctx⟩ :=
    p.allocations_cases reply retry <;>
    simp only [hcalls, List.flatMap_cons, List.flatMap_nil, List.append_nil, List.forall_mem_cons,
      List.forall_mem_append, ← List.append_assoc] at hnonnull hnodup hone ⊢ <;> rw [hctx]
  · exact h
  · exact RegionsInv.callAllocator h hone.1 hnonnull fun mr hmr hold =>
      List.disjoint_of_nodup_append hnodup hold hmr
  · have hfirst := List.Nodup.of_append_left hnodup
    have h₁ := RegionsInv.callAllocator h hone.1 hnonnull.1 fun mr hmr hold =>
      List.disjoint_of_nodup_append hfirst hold hmr
    rw [← hq] at h₁
    exact RegionsInv.callAllocator h₁ hone.2.1 hnonnull.2 fun mr hmr hold =>
      List.disjoint_of_nodup_append hnodup hold hmr

/-- **If every region is filed once after refilling**, then each call has numbered one
chunk. -/
theorem numbersOne_of_refill {retry : MallocReply} (h : p.chunkPoolContext.RegionsInv regions)
    (hnonnull : ∀ mr ∈ p.obtains reply retry, mr ≠ nullptr)
    (hnodup : (regions ++ p.obtains reply retry).Nodup)
    (honce : ∀ m ∈ regions ++ p.obtains reply retry,
      (p.refill reply retry).chunkPoolContext.FiledOnce m) :
    ∀ call ∈ p.allocations reply retry, call.1.NumbersOne call.2 := by
  unfold obtains at *
  obtain ⟨hcalls, hctx⟩ | ⟨hcalls, hctx⟩ | ⟨q, hq, hcalls, hctx⟩ :=
    p.allocations_cases reply retry <;>
    simp only [hcalls, List.flatMap_cons, List.flatMap_nil, List.append_nil, List.forall_mem_cons,
      List.forall_mem_append, ← List.append_assoc] at hnonnull hnodup honce ⊢ <;> rw [hctx] at honce
  · exact fun call hcall => absurd hcall List.not_mem_nil
  · have hnew : ∀ mr ∈ p.registered reply, mr ∉ regions := fun mr hmr hold =>
      List.disjoint_of_nodup_append hnodup hold hmr
    refine ⟨numbersOne_of_filedOnce h hnonnull hnew ?_, by simp⟩
    exact List.forall_mem_append.mpr honce
  · have hfirst := List.Nodup.of_append_left hnodup
    have hnew : ∀ mr ∈ p.registered reply, mr ∉ regions := fun mr hmr hold =>
      List.disjoint_of_nodup_append hfirst hold hmr
    have hnew₂ : ∀ mr ∈ q.registered retry, mr ∉ regions ++ p.registered reply :=
      fun mr hmr hold => List.disjoint_of_nodup_append hnodup hold hmr
    have hdomain : q.chunkPoolContext.domain ≠ nullptr := hq ▸ domain_callAllocator h reply
    have hone : p.NumbersOne reply := by
      -- the second call is one more block, or none
      have honce₁ : ∀ m ∈ regions ++ p.registered reply,
          (q.callAllocator retry).1.chunkPoolContext.FiledOnce m :=
        List.forall_mem_append.mpr honce.1
      obtain ⟨-, hctx₂⟩ | ⟨mr₂, hsome, hctx₂⟩ := callAllocator_cases hdomain retry
      · rw [hctx₂, hq] at honce₁
        exact numbersOne_of_filedOnce h hnonnull.1 hnew honce₁
      · rw [hctx₂, hq] at honce₁
        exact numbersOne_of_once h hnonnull.1 hnew _ _ _ (buffer_num_lt _)
          (fun _ => hnew₂ mr₂ (hsome ▸ List.mem_cons_self)) honce₁
    have h₁ := RegionsInv.callAllocator h hone hnonnull.1 hnew
    rw [← hq] at h₁
    refine ⟨hone, numbersOne_of_filedOnce h₁ hnonnull.2 hnew₂ ?_, by simp⟩
    exact List.forall_mem_append.mpr ⟨List.forall_mem_append.mpr honce.1, honce.2⟩

/-- The maps are read with `operator[]`, which files no region. -/
theorem filed_prepare (p : ChunkPool) (mem : Mem) (ck : Addr) (k : ℤ) {m : Addr}
    (hm : m ≠ nullptr) :
    (p.prepare mem ck).1.chunkPoolContext.Filed k m ↔ p.chunkPoolContext.Filed k m := by
  set j := toInt32 (toUInt64 (p.chunkPoolContext.chunk_to_id_map.value ck 0)) with hj
  show (∃ a, (p.chunkPoolContext.id_to_chunk_map.index j (nullptr, nullptr)).find? k =
    some (a, m)) ↔ _
  refine exists_congr fun a => ?_
  by_cases hk : j = k
  · rw [← hk, StdMap.find?_index_self, StdMap.value]
    cases p.chunkPoolContext.id_to_chunk_map.find? j with
    | none => simp [hm.symm]
    | some e => simp
  · rw [StdMap.find?_index_of_ne _ _ hk]

end ChunkPool

/-! ## Runs -/

/-- A pool, and the regions that `fi_mr_reg` has returned for it. -/
structure RegionPool where
  world : PoolWorld
  regions : List Addr

namespace RegionPool

/-- A new pool, for which nothing has been registered. -/
def init (mem : Mem) (domain : Addr) (request_buffer_size next_request_buffer_number : ℤ) :
    RegionPool :=
  { world := PoolWorld.init mem domain request_buffer_size next_request_buffer_number
    regions := [] }

/-- The regions that a call obtains. -/
def obtains (s : RegionPool) : PoolOp → List Addr
  | .get _ reply retry _ => s.world.pool.obtains reply retry
  | .get_by_id _ => []
  | .reclaim _ _ _ => []

/-- One call.  `fi_mr_reg` returns no null region, and none that is open. -/
def step (s : RegionPool) (op : PoolOp) : Option RegionPool :=
  if (∀ mr ∈ s.obtains op, mr ≠ nullptr) ∧ (s.regions ++ s.obtains op).Nodup then
    (s.world.step op).map fun w => { world := w, regions := s.regions ++ s.obtains op }
  else none

/-- Destroying the pool closes each of its regions exactly once. -/
def ClosedOnce (s : RegionPool) : Prop :=
  ∀ mr ∈ s.regions, s.world.pool.destroy.1.count mr = 1

/-- Each block that the call registers numbers exactly one chunk, under an id that leads
to no region. -/
def OneChunkEach (s : RegionPool) : PoolOp → Prop
  | .get _ reply retry _ =>
      ∀ call ∈ s.world.pool.allocations reply retry, call.1.NumbersOne call.2
  | .get_by_id _ => True
  | .reclaim _ _ _ => True

instance (s : RegionPool) : (op : PoolOp) → Decidable (s.OneChunkEach op)
  | .get _ reply retry _ => inferInstanceAs (Decidable
      (∀ call ∈ s.world.pool.allocations reply retry, call.1.NumbersOne call.2))
  | .get_by_id _ => isTrue trivial
  | .reclaim _ _ _ => isTrue trivial

/-- The accounting of the pool. -/
def Inv (s : RegionPool) : Prop := s.world.pool.chunkPoolContext.RegionsInv s.regions

theorem inv_init (mem : Mem) {domain : Addr} (hdomain : domain ≠ nullptr) (size n : ℤ) :
    (init mem domain size n).Inv :=
  { counts := toInt32_zero.symm
    domain := hdomain
    filed := by
      rintro k m ⟨a, ha⟩ -
      change (∅ : StdMap ℤ (Addr × Addr)).find? k = some (a, m) at ha
      rw [StdMap.find?_empty] at ha
      cases ha
    nonnull := fun m hm => absurd hm List.not_mem_nil
    once := fun m hm => absurd hm List.not_mem_nil }

/-- The destructor closes a region once exactly when it is filed once. -/
theorem closedOnce_iff {s : RegionPool} (hnonnull : ∀ m ∈ s.regions, m ≠ nullptr) :
    s.ClosedOnce ↔ ∀ m ∈ s.regions, s.world.pool.chunkPoolContext.FiledOnce m := by
  refine forall₂_congr fun m hm => ?_
  have hm := hnonnull m hm
  have hcount := StdMap.count_entries_eq_one s.world.pool.chunkPoolContext.id_to_chunk_map
    (fun e => if e.2 ≠ nullptr then some e.2 else none) m
  refine hcount.trans (existsUnique_congr fun k => ?_)
  constructor
  · rintro ⟨⟨a, m'⟩, hfind, hm'⟩
    dsimp only at hm'
    split at hm'
    · cases hm'
      exact ⟨a, hfind⟩
    · cases hm'
  · rintro ⟨a, hfind⟩
    exact ⟨(a, m), hfind, if_pos hm⟩

/-- What a step of the pool does to the accounting. -/
theorem step_get {s t : RegionPool} {con : ConId} {reply retry : MallocReply} {pick : Addr}
    (hstep : s.step (.get con reply retry pick) = some t) :
    (∀ mr ∈ s.world.pool.obtains reply retry, mr ≠ nullptr) ∧
      (s.regions ++ s.world.pool.obtains reply retry).Nodup ∧
      t.regions = s.regions ++ s.world.pool.obtains reply retry ∧
      t.world.pool = ((s.world.taken reply retry pick).prepare s.world.mem pick).1 := by
  unfold step at hstep
  split at hstep
  · rename_i henv
    obtain ⟨w, hw, rfl⟩ := Option.map_eq_some_iff.mp hstep
    obtain ⟨-, -, rfl⟩ := PoolWorld.step_get hw
    exact ⟨henv.1, henv.2, rfl, rfl⟩
  · cases hstep

/-- The invariant and the property after a `get`, in terms of the pool that has refilled
its free list. -/
theorem after_get {s t : RegionPool} {con : ConId} {reply retry : MallocReply} {pick : Addr}
    (hstep : s.step (.get con reply retry pick) = some t) :
    ((s.world.pool.refill reply retry).chunkPoolContext.RegionsInv t.regions → t.Inv) ∧
      ((∀ m ∈ t.regions, m ≠ nullptr) → t.ClosedOnce → ∀ m ∈ t.regions,
        (s.world.pool.refill reply retry).chunkPoolContext.FiledOnce m) := by
  obtain ⟨-, -, -, hpool⟩ := step_get hstep
  have hfiled : ∀ k m, m ≠ nullptr → (t.world.pool.chunkPoolContext.Filed k m ↔
      (s.world.pool.refill reply retry).chunkPoolContext.Filed k m) := by
    intro k m hm
    rw [hpool, ChunkPool.filed_prepare _ _ _ _ hm]
  constructor
  · intro h
    refine h.congr ?_ ?_ hfiled
    · rw [hpool]
      exact h.counts
    · rw [hpool]
      rfl
  · intro hnonnull hclosed m hm
    exact (existsUnique_congr fun k => (hfiled k m (hnonnull m hm)).symm).mpr
      ((closedOnce_iff hnonnull).mp hclosed m hm)

/-- Looking a chunk up and taking one back leave the accounting alone. -/
theorem step_other {s t : RegionPool} {op : PoolOp} (hop : s.obtains op = [])
    (hctx : ∀ w, s.world.step op = some w →
      w.pool.chunkPoolContext = s.world.pool.chunkPoolContext)
    (hstep : s.step op = some t) (h : s.Inv) : t.Inv := by
  unfold step at hstep
  split at hstep
  · obtain ⟨w, hw, rfl⟩ := Option.map_eq_some_iff.mp hstep
    show w.pool.chunkPoolContext.RegionsInv (s.regions ++ s.obtains op)
    rw [hctx w hw, hop, List.append_nil]
    exact h
  · cases hstep

theorem inv_step {s t : RegionPool} {op : PoolOp} (h : s.Inv) (hone : s.OneChunkEach op)
    (hstep : s.step op = some t) : t.Inv := by
  cases op with
  | get con reply retry pick =>
    obtain ⟨hnonnull, hnodup, hregions, -⟩ := step_get hstep
    refine (after_get hstep).1 ?_
    rw [hregions]
    exact ChunkPool.RegionsInv.refill h hnonnull hnodup hone
  | get_by_id id =>
    refine step_other rfl ?_ hstep h
    intro w hw
    cases hw
    rfl
  | reclaim ck con link =>
    refine step_other rfl ?_ hstep h
    intro w hw
    obtain ⟨-, -, rfl⟩ := PoolWorld.step_reclaim hw
    rfl

/-- A step after which each region would be closed once has numbered one chunk for each
block that it registered. -/
theorem oneChunkEach_of_closedOnce {s t : RegionPool} {op : PoolOp} (h : s.Inv)
    (hstep : s.step op = some t) (hclosed : t.ClosedOnce) : s.OneChunkEach op := by
  cases op with
  | get con reply retry pick =>
    obtain ⟨hnonnull, hnodup, hregions, -⟩ := step_get hstep
    refine ChunkPool.numbersOne_of_refill h hnonnull hnodup ?_
    rw [← hregions]
    refine (after_get hstep).2 ?_ hclosed
    rw [hregions]
    exact List.forall_mem_append.mpr ⟨h.nonnull, hnonnull⟩
  | get_by_id id => trivial
  | reclaim ck con link => trivial

/-- **When the regions of a pool are closed exactly once.**  On a pool with a domain, at
every point of a run destroying the pool would close each of its regions exactly once, if
and only if each block registered numbers exactly one chunk, under a free id. -/
theorem regions_closed_once (mem : Mem) (domain : Addr) (hdomain : domain ≠ nullptr)
    (size n : ℤ) (ops : List PoolOp) :
    Always step ClosedOnce (init mem domain size n) ops ↔
      Meets step OneChunkEach (init mem domain size n) ops :=
  always_iff_meets (fun _ h => (closedOnce_iff h.nonnull).mpr h.once)
    (fun _ _ _ h hone hstep => inv_step h hone hstep)
    (fun _ _ _ h hstep hclosed => oneChunkEach_of_closedOnce h hstep hclosed)
    (inv_init mem hdomain size n) ops

/-- A pool with blocks of one chunk that has one block. -/
theorem regions_closed_once_single :
    Always step ClosedOnce (init (fun _ => {}) 1 8 1)
      [.get 1 ⟨4096, some 5⟩ ⟨nullptr, none⟩ 4096] :=
  (regions_closed_once (fun _ => {}) 1 (by decide) 8 1
    [.get 1 ⟨4096, some 5⟩ ⟨nullptr, none⟩ 4096]).mpr (by decide +kernel)

/-- The region of a block of two chunks is closed twice. -/
theorem pool_region_closed_twice :
    (run step (init (fun _ => {}) 1 8 2) [.get 1 ⟨4096, some 5⟩ ⟨nullptr, none⟩ 4096]).map
        (fun t => (t.regions, t.world.pool.destroy.1)) = some ([5], [5, 5]) ∧
      ¬ Always step ClosedOnce (init (fun _ => {}) 1 8 2)
        [.get 1 ⟨4096, some 5⟩ ⟨nullptr, none⟩ 4096] := by
  have hrun : (run step (init (fun _ => {}) 1 8 2)
      [.get 1 ⟨4096, some 5⟩ ⟨nullptr, none⟩ 4096]).map
        (fun t => (t.regions, t.world.pool.destroy.1)) = some ([5], [5, 5]) := by
    decide +kernel
  refine ⟨hrun, ?_⟩
  intro halways
  obtain ⟨t, ht, hfields⟩ := Option.map_eq_some_iff.mp hrun
  rw [Prod.mk.injEq] at hfields
  have honce := (halways.last ht) 5 (by simp [hfields.1])
  rw [hfields.2] at honce
  exact absurd honce (by decide)

end RegionPool

end Hpnl
