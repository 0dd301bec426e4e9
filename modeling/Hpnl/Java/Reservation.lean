import Hpnl.Java.MemPool
import Hpnl.Connection.Regions

/-!
# The chunks reserved for a connection

Before it sets up a connection the native side lets the pool grow until the free list has
two chunks for every round of `MsgConnection::init`: `while (!service->is_buffer_enough())`
calls `reallocBufferPool` of Java, which calls `set_buffer` for each buffer.  The size of the
free list is compared as an `int`.

* `grow`, `LoopEnds` — a turn of the loop, and the turn after which it ends.
* `InitTakes` — `MsgConnection::init` gets all its chunks, half of them to post and half to
  send.
* `Owned`, `owned_step` — the free list holds every chunk once, and none that is out.
* `initTakes_of_enough` — **when the loop has ended, `init` gets its chunks**.
* `reserves_iff` — **the loop ends if and only if some `int` that is large enough is
  congruent to the size of the free list**, modulo what the pool grows by and 2³².
-/

namespace Hpnl

open MachineInt Transition

namespace EqServicePool

/-! ## The loop -/

/-- `is_buffer_enough`. -/
def is_buffer_enough (w : EqServicePool) (buffer_num : ℤ) : Prop :=
  toInt32 (2 * buffer_num) ≤ w.chkMgr.free_size

instance (w : EqServicePool) (buffer_num : ℤ) : Decidable (w.is_buffer_enough buffer_num) :=
  inferInstanceAs (Decidable (_ ≤ _))

section Loop

variable (answer : EqServicePool → Addr × Addr)

/-- The loop of `realloc`; `answer` is where `allocateDirect` and `new Chunk` find memory. -/
def allocAll : ℕ → EqServicePool → MemPool → MemPool × EqServicePool
  | 0, w, pool => (pool, w)
  | n + 1, w, pool =>
      let (pool, w) := w.alloc pool (answer w).1 (answer w).2
      allocAll n w pool

/-- `new` finds a chunk that is not in use, always. -/
def Fresh : Prop := ∀ w : EqServicePool, w.FreshChunk (answer w).2

/-- The body of the `while`: `reallocBufferPool`. -/
def grow (w : EqServicePool) : EqServicePool :=
  match w.bufferPool with
  | none => w
  | some pool =>
      let (pool, w) := allocAll answer pool.nextBufferNum.toNat w pool
      { w with bufferPool := some pool }

/-- The loop ends after `k` turns, and not before. -/
def LoopEnds (w : EqServicePool) (buffer_num : ℤ) (k : ℕ) : Prop :=
  (∀ j < k, ¬ ((grow answer)^[j] w).is_buffer_enough buffer_num) ∧
    ((grow answer)^[k] w).is_buffer_enough buffer_num

variable {answer}

/-- What `allocAll` allocates is what `allocs` is answered. -/
theorem exists_allocs (hfresh : Fresh answer) (n : ℕ) (w : EqServicePool) (pool : MemPool) :
    ∃ answers, answers.length = n ∧
      w.allocs pool answers = some (allocAll answer n w pool) := by
  induction n generalizing w pool with
  | zero => exact ⟨[], rfl, rfl⟩
  | succ n ih =>
    obtain ⟨answers, hlen, hallocs⟩ := ih (w.alloc pool (answer w).1 (answer w).2).2
      (w.alloc pool (answer w).1 (answer w).2).1
    refine ⟨answer w :: answers, by rw [List.length_cons, hlen], ?_⟩
    rw [allocs, if_pos (hfresh w)]
    exact hallocs

/-- A turn of the loop is a call of `reallocBufferPool`. -/
theorem exists_reallocBufferPool (hfresh : Fresh answer) (w : EqServicePool) :
    ∃ answers, w.reallocBufferPool answers = some (w.grow answer) := by
  unfold reallocBufferPool grow
  cases w.bufferPool with
  | none => exact ⟨[], rfl⟩
  | some pool =>
    obtain ⟨answers, hlen, hallocs⟩ := exists_allocs hfresh pool.nextBufferNum.toNat w pool
    refine ⟨answers, ?_⟩
    simp only [if_pos hlen, hallocs, Option.map_some]

end Loop

/-! ## The free list -/

/-- Every chunk is in the free list or out, and once only. -/
def Owned (w : EqServicePool) : Prop :=
  (w.chkMgr.bufs ++ w.out).Nodup ∧ nullptr ∉ w.chkMgr.bufs ++ w.out

section Owned

variable {w w' : EqServicePool} {pool : MemPool}

/-- Chunks that only move stay in one place. -/
theorem Owned.of_perm (h : w.Owned)
    (hperm : (w'.chkMgr.bufs ++ w'.out).Perm (w.chkMgr.bufs ++ w.out)) : w'.Owned :=
  ⟨hperm.nodup_iff.mpr h.1, fun hmem => h.2 (hperm.mem_iff.mp hmem)⟩

theorem owned_alloc (h : w.Owned) {byteBuffer ck : Addr} (hck : w.FreshChunk ck) :
    (w.alloc pool byteBuffer ck).2.Owned := by
  obtain ⟨hnodup, hnull⟩ := h
  obtain ⟨hck, hbufs, hout⟩ := hck
  have hnew : ck ∉ w.chkMgr.bufs ++ w.out := by
    rw [List.mem_append, not_or]
    exact ⟨hbufs, hout⟩
  refine ⟨List.nodup_cons.mpr ⟨hnew, hnodup⟩, ?_⟩
  show nullptr ∉ ck :: (w.chkMgr.bufs ++ w.out)
  rw [List.mem_cons, not_or]
  exact ⟨hck.symm, hnull⟩

theorem owned_allocs {answers : List (Addr × Addr)} {p : MemPool × EqServicePool}
    (h : w.Owned) (hallocs : w.allocs pool answers = some p) : p.2.Owned := by
  induction answers generalizing w pool with
  | nil =>
    cases hallocs
    exact h
  | cons answer answers ih =>
    obtain ⟨byteBuffer, ck⟩ := answer
    rw [allocs] at hallocs
    split at hallocs
    · rename_i hck
      exact ih (owned_alloc h hck) hallocs
    · cases hallocs

/-- **Every step** keeps each chunk in one place. -/
theorem owned_step {op : EqServicePoolOp} (h : w.Owned) (hstep : w.step op = some w') :
    w'.Owned := by
  cases op with
  | initBufferPool bufferSize nextBufferNum answers =>
    obtain ⟨p, hallocs, rfl⟩ := Option.map_eq_some_iff.mp hstep
    exact owned_allocs h hallocs
  | reallocBufferPool answers =>
    simp only [step, reallocBufferPool] at hstep
    split at hstep
    · cases hstep
      exact h
    · split at hstep
      · obtain ⟨p, hallocs, rfl⟩ := Option.map_eq_some_iff.mp hstep
        exact owned_allocs h hallocs
      · cases hstep
  | get =>
    rw [step, ExternalChunkMgr.get] at hstep
    cases hb : w.chkMgr.bufs with
    | nil =>
      rw [hb] at hstep
      cases hstep
      exact h
    | cons ck bufs =>
      rw [hb] at hstep
      have hck : ck ≠ nullptr := by
        rintro rfl
        exact h.2 (List.mem_append_left _ (hb ▸ List.mem_cons_self))
      simp only [Option.map_some, if_neg hck, Option.some.injEq] at hstep
      subst hstep
      refine h.of_perm ?_
      rw [hb]
      exact List.perm_middle
  | reclaim ck =>
    simp only [step] at hstep
    split at hstep
    · rename_i hck
      cases hstep
      have hmove : (ck :: w.chkMgr.bufs ++ w.out.erase ck).Perm
          (w.chkMgr.bufs ++ ck :: w.out.erase ck) := List.perm_middle.symm
      have herase : (ck :: w.out.erase ck).Perm w.out := (List.perm_cons_erase hck).symm
      exact h.of_perm (hmove.trans (herase.append_left _))
    · cases hstep
  | completion ck =>
    simp only [step] at hstep
    split at hstep
    · cases hstep
      exact h
    · cases hstep
  | send bufferId =>
    simp only [step] at hstep
    split at hstep
    · cases hstep
      exact h
    · cases hstep

/-- A run keeps it too. -/
theorem owned_run {mem : Mem} {ops : List EqServicePoolOp}
    (hrun : run step (init mem) ops = some w) : w.Owned := by
  have hinit : (init mem).Owned := ⟨List.nodup_nil, List.not_mem_nil⟩
  exact inv_last (fun _ _ _ h hstep => owned_step h hstep) hinit hrun

variable {answer : EqServicePool → Addr × Addr}

theorem allocAll_spec (hfresh : Fresh answer) (n : ℕ) (h : w.Owned) (pool : MemPool) :
    (allocAll answer n w pool).2.Owned ∧
      (allocAll answer n w pool).2.chkMgr.bufs.length = w.chkMgr.bufs.length + n ∧
      (allocAll answer n w pool).1.nextBufferNum = pool.nextBufferNum := by
  induction n generalizing w pool with
  | zero => exact ⟨h, rfl, rfl⟩
  | succ n ih =>
    obtain ⟨howned, hlen, hnext⟩ :=
      ih (owned_alloc h (hfresh w)) (w.alloc pool (answer w).1 (answer w).2).1
    refine ⟨howned, hlen.trans ?_, hnext⟩
    show w.chkMgr.bufs.length + 1 + n = w.chkMgr.bufs.length + (n + 1)
    omega

/-- **A turn of the loop** adds `nextBufferNum` chunks. -/
theorem grow_spec (hfresh : Fresh answer) (h : w.Owned) (hpool : w.bufferPool = some pool) :
    (w.grow answer).Owned ∧
      (w.grow answer).chkMgr.bufs.length = w.chkMgr.bufs.length + pool.nextBufferNum.toNat ∧
      ∃ pool', (w.grow answer).bufferPool = some pool' ∧
        pool'.nextBufferNum = pool.nextBufferNum := by
  obtain ⟨howned, hlen, hnext⟩ := allocAll_spec hfresh pool.nextBufferNum.toNat h pool
  unfold grow
  rw [hpool]
  exact ⟨howned, hlen, _, rfl, hnext⟩

/-- **`k` turns of the loop.** -/
theorem grow_iterate (hfresh : Fresh answer) (h : w.Owned) (hpool : w.bufferPool = some pool)
    (k : ℕ) : ((grow answer)^[k] w).Owned ∧
      ((grow answer)^[k] w).chkMgr.bufs.length =
        w.chkMgr.bufs.length + k * pool.nextBufferNum.toNat ∧
      ∃ pool', ((grow answer)^[k] w).bufferPool = some pool' ∧
        pool'.nextBufferNum = pool.nextBufferNum := by
  induction k with
  | zero => exact ⟨h, by simp, pool, hpool, rfl⟩
  | succ k ih =>
    obtain ⟨howned, hlen, pool', hpool', hnext⟩ := ih
    rw [Function.iterate_succ_apply']
    obtain ⟨howned', hlen', pool'', hpool'', hnext'⟩ := grow_spec hfresh howned hpool'
    refine ⟨howned', ?_, pool'', hpool'', hnext'.trans hnext⟩
    rw [hlen', hlen, hnext]
    ring

/-- What is compared after `k` turns. -/
theorem enough_iterate (hfresh : Fresh answer) (h : w.Owned) (hpool : w.bufferPool = some pool)
    (hnext : 0 ≤ pool.nextBufferNum) (buffer_num : ℤ) (k : ℕ) :
    ((grow answer)^[k] w).is_buffer_enough buffer_num ↔
      toInt32 (2 * buffer_num) ≤
        toInt32 (w.chkMgr.bufs.length + k * pool.nextBufferNum) := by
  obtain ⟨-, hlen, -⟩ := grow_iterate hfresh h hpool k
  unfold is_buffer_enough ExternalChunkMgr.free_size
  rw [hlen, Nat.cast_add, Nat.cast_mul, Int.toNat_of_nonneg hnext]

end Owned

end EqServicePool

/-! ## `MsgConnection::init` -/

namespace MrWorld

/-- The rounds of `init`, with the regions that `fi_mr_reg` answers with; `fi_recv`
succeeds. -/
def initRounds (con : ConId) (mrs : List (Addr × Addr)) : List MrOp :=
  mrs.flatMap fun mr =>
    [.init_recv con noReply ⟨some mr.1, true⟩, .init_send con noReply ⟨some mr.2, true⟩]

/-- `MsgConnection` and its `init`, where every call of libfabric succeeds. -/
def initCalls (con : ConId) (buffer_num : ℤ) (ep conEq : Addr) (mrs : List (Addr × Addr)) :
    List MrOp :=
  .construct con buffer_num :: .open con (some (ep, conEq)) :: initRounds con mrs

/-- The handles of the regions. -/
def handles (mrs : List (Addr × Addr)) : List Addr := mrs.flatMap fun mr => [mr.1, mr.2]

section Rounds

variable {m : MrWorld} {con : ConId} {c : Connection} {mgr : ExternalChunkMgr} {a : Addr}
  {bufs : List Addr} {n : ℕ} {x : Addr}

/-- The connection is at the head of the loop, or between the two chunks of a round. -/
structure At (m : MrWorld) (con : ConId) (c : Connection) (mgr : ExternalChunkMgr)
    (phase : InitPhase) : Prop where
  finished : m.finished = false
  cons : m.cons con = some c
  kind : c.kind = .msg
  external : c.external_service = true
  phase_eq : c.phase = phase
  chunk_mgr : m.chunk_mgr = .external mgr

/-- The connections when `a` has been handed out and the manager is left as it is. -/
def handOut (s : ConnectionWorld) (mgr : ExternalChunkMgr) (con : ConId) (a : Addr) :
    ConnectionWorld :=
  { s with chunk_mgr := .external mgr, holder := Function.update s.holder a (some con) }

/-- `get` hands out the first chunk. -/
theorem get_first {s : ConnectionWorld} (hmgr : s.chunk_mgr = .external mgr)
    (hbufs : mgr.bufs = a :: bufs) (ha : a ≠ nullptr) :
    s.get con c noReply = some (handOut s { mgr with bufs := bufs } con a, c, a) := by
  unfold ConnectionWorld.get
  rw [hmgr, if_pos (show (ChunkMgr.external mgr).Answers noReply from trivial)]
  simp only [ChunkMgr.get, ExternalChunkMgr.get, hbufs, Option.map_some, Option.getD_some,
    if_neg ha]
  rfl

/-- The first chunk gets the region. -/
theorem opens_first (hmgr : m.chunk_mgr = .external mgr) (hbufs : mgr.bufs = a :: bufs)
    (ha : a ≠ nullptr) (x : Addr) : m.opens (some x) = some (a, x) := by
  unfold opens
  rw [hmgr]
  simp only [ChunkMgr.free, hbufs, List.head?_cons, if_neg ha]

/-- The receive chunk of a round. -/
theorem step_init_recv (h : m.At con c mgr (.recv n)) (hbufs : mgr.bufs = a :: bufs)
    (ha : a ≠ nullptr) (hx : m.Fresh x) :
    ∃ m' c', m.step (.init_recv con noReply ⟨some x, true⟩) = some m' ∧
      m'.At con c' { mgr with bufs := bufs } (.send n) ∧ c'.send_chunks = c.send_chunks ∧
      m'.posted con = a :: m.posted con ∧ ∀ y, y ≠ x → m'.fids y = m.fids y := by
  obtain ⟨s, hs, hcons, hmgr⟩ : ∃ s, m.toConnectionWorld.step
      (.init_recv con noReply ⟨some x, true⟩) = some s ∧
        s.cons con = some { c with phase := .send n } ∧
        s.chunk_mgr = .external { mgr with bufs := bufs } := by
    refine ⟨((handOut m.toConnectionWorld { mgr with bufs := bufs } con a).stamp con a
      (some x)).setCon con { c with phase := .send n }, ?_, Function.update_self .., rfl⟩
    simp only [ConnectionWorld.step, h.cons, h.kind, h.phase_eq, Option.bind_some,
      ConnectionWorld.msgRecv, get_first h.chunk_mgr hbufs ha, Option.map_some, if_neg ha,
      h.external]
    rfl
  have hfresh : ∀ y ∈ (⟨some x, true⟩ : FabricReply).mr, m.Fresh y := by
    intro y hy
    rwa [← Option.some.inj hy]
  refine ⟨{ ({ m with toConnectionWorld := s } : MrWorld).register (some (a, x)) with
      posted := Function.update m.posted con (a :: m.posted con) }, { c with phase := .send n }, ?_,
    ⟨h.finished, hcons, h.kind, h.external, rfl, hmgr⟩, rfl, Function.update_self ..,
    fun y hy => Function.update_of_ne hy _ _⟩
  simp only [step, h.finished, Bool.false_eq_true, if_false, if_pos hfresh, stepConnection, hs,
    Option.map_some, opens_first h.chunk_mgr hbufs ha x]
  rfl

/-- The send chunk. -/
theorem step_init_send (h : m.At con c mgr (.send n)) (hbufs : mgr.bufs = a :: bufs)
    (ha : a ≠ nullptr) (hx : m.Fresh x) :
    ∃ m' c', m.step (.init_send con noReply ⟨some x, true⟩) = some m' ∧
      m'.At con c' { mgr with bufs := bufs } (InitPhase.loop n) ∧
      c'.send_chunks = c.send_chunks ++ [a] ∧
      m'.posted con = m.posted con ∧ ∀ y, y ≠ x → m'.fids y = m.fids y := by
  obtain ⟨s, hs, hcons, hmgr⟩ : ∃ s, m.toConnectionWorld.step
      (.init_send con noReply ⟨some x, true⟩) = some s ∧
        s.cons con =
          some { c with send_chunks := c.send_chunks ++ [a], phase := InitPhase.loop n } ∧
        s.chunk_mgr = .external { mgr with bufs := bufs } := by
    refine ⟨((handOut m.toConnectionWorld { mgr with bufs := bufs } con a).stamp con a
      (some x)).setCon con
        { c with send_chunks := c.send_chunks ++ [a], phase := InitPhase.loop n }, ?_,
      Function.update_self .., rfl⟩
    simp only [ConnectionWorld.step, h.cons, h.kind, h.phase_eq, Option.bind_some,
      ConnectionWorld.msgSend, get_first h.chunk_mgr hbufs ha, Option.map_some, if_neg ha,
      reduceCtorEq, if_false]
  have hfresh : ∀ y ∈ (⟨some x, true⟩ : FabricReply).mr, m.Fresh y := by
    intro y hy
    rwa [← Option.some.inj hy]
  refine ⟨({ m with toConnectionWorld := s } : MrWorld).register (some (a, x)),
    { c with send_chunks := c.send_chunks ++ [a], phase := InitPhase.loop n }, ?_,
    ⟨h.finished, hcons, h.kind, h.external, rfl, hmgr⟩, rfl, rfl,
    fun y hy => Function.update_of_ne hy _ _⟩
  simp only [step, h.finished, Bool.false_eq_true, if_false, if_pos hfresh, stepConnection, hs,
    Option.map_some, opens_first h.chunk_mgr hbufs ha x]

/-- What a connection has, and what the manager has left. -/
def chunks (m : MrWorld) (con : ConId) (c : Connection) (bufs : List Addr) : List Addr :=
  m.posted con ++ c.send_chunks ++ bufs

/-- **A round** takes two chunks. -/
theorem run_round (h : m.At con c mgr (.recv n)) {b : Addr} (hbufs : mgr.bufs = a :: b :: bufs)
    (ha : a ≠ nullptr) (hb : b ≠ nullptr) {y : Addr} (hx : m.Fresh x) (hy : m.Fresh y)
    (hxy : x ≠ y) :
    ∃ m' c', run step m (initRounds con [(x, y)]) = some m' ∧
      m'.At con c' { mgr with bufs := bufs } (InitPhase.loop n) ∧
      (m'.posted con).length = (m.posted con).length + 1 ∧
      c'.send_chunks.length = c.send_chunks.length + 1 ∧
      (m'.chunks con c' bufs).Perm (m.chunks con c mgr.bufs) ∧
      ∀ z, z ≠ x → z ≠ y → m'.fids z = m.fids z := by
  obtain ⟨m₁, c₁, hstep₁, hat₁, hsends₁, hposted₁, hfids₁⟩ := step_init_recv h hbufs ha hx
  have hy₁ : m₁.Fresh y := ⟨hy.1, (hfids₁ y hxy.symm).trans hy.2⟩
  obtain ⟨m₂, c₂, hstep₂, hat₂, hsends₂, hposted₂, hfids₂⟩ := step_init_send hat₁ rfl hb hy₁
  refine ⟨m₂, c₂, ?_, hat₂, ?_, ?_, ?_, ?_⟩
  · exact run_step hstep₁ (run_one hstep₂)
  · rw [hposted₂, hposted₁, List.length_cons]
  · rw [hsends₂, hsends₁, List.length_append, List.length_singleton]
  · unfold chunks
    rw [hposted₂, hposted₁, hsends₂, hsends₁, hbufs]
    have hback : ((m.posted con ++ (c.send_chunks ++ [b])) ++ bufs) =
        (m.posted con ++ c.send_chunks) ++ b :: bufs := by simp
    show (a :: ((m.posted con ++ (c.send_chunks ++ [b])) ++ bufs)).Perm _
    rw [hback]
    exact List.perm_middle.symm
  · intro z hzx hzy
    exact (hfids₂ z hzy).trans (hfids₁ z hzx)

/-- **All the rounds** take two chunks each. -/
theorem run_rounds (mrs : List (Addr × Addr)) : ∀ {m : MrWorld} {c : Connection}
    {mgr : ExternalChunkMgr}, m.At con c mgr (InitPhase.loop mrs.length) →
      2 * mrs.length ≤ mgr.bufs.length → nullptr ∉ mgr.bufs → (handles mrs).Nodup →
      (∀ z ∈ handles mrs, m.Fresh z) →
    ∃ m' c' mgr', run step m (initRounds con mrs) = some m' ∧ m'.At con c' mgr' .ready ∧
      (m'.posted con).length = (m.posted con).length + mrs.length ∧
      c'.send_chunks.length = c.send_chunks.length + mrs.length ∧
      (m'.chunks con c' mgr'.bufs).Perm (m.chunks con c mgr.bufs) := by
  induction mrs with
  | nil =>
    intro m c mgr h _ _ _ _
    exact ⟨m, c, mgr, rfl, h, rfl, rfl, List.Perm.refl _⟩
  | cons mr mrs ih =>
    intro m c mgr h hlen hnull hnodup hfresh
    obtain ⟨x, y⟩ := mr
    obtain ⟨a, b, bufs, hbufs⟩ : ∃ a b bufs, mgr.bufs = a :: b :: bufs := by
      rw [List.length_cons] at hlen
      cases hb : mgr.bufs with
      | nil =>
        rw [hb, List.length_nil] at hlen
        omega
      | cons a l =>
        cases l with
        | nil =>
          rw [hb, List.length_singleton] at hlen
          omega
        | cons b bufs => exact ⟨a, b, bufs, rfl⟩
    rw [hbufs] at hlen hnull
    simp only [List.mem_cons, not_or] at hnull
    obtain ⟨ha, hb, hrest⟩ := hnull
    have hhandles : handles ((x, y) :: mrs) = x :: y :: handles mrs := rfl
    rw [hhandles] at hnodup hfresh
    obtain ⟨hx, hnodup⟩ := List.nodup_cons.mp hnodup
    obtain ⟨hy, hnodup⟩ := List.nodup_cons.mp hnodup
    have hxy : x ≠ y := fun hxy => hx (hxy ▸ List.mem_cons_self)
    obtain ⟨m₁, c₁, hrun₁, hat₁, hposted₁, hsends₁, hperm₁, hfids₁⟩ :=
      run_round h hbufs (Ne.symm ha) (Ne.symm hb) (hfresh x (by simp)) (hfresh y (by simp)) hxy
    have hfresh₁ : ∀ z ∈ handles mrs, m₁.Fresh z := by
      intro z hz
      have hzx : z ≠ x := fun hzx => hx (hzx ▸ List.mem_cons_of_mem y hz)
      have hzy : z ≠ y := fun hzy => hy (hzy ▸ hz)
      obtain ⟨hz0, hznone⟩ := hfresh z (by simp [hz])
      exact ⟨hz0, (hfids₁ z hzx hzy).trans hznone⟩
    obtain ⟨m₂, c₂, mgr₂, hrun₂, hat₂, hposted₂, hsends₂, hperm₂⟩ :=
      ih hat₁ (by simp only [List.length_cons] at hlen ⊢; omega) hrest hnodup hfresh₁
    refine ⟨m₂, c₂, mgr₂, ?_, hat₂, ?_, ?_, hperm₂.trans hperm₁⟩
    · have hcalls : initRounds con ((x, y) :: mrs) =
          initRounds con [(x, y)] ++ initRounds con mrs := rfl
      rw [hcalls]
      exact run_trans hrun₁ hrun₂
    · rw [hposted₂, hposted₁, List.length_cons]
      omega
    · rw [hsends₂, hsends₁, List.length_cons]
      omega

/-- The constructor, and `init` up to the loop. -/
theorem run_open (hfinished : m.finished = false) (hcon : con ≠ nullptr)
    (hnone : m.cons con = none) (hmgr : m.chunk_mgr = .external mgr) (buffer_num : ℤ)
    {ep conEq : Addr} (hep : m.Fresh ep) (heq : m.Fresh conEq) (hne : ep ≠ conEq) :
    ∃ m' c, run step m [.construct con buffer_num, .open con (some (ep, conEq))] = some m' ∧
      m'.At con c mgr (InitPhase.loop buffer_num.toNat) ∧ m'.posted con = [] ∧
      c.send_chunks = [] ∧ ∀ z, z ≠ ep → z ≠ conEq → m'.fids z = m.fids z := by
  obtain ⟨m₁, hstep₁, hcons₁, hmgr₁, hfinished₁, hposted₁, hfids₁⟩ : ∃ m₁,
      m.step (.construct con buffer_num) = some m₁ ∧
        m₁.cons con = some { kind := .msg, external_service := true,
                             phase := .opening buffer_num.toNat } ∧
        m₁.chunk_mgr = m.chunk_mgr ∧ m₁.finished = m.finished ∧ m₁.posted con = [] ∧
        m₁.fids = m.fids := by
    have hnew : con ≠ nullptr ∧ (m.cons con).isNone = true := ⟨hcon, by rw [hnone]; rfl⟩
    simp only [step, hfinished, Bool.false_eq_true, if_false, stepConnection, ConnectionWorld.step,
      if_pos hnew, Option.map_some, Option.some.injEq, exists_eq_left']
    exact ⟨Function.update_self .., rfl, trivial, Function.update_self .., trivial⟩
  have hopen : m₁.Fresh ep ∧ m₁.Fresh conEq ∧ ep ≠ conEq := by
    unfold Fresh
    rw [hfids₁]
    exact ⟨hep, heq, hne⟩
  obtain ⟨m₂, hstep₂, hcons₂, hmgr₂, hfinished₂, hposted₂, hfids₂⟩ : ∃ m₂,
      m₁.step (.open con (some (ep, conEq))) = some m₂ ∧
        m₂.cons con = some { kind := .msg, external_service := true,
                             phase := InitPhase.loop buffer_num.toNat } ∧
        m₂.chunk_mgr = m₁.chunk_mgr ∧ m₂.finished = m₁.finished ∧
        m₂.posted con = m₁.posted con ∧
        ∀ z, z ≠ ep → z ≠ conEq → m₂.fids z = m₁.fids z := by
    simp only [step, hfinished₁, hfinished, Bool.false_eq_true, if_false, stepConnection,
      ConnectionWorld.step, if_pos hopen, hcons₁, Option.bind_some, if_true, Option.map_some,
      Option.some.injEq, exists_eq_left']
    refine ⟨Function.update_self .., rfl, trivial, trivial, fun z hzep hzeq => ?_⟩
    rw [Function.update_of_ne hzeq, Function.update_of_ne hzep]
  refine ⟨m₂, _, ?_, ⟨hfinished₂.trans (hfinished₁.trans hfinished), hcons₂, rfl, rfl, rfl,
    hmgr₂.trans (hmgr₁.trans hmgr)⟩, hposted₂.trans hposted₁, rfl, fun z hzep hzeq => ?_⟩
  · exact run_step hstep₁ (run_one hstep₂)
  · rw [hfids₂ z hzep hzeq, hfids₁]

end Rounds

end MrWorld

namespace EqServicePool

/-! ## The reservation -/

/-- libfabric can answer `init` with these handles. -/
structure Answerable (m : MrWorld) (ep conEq : Addr) (mrs : List (Addr × Addr)) : Prop where
  nodup : (ep :: conEq :: MrWorld.handles mrs).Nodup
  fresh : ∀ z ∈ ep :: conEq :: MrWorld.handles mrs, m.Fresh z

/-- `MsgConnection::init` of a new connection, with this manager and every call of libfabric
succeeding, gets `2 * buffer_num` chunks, none of them null and no two the same; it posts
one half and keeps the other half to send. -/
def InitTakes (w : EqServicePool) (buffer_num : ℤ) : Prop :=
  ∀ (m : MrWorld) (con ep conEq : Addr) (mrs : List (Addr × Addr)),
    m.chunk_mgr = .external w.chkMgr → m.finished = false → con ≠ nullptr → m.cons con = none →
    (mrs.length : ℤ) = buffer_num → Answerable m ep conEq mrs →
    ∃ m' c, run MrWorld.step m (MrWorld.initCalls con buffer_num ep conEq mrs) = some m' ∧
      m'.cons con = some c ∧ c.phase = .ready ∧ ((m'.posted con).length : ℤ) = buffer_num ∧
      (c.send_chunks.length : ℤ) = buffer_num ∧ (m'.posted con ++ c.send_chunks).Nodup ∧
      nullptr ∉ m'.posted con ++ c.send_chunks

/-- The loop ends, and `init` gets its chunks. -/
def Reserves (answer : EqServicePool → Addr × Addr) (w : EqServicePool) (buffer_num : ℤ) : Prop :=
  ∃ k, LoopEnds answer w buffer_num k ∧ ((grow answer)^[k] w).InitTakes buffer_num

section Reserves

variable {w : EqServicePool} {answer : EqServicePool → Addr × Addr} {buffer_num : ℤ}

/-- **Enough is enough**: `init` gets its chunks when the loop has ended. -/
theorem initTakes_of_enough (h : w.Owned) (h0 : 0 ≤ buffer_num) (hint : 2 * buffer_num < 2 ^ 31)
    (henough : w.is_buffer_enough buffer_num) : w.InitTakes buffer_num := by
  intro m con ep conEq mrs hmgr hfinished hcon hnone hlen hanswers
  have hroom : 2 * mrs.length ≤ w.chkMgr.bufs.length := by
    unfold is_buffer_enough ExternalChunkMgr.free_size at henough
    rw [toInt32_eq_self (by omega) hint] at henough
    simp only [toInt32] at henough
    omega
  obtain ⟨hep, hnodup⟩ := List.nodup_cons.mp hanswers.nodup
  obtain ⟨heq, hnodup⟩ := List.nodup_cons.mp hnodup
  obtain ⟨m₁, c₁, hrun₁, hat₁, hposted₁, hsends₁, hfids₁⟩ := MrWorld.run_open hfinished hcon hnone
    hmgr buffer_num (hanswers.fresh ep (by simp)) (hanswers.fresh conEq (by simp))
    fun hne => hep (hne ▸ List.mem_cons_self)
  have hfresh : ∀ z ∈ MrWorld.handles mrs, m₁.Fresh z := by
    intro z hz
    have hzep : z ≠ ep := fun hzep => hep (hzep ▸ List.mem_cons_of_mem conEq hz)
    have hzeq : z ≠ conEq := fun hzeq => heq (hzeq ▸ hz)
    obtain ⟨hz0, hznone⟩ := hanswers.fresh z (by simp [hz])
    exact ⟨hz0, (hfids₁ z hzep hzeq).trans hznone⟩
  have hrounds : buffer_num.toNat = mrs.length := by omega
  rw [hrounds] at hat₁
  obtain ⟨hbufs, -⟩ := List.nodup_append.mp h.1
  obtain ⟨m₂, c₂, mgr, hrun₂, hat₂, hposted₂, hsends₂, hperm⟩ := MrWorld.run_rounds mrs hat₁ hroom
    (fun hmem => h.2 (List.mem_append_left _ hmem)) hnodup hfresh
  -- what the connection has was in the free list
  have hchunks : m₁.chunks con c₁ w.chkMgr.bufs = w.chkMgr.bufs := by
    rw [MrWorld.chunks, hposted₁, hsends₁]
    rfl
  rw [hchunks] at hperm
  refine ⟨m₂, c₂, run_trans hrun₁ hrun₂, hat₂.cons, hat₂.phase_eq, ?_, ?_, ?_, ?_⟩
  · rw [hposted₂, hposted₁, List.length_nil]
    omega
  · rw [hsends₂, hsends₁, List.length_nil]
    omega
  · exact (List.nodup_append.mp (hperm.nodup_iff.mpr hbufs)).1
  · intro hmem
    exact h.2 (List.mem_append_left _ (hperm.mem_iff.mp (List.mem_append_left _ hmem)))

/-- The loop ends when it ever finds enough chunks. -/
theorem exists_loopEnds : (∃ k, LoopEnds answer w buffer_num k) ↔
    ∃ k, ((grow answer)^[k] w).is_buffer_enough buffer_num := by
  constructor
  · rintro ⟨k, -, h⟩
    exact ⟨k, h⟩
  · intro h
    exact ⟨Nat.find h, fun j hj => Nat.find_min h hj, Nat.find_spec h⟩

/-- **When the chunks of a connection are reserved.**  From every state that an `EqService`
with a pool can get into, and whatever memory is found, the loop ends and `init` gets its
chunks if and only if an `int` of at least `2 * buffer_num` is congruent to the number of
free chunks, modulo the greatest common divisor of `nextBufferNum` and 2³². -/
theorem reserves_iff (mem : Mem) (ops : List EqServicePoolOp) (w : EqServicePool) (pool : MemPool)
    (answer : EqServicePool → Addr × Addr) (buffer_num : ℤ)
    (hrun : run step (init mem) ops = some w) (hpool : w.bufferPool = some pool)
    (hnext : 1 ≤ pool.nextBufferNum) (hfresh : Fresh answer) (h0 : 0 ≤ buffer_num)
    (hint : 2 * buffer_num < 2 ^ 31) :
    Reserves answer w buffer_num ↔
      2 * buffer_num + (w.chkMgr.bufs.length - 2 * buffer_num) %
        Int.gcd pool.nextBufferNum (2 ^ 32) < 2 ^ 31 := by
  have howned := owned_run hrun
  have hself := toInt32_eq_self (x := 2 * buffer_num) (by omega) hint
  rw [← exists_le_toInt32_iff (by omega)]
  constructor
  · rintro ⟨k, ⟨-, henough⟩, -⟩
    rw [enough_iterate hfresh howned hpool (by omega), hself] at henough
    exact ⟨k, henough⟩
  · rintro ⟨k, hk⟩
    have henough : ((grow answer)^[k] w).is_buffer_enough buffer_num := by
      rw [enough_iterate hfresh howned hpool (by omega), hself]
      exact hk
    obtain ⟨j, hends⟩ := exists_loopEnds.mpr ⟨k, henough⟩
    obtain ⟨howned', -⟩ := grow_iterate hfresh howned hpool j
    exact ⟨j, hends, initTakes_of_enough howned' h0 hint hends.2⟩

/-- Memory above all the chunks in use. -/
def above (w : EqServicePool) : Addr × Addr := (5000, (w.chkMgr.bufs ++ w.out).sum + 1)

theorem fresh_above : Fresh above := by
  intro w
  have hnot : ∀ ck ∈ w.chkMgr.bufs ++ w.out, ck ≠ (above w).2 := by
    intro ck hck heq
    have hle : ck ≤ (w.chkMgr.bufs ++ w.out).sum := List.le_sum_of_mem hck
    rw [heq] at hle
    exact Nat.not_succ_le_self _ hle
  refine ⟨Nat.succ_ne_zero _, fun hmem => ?_, fun hmem => ?_⟩
  · exact hnot _ (List.mem_append_left _ hmem) rfl
  · exact hnot _ (List.mem_append_right _ hmem) rfl

/-- A pool of one buffer that grows by one. -/
theorem reserves_one_by_one :
    ∃ w, run step (init fun _ => {}) [.initBufferPool 1024 1 [(5000, 100)]] = some w ∧
      Reserves above w 1 :=
  ⟨_, rfl, (reserves_iff (fun _ => {}) [.initBufferPool 1024 1 [(5000, 100)]] _ _ above 1 rfl rfl
    (by decide) fresh_above (by decide) (by decide)).mpr (by decide +kernel)⟩

/-- A pool of one buffer that grows by four never has 2³¹ - 2 free chunks: it has 2³¹ - 3 and
then 2³¹ + 1, which is a negative `int`. -/
theorem not_reserves_by_four :
    ∃ w, run step (init fun _ => {}) [.initBufferPool 1024 4 [(5000, 100)]] = some w ∧
      ¬ Reserves above w (2 ^ 30 - 1) := by
  obtain ⟨w, hrun, hbufs, pool, hpool, hnext⟩ : ∃ w,
      run step (init fun _ => {}) [.initBufferPool 1024 4 [(5000, 100)]] = some w ∧
        w.chkMgr.bufs = [100] ∧ ∃ pool, w.bufferPool = some pool ∧ pool.nextBufferNum = 4 :=
    ⟨_, rfl, rfl, _, rfl, rfl⟩
  refine ⟨w, hrun, ?_⟩
  rintro ⟨k, ⟨-, henough⟩, -⟩
  rw [enough_iterate fresh_above (owned_run hrun) hpool (by omega), hbufs, hnext] at henough
  simp only [toInt32, List.length_singleton] at henough
  omega

end Reserves

end EqServicePool

end Hpnl
