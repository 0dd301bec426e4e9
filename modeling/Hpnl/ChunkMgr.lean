import Hpnl.ChunkPool.UsedChunks

/-!
# The two chunk managers

`ChunkMgr` is an abstract class with two implementations.  `ExternalChunkMgr` keeps
its free chunks in a vector and has them all in `buf_map`; it tests the connection
before it logs a chunk, but the wrong way round: `get` with a connection logs
nothing, and `get` without one dereferences null.

* `ExternalChunkMgr.get`, `reclaim`, `get_by_id`.
* `ChunkMgr` — either manager, with the calls that connections make.
-/

namespace Hpnl

open MachineInt

/-! ## The external manager -/

/-- An `ExternalChunkMgr`, without the members that only its constructor uses; the
back of `bufs` is the head. -/
structure ExternalChunkMgr where
  bufs : List Addr := []
  buf_map : StdMap ℤ Addr := ∅

namespace ExternalChunkMgr

/-- `ExternalChunkMgr::get(Connection*)`; `none` is the null dereference. -/
def get (m : ExternalChunkMgr) (con : Option ConnectionImpl) :
    Option (ExternalChunkMgr × Option ConnectionImpl × Addr) :=
  match m.bufs with
  | [] => some (m, con, nullptr)
  | ck :: bufs =>
      match con with
      | none => none
      | some c => some ({ m with bufs := bufs }, some c, ck)

/-- `ExternalChunkMgr::reclaim(ck, con)`. -/
def reclaim (m : ExternalChunkMgr) (mem : Mem) (ck : Addr) (con : Option ConnectionImpl) :
    ExternalChunkMgr × Option ConnectionImpl :=
  ({ bufs := ck :: m.bufs, buf_map := m.buf_map.insertNew (mem ck).key ck },
    con.map fun c => c.remove_used_chunk mem ck)

/-- `ExternalChunkMgr::get(int)`, which is `buf_map[id]`. -/
def get_by_id (m : ExternalChunkMgr) (id : ℤ) : ExternalChunkMgr × Addr :=
  ({ m with buf_map := m.buf_map.index id nullptr }, m.buf_map.value id nullptr)

/-- `ExternalChunkMgr::free_size`. -/
def free_size (m : ExternalChunkMgr) : ℤ := toInt32 m.bufs.length

end ExternalChunkMgr

/-! ## Either manager -/

/-- A `ChunkMgr*`. -/
inductive ChunkMgr where
  | pool (p : ChunkPool)
  | external (m : ExternalChunkMgr)

/-- What the environment answers to one `get` of a pool. -/
structure GetReply where
  reply : MallocReply
  retry : MallocReply
  pick : Addr
  deriving DecidableEq, Repr

namespace ChunkMgr

/-- The environment can answer so. -/
def Answers : ChunkMgr → GetReply → Prop
  | pool p, r => p.CanGet r.reply r.retry r.pick
  | external _, _ => True

instance : (mgr : ChunkMgr) → (r : GetReply) → Decidable (mgr.Answers r)
  | pool p, r => inferInstanceAs (Decidable (p.CanGet r.reply r.retry r.pick))
  | external _, _ => isTrue trivial

/-- `get(con)` with a connection. -/
def get (mgr : ChunkMgr) (mem : Mem) (con : ConnectionImpl) (r : GetReply) :
    Option (ChunkMgr × Mem × ConnectionImpl × Addr) :=
  match mgr with
  | pool p =>
      (p.get mem (some con) r.reply r.retry r.pick).map fun (p', mem', con', ck) =>
        (pool p', mem', con'.getD con, ck)
  | external m =>
      (m.get (some con)).map fun (m', con', ck) => (external m', mem, con'.getD con, ck)

/-- `reclaim(ck, con)` with a connection. -/
def reclaim (mgr : ChunkMgr) (mem : Mem) (con : ConnectionImpl) (ck : Addr) (link : ℕ) :
    ChunkMgr × Mem × ConnectionImpl :=
  match mgr with
  | pool p =>
      let (p', mem', con') := p.reclaim mem con ck link
      (pool p', mem', con')
  | external m =>
      let (m', con') := m.reclaim mem ck (some con)
      (external m', mem, con'.getD con)

/-- `reclaim(ck, nullptr)`, which a pool cannot do. -/
def set_buffer (mgr : ChunkMgr) (mem : Mem) (ck : Addr) : Option ChunkMgr :=
  match mgr with
  | pool _ => none
  | external m => some (external (m.reclaim mem ck none).1)

/-- `free_size()`. -/
def free_size : ChunkMgr → ℤ
  | pool p => p.free_size
  | external m => m.free_size

/-- The free list. -/
def free : ChunkMgr → List Addr
  | pool p => p.store
  | external m => m.bufs

/-- An external manager hands out the head of its list, or null. -/
theorem get_external_iff {m : ExternalChunkMgr} {mgr' : ChunkMgr} {mem mem' : Mem}
    {con con' : ConnectionImpl} {r : GetReply} {ck : Addr} :
    (external m).get mem con r = some (mgr', mem', con', ck) ↔
      mem' = mem ∧ con' = con ∧ (m.bufs = [] ∧ mgr' = external m ∧ ck = nullptr ∨
        ∃ bufs, m.bufs = ck :: bufs ∧ mgr' = external { m with bufs := bufs }) := by
  obtain ⟨free, buf_map⟩ := m
  cases free with
  | nil =>
    constructor
    · intro h
      cases h
      exact ⟨rfl, rfl, Or.inl ⟨rfl, rfl, rfl⟩⟩
    · rintro ⟨rfl, rfl, ⟨-, rfl, rfl⟩ | ⟨bufs, hcons, -⟩⟩
      · rfl
      · cases hcons
  | cons a bufs =>
    constructor
    · intro h
      cases h
      exact ⟨rfl, rfl, Or.inr ⟨bufs, rfl, rfl⟩⟩
    · rintro ⟨rfl, rfl, ⟨hnil, -⟩ | ⟨rest, hcons, rfl⟩⟩
      · cases hnil
      · cases hcons
        rfl

/-- Either manager takes the chunk's entry out of `used_chunks`. -/
theorem used_chunks_reclaim (mgr : ChunkMgr) (mem : Mem) (con : ConnectionImpl) (ck : Addr)
    (link : ℕ) : (mgr.reclaim mem con ck link).2.2 = con.remove_used_chunk mem ck := by
  cases mgr <;> rfl

/-- Only the header of the chunk is written. -/
theorem mem_reclaim_of_ne (mgr : ChunkMgr) (mem : Mem) (con : ConnectionImpl) {ck a : Addr}
    (link : ℕ) (h : a ≠ ck) : (mgr.reclaim mem con ck link).2.1 a = mem a := by
  cases mgr with
  | pool p => exact Function.update_of_ne h _ _
  | external m => rfl

/-! ## Free chunks and chunks that are out -/

/-- The manager's free list holds each free chunk once and nothing that is out; for a
pool, `PoolWorld.Wf`. -/
def Wf (mgr : ChunkMgr) (holder : Addr → Option ConId) : Prop :=
  match mgr with
  | pool p => PoolWorld.Wf ⟨fun _ => {}, p, fun _ => {}, holder⟩
  | external m => m.bufs.Nodup ∧ ∀ a ∈ m.bufs, holder a = none

theorem Wf.nodup {mgr : ChunkMgr} {holder : Addr → Option ConId} (h : mgr.Wf holder) :
    mgr.free.Nodup := by
  cases mgr with
  | pool p => exact PoolWorld.Wf.nodup h
  | external m => exact h.1

/-- The order of a pool does not depend on what the memory and the connections hold. -/
theorem wf_pool_iff {s : PoolWorld} : s.Wf ↔ (pool s.pool).Wf s.holder :=
  ⟨fun h => ⟨h.nodup, h.free, h.owns_free, h.owns_out⟩,
    fun h => ⟨h.nodup, h.free, h.owns_free, h.owns_out⟩⟩

/-- **`get` takes a chunk that is not out**, unless there is none. -/
theorem wf_get {mgr mgr' : ChunkMgr} {holder : Addr → Option ConId} {mem mem' : Mem}
    {con con' : ConnectionImpl} {r : GetReply} {ck : Addr} (h : mgr.Wf holder)
    (hans : mgr.Answers r) (hget : mgr.get mem con r = some (mgr', mem', con', ck)) (id : ConId) :
    mgr'.Wf (if ck = nullptr then holder else Function.update holder ck (some id)) := by
  cases mgr with
  | pool p =>
    obtain ⟨⟨p', m', c', a⟩, hp, heq⟩ := Option.map_eq_some_iff.mp hget
    cases heq
    obtain ⟨rfl, hne, rfl, -⟩ := ChunkPool.get_eq_some hans hp
    rw [if_neg hne]
    have hw : PoolWorld.Wf ⟨mem, p, fun _ => {}, holder⟩ := wf_pool_iff.mpr h
    exact wf_pool_iff.mp (PoolWorld.wf_afterGet hw id hans)
  | external m =>
    obtain ⟨-, -, ⟨-, rfl, rfl⟩ | ⟨bufs, hbufs, rfl⟩⟩ := get_external_iff.mp hget
    · rw [if_pos rfl]
      exact h
    · obtain ⟨hnodup, hfree⟩ := h
      rw [hbufs] at hnodup hfree
      obtain ⟨hnot, hnodup⟩ := List.nodup_cons.mp hnodup
      refine ⟨hnodup, fun a ha => ?_⟩
      have hold : holder a = none := hfree a (List.mem_cons_of_mem _ ha)
      split
      · exact hold
      · rw [Function.update_of_ne, hold]
        rintro rfl
        exact hnot ha

/-- The chunk that `get` takes was out to nobody. -/
theorem holder_get {mgr mgr' : ChunkMgr} {holder : Addr → Option ConId} {mem mem' : Mem}
    {con con' : ConnectionImpl} {r : GetReply} {ck : Addr} (h : mgr.Wf holder)
    (hans : mgr.Answers r) (hget : mgr.get mem con r = some (mgr', mem', con', ck))
    (hck : ck ≠ nullptr) : holder ck = none := by
  cases mgr with
  | pool p =>
    obtain ⟨⟨p', m', c', a⟩, hp, heq⟩ := Option.map_eq_some_iff.mp hget
    cases heq
    obtain ⟨rfl, -⟩ := ChunkPool.get_eq_some hans hp
    have hw : PoolWorld.Wf ⟨mem, p, fun _ => {}, holder⟩ := wf_pool_iff.mpr h
    exact hw.holder_pick hans
  | external m =>
    obtain ⟨-, -, ⟨-, -, hnull⟩ | ⟨bufs, hbufs, -⟩⟩ := get_external_iff.mp hget
    · exact absurd hnull hck
    · exact h.2 ck (hbufs ▸ List.mem_cons_self)

/-- Giving back a chunk that is out keeps the free list in order. -/
theorem wf_reclaim {mgr : ChunkMgr} {holder : Addr → Option ConId} (h : mgr.Wf holder)
    (mem : Mem) (con : ConnectionImpl) {ck : Addr} (link : ℕ) (hout : holder ck ≠ none) :
    (mgr.reclaim mem con ck link).1.Wf (Function.update holder ck none) := by
  cases mgr with
  | pool p =>
    have hw : PoolWorld.Wf ⟨mem, p, fun _ => {}, holder⟩ := wf_pool_iff.mpr h
    exact wf_pool_iff.mp (PoolWorld.wf_afterReclaim hw nullptr link hout)
  | external m =>
    refine ⟨List.nodup_cons.mpr ⟨fun hck => hout (h.2 ck hck), h.1⟩, fun a ha => ?_⟩
    by_cases hac : a = ck
    · rw [hac, Function.update_self]
    · rw [Function.update_of_ne hac]
      exact h.2 a ((List.mem_cons.mp ha).resolve_left hac)

/-- So does giving the external manager a chunk that it has not had. -/
theorem wf_set_buffer {mgr mgr' : ChunkMgr} {holder : Addr → Option ConId} {mem : Mem} {ck : Addr}
    (h : mgr.Wf holder) (hnew : ck ∉ mgr.free) (hout : holder ck = none)
    (hset : mgr.set_buffer mem ck = some mgr') : mgr'.Wf holder := by
  cases mgr with
  | pool p => exact absurd hset (by simp [set_buffer])
  | external m =>
    cases hset
    refine ⟨List.nodup_cons.mpr ⟨hnew, h.1⟩, fun a ha => ?_⟩
    rcases List.mem_cons.mp ha with rfl | ha
    · exact hout
    · exact h.2 a ha

end ChunkMgr

end Hpnl
