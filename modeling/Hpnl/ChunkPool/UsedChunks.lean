import Hpnl.ChunkPool.World

/-!
# The pool's record of the chunks a connection has taken

`get(con)` logs the chunk it hands out in `con->used_chunks` before it writes the
chunk's `buffer_id`; the entry is filed under whatever the first word of the free
chunk was.  `reclaim` erases the entry under the `buffer_id` the chunk has by
then.

* `Wf` — free chunks are free: the free list has no duplicates and holds nothing
  that is out; `wf_step` — a step keeps it.
* `UsedExact` — each connection's map holds exactly the chunks it has taken and
  not yet given back, under their ids.
* `usedExact_afterGet` — what `get` has to find for that to hold afterwards;
  `usedExact_reclaim` — `reclaim` always keeps it.
* `used_chunks_exact` — **the record is exact along a run if and only if every
  chunk is logged under its id**.
-/

namespace Hpnl

open MachineInt Transition

namespace ChunkPool

/-- The id `get` finds for a chunk. -/
def idOf (p : ChunkPool) (ck : Addr) : ℤ := toInt32 (p.chunkPoolContext.chunk_to_id_map.value ck 0)

theorem key_prepare (p : ChunkPool) (mem : Mem) (ck : Addr) :
    ((p.prepare mem ck).2 ck).key = p.idOf ck := by
  simp only [prepare, Function.update_self, Chunk.key, toInt32_toUInt64]
  rfl

end ChunkPool

namespace PoolWorld

/-! ## The free list -/

/-- The free list holds each free chunk once and nothing that is out, and every
chunk lies in a block of the pool. -/
structure Wf (s : PoolWorld) : Prop where
  nodup : s.pool.store.Nodup
  free : ∀ a ∈ s.pool.store, s.holder a = none
  owns_free : ∀ a ∈ s.pool.store, s.pool.Owns a
  owns_out : ∀ a, s.holder a ≠ none → s.pool.Owns a

theorem wf_init (mem : Mem) (domain : Addr) (size n : ℤ) : (init mem domain size n).Wf :=
  { nodup := List.nodup_nil
    free := fun _ h => absurd h List.not_mem_nil
    owns_free := fun _ h => absurd h List.not_mem_nil
    owns_out := fun _ h => absurd rfl h }

/-- The free list after refilling, before a chunk is taken from it. -/
theorem Wf.refill {s : PoolWorld} (h : s.Wf) {reply retry : MallocReply} {pick : Addr}
    (hcan : s.pool.CanGet reply retry pick) :
    { s with pool := s.pool.refill reply retry }.Wf := by
  obtain ⟨hsize, hstore⟩ := ChunkPool.refill_cases hcan.1 hcan.2.1
  have hbytes : ∀ n, (s.pool.refill reply retry).blockBytes n = s.pool.blockBytes n := by
    intro n
    unfold ChunkPool.blockBytes ChunkPool.partition_size
    rw [hsize]
  rcases hstore with ⟨hstore, hblocks⟩ | ⟨hnil, block, n, hstore, hblocks, hfresh⟩
  · have howns : ∀ a, s.pool.Owns a → (s.pool.refill reply retry).Owns a := by
      rintro a ⟨b, hb, hlo, hhi⟩
      exact ⟨b, hblocks ▸ hb, hlo, (hbytes b.2).symm ▸ hhi⟩
    refine ⟨?_, ?_, ?_, ?_⟩
    · show (s.pool.refill reply retry).store.Nodup
      rw [hstore]
      exact h.nodup
    · intro a ha
      exact h.free a (hstore ▸ ha)
    · intro a ha
      exact howns a (h.owns_free a (hstore ▸ ha))
    · intro a ha
      exact howns a (h.owns_out a ha)
  · have hnew : ∀ a ∈ s.pool.segregate block n, (s.pool.refill reply retry).Owns a := by
      intro a ha
      obtain ⟨hlo, hhi⟩ := ChunkPool.mem_segregate ha
      exact ⟨(block, n), hblocks ▸ List.mem_cons_self, hlo, (hbytes n).symm ▸ hhi⟩
    refine ⟨?_, ?_, ?_, ?_⟩
    · show (s.pool.refill reply retry).store.Nodup
      rw [hstore]
      exact ChunkPool.nodup_segregate _ _ _
    · intro a ha
      -- a chunk that is out lies in an older block, which the new one does not overlap
      by_contra hout
      obtain ⟨b, hb, hlo, hhi⟩ := h.owns_out a hout
      have ha : a ∈ s.pool.segregate block n := hstore ▸ ha
      obtain ⟨hlo', hhi'⟩ := ChunkPool.mem_segregate ha
      rcases hfresh b hb with hle | hle
      · exact absurd (lt_of_lt_of_le hhi hle) (Nat.not_lt.mpr hlo')
      · exact absurd (lt_of_lt_of_le hhi' hle) (Nat.not_lt.mpr hlo)
    · intro a ha
      exact hnew a (hstore ▸ ha)
    · intro a ha
      obtain ⟨b, hb, hlo, hhi⟩ := h.owns_out a ha
      exact ⟨b, hblocks ▸ List.mem_cons_of_mem _ hb, hlo, (hbytes b.2).symm ▸ hhi⟩

/-- The chunk that is handed out was not out. -/
theorem Wf.holder_pick {s : PoolWorld} (h : s.Wf) {reply retry : MallocReply} {pick : Addr}
    (hcan : s.pool.CanGet reply retry pick) : s.holder pick = none :=
  (h.refill hcan).free pick hcan.2.2

theorem wf_afterGet {s : PoolWorld} (h : s.Wf) (con : ConId) {reply retry : MallocReply}
    {pick : Addr} (hcan : s.pool.CanGet reply retry pick) :
    (s.afterGet con reply retry pick).Wf := by
  have hr := h.refill hcan
  have hstore : (s.afterGet con reply retry pick).pool.store =
      (s.pool.refill reply retry).store.erase pick := rfl
  refine ⟨hr.nodup.erase pick, ?_, ?_, ?_⟩
  · intro a ha
    rw [hstore, hr.nodup.mem_erase_iff] at ha
    rw [holder_afterGet, Function.update_of_ne ha.1]
    exact hr.free a ha.2
  · intro a ha
    exact hr.owns_free a (List.mem_of_mem_erase (hstore ▸ ha))
  · intro a ha
    by_cases hap : a = pick
    · rw [hap]
      exact hr.owns_free pick hcan.2.2
    · rw [holder_afterGet, Function.update_of_ne hap] at ha
      exact hr.owns_out a ha

theorem wf_afterReclaim {s : PoolWorld} (h : s.Wf) {ck : Addr} (con : ConId) (link : ℕ)
    (hout : s.holder ck ≠ none) : (s.afterReclaim ck con link).Wf := by
  have hnot : ck ∉ s.pool.store := fun hck => hout (h.free ck hck)
  refine ⟨List.nodup_cons.mpr ⟨hnot, h.nodup⟩, ?_, ?_, ?_⟩
  · intro a ha
    rw [holder_afterReclaim]
    by_cases hac : a = ck
    · rw [hac, Function.update_self]
    · rw [Function.update_of_ne hac]
      exact h.free a ((List.mem_cons.mp ha).resolve_left hac)
  · intro a ha
    rcases List.mem_cons.mp ha with rfl | ha
    · exact h.owns_out _ hout
    · exact h.owns_free a ha
  · intro a ha
    by_cases hac : a = ck
    · rw [hac]
      exact h.owns_out ck hout
    · rw [holder_afterReclaim, Function.update_of_ne hac] at ha
      exact h.owns_out a ha

theorem wf_step {s t : PoolWorld} {op : PoolOp} (h : s.Wf) (hstep : s.step op = some t) : t.Wf := by
  cases op with
  | get con reply retry pick =>
    obtain ⟨hcan, -, rfl⟩ := step_get hstep
    exact wf_afterGet h con hcan
  | get_by_id id =>
    cases hstep
    exact h
  | reclaim ck con link =>
    obtain ⟨-, hout, rfl⟩ := step_reclaim hstep
    exact wf_afterReclaim h con link hout

/-! ## The record -/

/-- The calls that connections make: a chunk is taken for a connection and given
back with that connection. -/
def Proper (s : PoolWorld) : PoolOp → Prop
  | .get con _ _ _ => con ≠ nullptr
  | .get_by_id _ => True
  | .reclaim ck con _ => s.holder ck = some con

instance (s : PoolWorld) : (op : PoolOp) → Decidable (s.Proper op)
  | .get con _ _ _ => inferInstanceAs (Decidable (con ≠ nullptr))
  | .get_by_id _ => isTrue trivial
  | .reclaim ck con _ => inferInstanceAs (Decidable (s.holder ck = some con))

/-- A call of a connection. -/
def properStep : PoolWorld → PoolOp → Option PoolWorld := restrict step Proper

/-- Each connection's `used_chunks` is `{ ck.buffer_id → ck }` for the chunks it
has taken and not given back. -/
def UsedExact (s : PoolWorld) : Prop :=
  ∀ con k ck, (s.cons con).used_chunks.find? k = some ck ↔
    s.holder ck = some con ∧ (s.mem ck).key = k

/-- The chunk that `get(con)` takes is logged under its id: its first word is the
id already, and the connection holds no other chunk with that id. -/
def LoggedUnderId (s : PoolWorld) : PoolOp → Prop
  | .get con reply retry pick =>
      (s.mem pick).key = (s.pool.refill reply retry).idOf pick ∧
        ∀ ck, s.holder ck = some con → (s.mem ck).key ≠ (s.pool.refill reply retry).idOf pick
  | _ => True

theorem usedExact_init (mem : Mem) (domain : Addr) (size n : ℤ) :
    (init mem domain size n).UsedExact := by
  intro con k ck
  constructor
  · intro h
    exact absurd h StdMap.find?_empty_ne
  · rintro ⟨h, -⟩
    exact absurd h (by simp [init])

/-- Two chunks a connection holds under one id are the same. -/
theorem UsedExact.inj {s : PoolWorld} (h : s.UsedExact) {con : ConId} {a b : Addr}
    (ha : s.holder a = some con) (hb : s.holder b = some con)
    (hab : (s.mem a).key = (s.mem b).key) : a = b := by
  have hfa := (h con (s.mem a).key a).mpr ⟨ha, rfl⟩
  have hfb := (h con (s.mem a).key b).mpr ⟨hb, hab.symm⟩
  exact Option.some.inj (hfa.symm.trans hfb)

section AfterGet

variable {s : PoolWorld} {con : ConId} {reply retry : MallocReply} {pick : Addr}

theorem key_afterGet_self :
    ((s.afterGet con reply retry pick).mem pick).key = (s.pool.refill reply retry).idOf pick :=
  ChunkPool.key_prepare _ _ _

/-- The entry under which `get` files the chunk. -/
theorem used_afterGet (hcon : con ≠ nullptr) (c : ConId) (k : ℤ) :
    ((s.afterGet con reply retry pick).cons c).used_chunks.find? k =
      if c = con ∧ (s.mem pick).key = k then some pick else (s.cons c).used_chunks.find? k := by
  have hcons : (s.afterGet con reply retry pick).cons =
      Function.update s.cons con ((s.cons con).log_used_chunk s.mem pick) := if_neg hcon
  rw [hcons]
  by_cases hc : c = con
  · rw [hc, Function.update_self, ConnectionImpl.log_used_chunk, StdMap.find?_assign]
    simp only [true_and]
  · rw [Function.update_of_ne hc, if_neg fun h => hc h.1]

/-- **`get` keeps the record exact if and only if it logs under the id.** -/
theorem usedExact_afterGet (hcon : con ≠ nullptr) (hfree : s.holder pick = none)
    (h : s.UsedExact) :
    (s.afterGet con reply retry pick).UsedExact ↔
      s.LoggedUnderId (.get con reply retry pick) := by
  have hself : (s.afterGet con reply retry pick).holder pick = some con := Function.update_self ..
  have hother : ∀ a, a ≠ pick → (s.afterGet con reply retry pick).holder a = s.holder a :=
    fun a ha => Function.update_of_ne ha _ _
  have hne : ∀ a c, s.holder a = some c → a ≠ pick := by
    rintro a c ha rfl
    rw [hfree] at ha
    exact absurd ha (by simp)
  constructor
  · intro ht
    have hfind : ((s.afterGet con reply retry pick).cons con).used_chunks.find? (s.mem pick).key =
        some pick := by
      rw [used_afterGet hcon, if_pos ⟨rfl, rfl⟩]
    have hkey := ((ht con _ pick).mp hfind).2
    rw [key_afterGet_self] at hkey
    refine ⟨hkey.symm, fun a ha hka => hne a con ha ?_⟩
    refine ht.inj ((hother a (hne a con ha)).trans ha) hself ?_
    rw [key_afterGet_self, mem_afterGet_of_ne _ _ _ _ (hne a con ha), hka]
  · rintro ⟨hkey, hdistinct⟩ c k ck
    rw [used_afterGet hcon]
    by_cases hck : ck = pick
    · subst hck
      rw [hself, key_afterGet_self, ← hkey, Option.some.injEq]
      constructor
      · intro hf
        split at hf
        · rename_i hc
          exact ⟨hc.1.symm, hc.2⟩
        · -- an old entry would make the chunk one that was out
          exact absurd ((h c k ck).mp hf).1 (by simp [hfree])
      · rintro ⟨rfl, rfl⟩
        rw [if_pos ⟨rfl, rfl⟩]
    · rw [hother ck hck, mem_afterGet_of_ne _ _ _ _ hck]
      by_cases hc : c = con ∧ (s.mem pick).key = k
      · rw [if_pos hc]
        constructor
        · intro hf
          exact absurd (Option.some.inj hf).symm hck
        · rintro ⟨hhold, hk⟩
          exact absurd (hk.trans (hc.2.symm.trans hkey)) (hdistinct ck (hc.1 ▸ hhold))
      · rw [if_neg hc]
        exact h c k ck

end AfterGet

/-- `reclaim` keeps the record exact. -/
theorem usedExact_reclaim {s t : PoolWorld} {ck : Addr} {con : ConId} {link : ℕ}
    (h : s.UsedExact) (hheld : s.holder ck = some con)
    (hstep : s.step (.reclaim ck con link) = some t) : t.UsedExact := by
  obtain ⟨-, -, rfl⟩ := step_reclaim hstep
  intro c k a
  rw [holder_afterReclaim]
  show (Function.update s.cons con _ c).used_chunks.find? k = some a ↔ _
  by_cases ha : a = ck
  · -- the chunk is no longer out, and no entry leads to it
    subst ha
    rw [Function.update_self]
    refine ⟨fun hf => ?_, fun hf => absurd hf.1 (by simp)⟩
    by_cases hc : c = con
    · rw [hc, Function.update_self, ConnectionImpl.remove_used_chunk,
        StdMap.find?_remove_eq_some] at hf
      exact absurd ((h con k a).mp hf.2).2.symm hf.1
    · rw [Function.update_of_ne hc] at hf
      have hholds := ((h c k a).mp hf).1
      rw [hheld, Option.some.injEq] at hholds
      exact absurd hholds.symm hc
  · rw [Function.update_of_ne ha, mem_afterReclaim_of_ne s con link ha]
    by_cases hc : c = con
    · rw [hc, Function.update_self, ConnectionImpl.remove_used_chunk, StdMap.find?_remove]
      split
      · rename_i hk
        refine ⟨fun hf => absurd hf (by simp), fun hf => absurd ?_ ha⟩
        exact h.inj hf.1 hheld (hf.2.trans hk.symm)
      · exact h con k a
    · rw [Function.update_of_ne hc]
      exact h c k a

/-- **When the record is exact.**  Along every run of a pool's connections, each
connection's `used_chunks` holds exactly the chunks it has taken and not given
back, under their ids, if and only if every `get` logs its chunk under its id. -/
theorem used_chunks_exact (mem : Mem) (domain : Addr) (size n : ℤ) (ops : List PoolOp) :
    Always properStep UsedExact (init mem domain size n) ops ↔
      Meets properStep LoggedUnderId (init mem domain size n) ops := by
  refine always_iff_meets (fun (s : PoolWorld) (h : s.Wf ∧ s.UsedExact) => h.2) ?_ ?_
    ⟨wf_init mem domain size n, usedExact_init mem domain size n⟩ ops
  · rintro s op t ⟨hwf, hused⟩ hlogged hstep
    obtain ⟨hproper, hstep⟩ := restrict_eq_some.mp hstep
    refine ⟨wf_step hwf hstep, ?_⟩
    cases op with
    | get con reply retry pick =>
      obtain ⟨hcan, -, rfl⟩ := step_get hstep
      exact (usedExact_afterGet hproper (hwf.holder_pick hcan) hused).mpr hlogged
    | get_by_id id =>
      cases hstep
      exact hused
    | reclaim ck con link => exact usedExact_reclaim hused hproper hstep
  · rintro s op t ⟨hwf, hused⟩ hstep ht
    obtain ⟨hproper, hstep⟩ := restrict_eq_some.mp hstep
    cases op with
    | get con reply retry pick =>
      obtain ⟨hcan, -, rfl⟩ := step_get hstep
      exact (usedExact_afterGet hproper (hwf.holder_pick hcan) hused).mp ht
    | get_by_id id => trivial
    | reclaim ck con link => trivial

/-- A free chunk whose first word is the link to the next free chunk, at 4232, is
logged under 4232 and gets the id 0. -/
theorem used_chunks_stale :
    ¬ Always properStep UsedExact (init (fun _ => { buffer_id := 4232 }) nullptr 8 2)
      [.get 1 ⟨4096, none⟩ ⟨nullptr, none⟩ 4096] := by
  intro h
  have hrun : (run properStep (init (fun _ => { buffer_id := 4232 }) nullptr 8 2)
      [.get 1 ⟨4096, none⟩ ⟨nullptr, none⟩ 4096]).map
        (fun t => ((t.cons 1).used_chunks.find? 4232, (t.mem 4096).key)) = some (some 4096, 0) := by
    decide +kernel
  obtain ⟨t, ht, hfields⟩ := Option.map_eq_some_iff.mp hrun
  rw [Prod.mk.injEq] at hfields
  have hkey := ((h.last ht) 1 4232 4096).mp hfields.1
  exact absurd (hfields.2.symm.trans hkey.2) (by decide)

end PoolWorld

end Hpnl
