import Hpnl.Connection.Basic

/-!
# What the destructor gives back

The destructor trusts `used_chunks` to hold the chunks that the connection has taken.
An external manager never enters any; a pool enters them under the first word of the
free chunk.  An entry filed under its chunk's own `buffer_id` is erased by the very
`reclaim` that the loop makes for it.

* `freeUsed_eq` — the loop gives back every filed chunk if no `reclaim` erases the
  current or a later entry; `own_of_valid` — the converse.
* `destroy_restores` — **a deleted connection has given back what it held, each chunk
  once, if** what it has filed, with `send_chunks`, is what it holds; and only if, when
  no chunk is filed twice or under the `buffer_id` of an earlier one.
* `destroy_leaks` — a chunk that an external manager has handed out is lost;
  a chunk that is filed as it should be invalidates the loop.
-/

namespace Hpnl

open Transition

namespace Connection

/-- The chunks that the destructor sets out to give back. -/
def filed (c : Connection) : List Addr :=
  c.used_chunks.entries.map Prod.snd ++ ConnectionWorld.sendChunks c

/-- No chunk has the `buffer_id` under which a later entry is filed. -/
def Apart (mem : Mem) (l : List (ℤ × Addr)) : Prop :=
  l.Pairwise fun e e' => (mem e.2).key ≠ e'.1

/-- No chunk has the `buffer_id` under which it is filed. -/
def Astray (mem : Mem) (l : List (ℤ × Addr)) : Prop := ∀ e ∈ l, (mem e.2).key ≠ e.1

instance (mem : Mem) (l : List (ℤ × Addr)) : Decidable (Apart mem l) :=
  inferInstanceAs (Decidable (l.Pairwise _))

instance (mem : Mem) (l : List (ℤ × Addr)) : Decidable (Astray mem l) :=
  inferInstanceAs (Decidable (∀ e ∈ l, _))

end Connection

namespace ConnectionWorld

/-- A deleted connection has given back what it held and nothing else, each chunk once,
its loop was sound, and no chunk is twice in the free list. -/
def Restored (s : ConnectionWorld) : ConnectionOp → Prop
  | .destroy con links links' => ∀ c, s.cons con = some c →
      (s.destroy c links links').valid = true ∧ (s.destroy c links links').given.Nodup ∧
        (∀ ck, ck ∈ (s.destroy c links links').given ↔ s.holder ck = some con) ∧
        (s.destroy c links links').world.chunk_mgr.free.Nodup
  | _ => True

/-- The connection that is deleted has filed what it holds, each chunk once, and no
`reclaim` will erase the current or a later entry. -/
def Settled (s : ConnectionWorld) : ConnectionOp → Prop
  | .destroy con _ _ => ∀ c, s.cons con = some c →
      c.filed.Nodup ∧ (∀ ck, ck ∈ c.filed ↔ s.holder ck = some con) ∧
        Connection.Apart s.mem c.used_chunks.entries ∧
        Connection.Astray s.mem c.used_chunks.entries
  | _ => True

/-- The connection that is deleted has filed no chunk twice, and none has the
`buffer_id` under which a later one is filed. -/
def Tidy (s : ConnectionWorld) : ConnectionOp → Prop
  | .destroy con _ _ => ∀ c, s.cons con = some c →
      c.filed.Nodup ∧ Connection.Apart s.mem c.used_chunks.entries
  | _ => True

/-! ## One `reclaim` -/

section Reclaim

variable (s : ConnectionWorld) (c : Connection) (ck : Addr) (link : ℕ)

theorem holder_reclaim : (s.reclaim c ck link).1.holder = Function.update s.holder ck none := rfl

theorem used_chunks_reclaim :
    (s.reclaim c ck link).2.used_chunks = c.used_chunks.remove (s.mem ck).key := by
  show (s.chunk_mgr.reclaim s.mem c.toConnectionImpl ck link).2.2.used_chunks = _
  rw [ChunkMgr.used_chunks_reclaim]
  rfl

theorem mem_reclaim_of_ne {a : Addr} (h : a ≠ ck) :
    (s.reclaim c ck link).1.mem a = s.mem a :=
  ChunkMgr.mem_reclaim_of_ne _ _ _ _ h

/-- An entry under another key stays. -/
theorem has_reclaim {k : ℤ} (h : (s.mem ck).key ≠ k) :
    (s.reclaim c ck link).2.used_chunks.has k = c.used_chunks.has k := by
  unfold StdMap.has
  rw [used_chunks_reclaim, StdMap.find?_remove_of_ne _ h]

/-- The entry under the chunk's own key is erased. -/
theorem has_reclaim_self : (s.reclaim c ck link).2.used_chunks.has (s.mem ck).key = false := by
  rw [StdMap.has_eq_false_iff, used_chunks_reclaim]
  exact StdMap.find?_remove_self _ _

variable {s ck}

theorem wf_reclaim (h : s.chunk_mgr.Wf s.holder) (hout : s.holder ck ≠ none) :
    (s.reclaim c ck link).1.chunk_mgr.Wf (s.reclaim c ck link).1.holder :=
  ChunkMgr.wf_reclaim h _ _ _ hout

/-- The chunks that are still to come are where they were. -/
theorem mem_reclaim_of_notMem {l : List (ℤ × Addr)} (h : ck ∉ l.map Prod.snd) {e : ℤ × Addr}
    (he : e ∈ l) : (s.reclaim c ck link).1.mem e.2 = s.mem e.2 := by
  refine mem_reclaim_of_ne s c ck link ?_
  rintro rfl
  exact h (List.mem_map_of_mem he)

theorem apart_reclaim {l : List (ℤ × Addr)} (h : ck ∉ l.map Prod.snd)
    (hl : Connection.Apart s.mem l) : Connection.Apart (s.reclaim c ck link).1.mem l := by
  refine List.Pairwise.imp_of_mem (fun {e e'} he _ hee' => ?_) hl
  rw [mem_reclaim_of_notMem c link h he]
  exact hee'

end Reclaim

/-! ## The loop over `used_chunks` -/

/-- **The loop is sound** when no `reclaim` erases the current or a later entry: it
gives back every chunk. -/
theorem freeUsed_eq {l : List (ℤ × Addr)} : ∀ (links : ℕ → ℕ) (s : ConnectionWorld)
    (c : Connection), (∀ e ∈ l, c.used_chunks.has e.1) → (l.map Prod.snd).Nodup →
    Connection.Apart s.mem l → Connection.Astray s.mem l →
    (freeUsed l links s c).valid = true ∧ (freeUsed l links s c).given = l.map Prod.snd := by
  induction l with
  | nil => intro _ _ _ _ _ _ _; exact ⟨rfl, rfl⟩
  | cons e l ih =>
    obtain ⟨k, ck⟩ := e
    intro links s c hhas hnodup hapart hastray
    obtain ⟨hnot, hnodup⟩ := List.nodup_cons.mp hnodup
    obtain ⟨hlater, hapart⟩ := List.pairwise_cons.mp hapart
    have hcur : (s.reclaim c ck (links 0)).2.used_chunks.has k = true := by
      rw [has_reclaim s c ck _ (hastray _ List.mem_cons_self)]
      exact hhas _ List.mem_cons_self
    have hrest := ih (fun i => links (i + 1)) (s.reclaim c ck (links 0)).1
      (s.reclaim c ck (links 0)).2
      (fun e he => by
        rw [has_reclaim s c ck _ (hlater e he)]
        exact hhas e (List.mem_cons_of_mem _ he))
      hnodup (apart_reclaim c _ hnot hapart)
      (fun e he => by
        rw [mem_reclaim_of_notMem c _ hnot he]
        exact hastray e (List.mem_cons_of_mem _ he))
    rw [freeUsed, if_pos (hhas _ List.mem_cons_self)]
    dsimp only
    rw [if_pos hcur]
    exact ⟨hrest.1, congrArg (ck :: ·) hrest.2⟩

/-- A loop that is sound has met no chunk that is filed under its own `buffer_id`, if
it has met them all. -/
theorem own_of_valid {l : List (ℤ × Addr)} : ∀ (links : ℕ → ℕ) (s : ConnectionWorld)
    (c : Connection), (∀ e ∈ l, c.used_chunks.has e.1) → (l.map Prod.snd).Nodup →
    Connection.Apart s.mem l → (freeUsed l links s c).valid = true →
    Connection.Astray s.mem l := by
  induction l with
  | nil => intro _ _ _ _ _ _ _ e he; exact absurd he List.not_mem_nil
  | cons e l ih =>
    obtain ⟨k, ck⟩ := e
    intro links s c hhas hnodup hapart hvalid
    obtain ⟨hnot, hnodup⟩ := List.nodup_cons.mp hnodup
    obtain ⟨hlater, hapart⟩ := List.pairwise_cons.mp hapart
    rw [freeUsed, if_pos (hhas _ List.mem_cons_self)] at hvalid
    dsimp only at hvalid
    split at hvalid
    · rename_i hcur
      have hrest := ih (fun i => links (i + 1)) (s.reclaim c ck (links 0)).1
        (s.reclaim c ck (links 0)).2
        (fun e he => by
          rw [has_reclaim s c ck _ (hlater e he)]
          exact hhas e (List.mem_cons_of_mem _ he))
        hnodup (apart_reclaim c _ hnot hapart) hvalid
      intro e he
      rcases List.mem_cons.mp he with rfl | he
      · intro hkey
        obtain rfl : (s.mem ck).key = k := hkey
        rw [has_reclaim_self] at hcur
        exact absurd hcur (by simp)
      · rw [← mem_reclaim_of_notMem c (links 0) hnot he]
        exact hrest e he
    · exact absurd hvalid (by simp)

/-- The loop keeps the manager in order, as long as it meets no chunk twice and only
chunks that are out; other chunks stay out. -/
theorem wf_freeUsed {l : List (ℤ × Addr)} : ∀ (links : ℕ → ℕ) (s : ConnectionWorld)
    (c : Connection), s.chunk_mgr.Wf s.holder → (l.map Prod.snd).Nodup →
    (∀ ck ∈ l.map Prod.snd, s.holder ck ≠ none) →
    (freeUsed l links s c).world.chunk_mgr.Wf (freeUsed l links s c).world.holder ∧
      ∀ ck ∉ l.map Prod.snd, (freeUsed l links s c).world.holder ck = s.holder ck := by
  induction l with
  | nil => intro _ _ _ h _ _; exact ⟨h, fun _ _ => rfl⟩
  | cons e l ih =>
    obtain ⟨k, ck⟩ := e
    intro links s c h hnodup hout
    obtain ⟨hnot, hnodup⟩ := List.nodup_cons.mp hnodup
    have hwf := wf_reclaim c (links 0) h (hout ck List.mem_cons_self)
    have hother : ∀ a, a ≠ ck → (s.reclaim c ck (links 0)).1.holder a = s.holder a :=
      fun a ha => Function.update_of_ne ha _ _
    unfold freeUsed
    split
    · dsimp only
      split
      · have hrest := ih (fun i => links (i + 1)) _ (s.reclaim c ck (links 0)).2
          hwf hnodup (fun a ha => by
            rw [hother a (by rintro rfl; exact hnot ha)]
            exact hout a (List.mem_cons_of_mem _ ha))
        refine ⟨hrest.1, fun a ha => ?_⟩
        exact (hrest.2 a (List.not_mem_of_not_mem_cons ha)).trans
          (hother a (List.ne_of_not_mem_cons ha))
      · exact ⟨hwf, fun a ha => hother a (List.ne_of_not_mem_cons ha)⟩
    · have hrest := ih links s c h hnodup (fun a ha => hout a (List.mem_cons_of_mem _ ha))
      exact ⟨hrest.1, fun a ha => hrest.2 a (List.not_mem_of_not_mem_cons ha)⟩

theorem wf_freeSend {l : List Addr} : ∀ (links : ℕ → ℕ) (s : ConnectionWorld) (c : Connection),
    s.chunk_mgr.Wf s.holder → l.Nodup → (∀ ck ∈ l, s.holder ck ≠ none) →
    (freeSend l links s c).chunk_mgr.Wf (freeSend l links s c).holder := by
  induction l with
  | nil => intro _ _ _ h _ _; exact h
  | cons ck l ih =>
    intro links s c h hnodup hout
    obtain ⟨hnot, hnodup⟩ := List.nodup_cons.mp hnodup
    refine ih _ _ _ (wf_reclaim c (links 0) h (hout ck List.mem_cons_self)) hnodup fun a ha => ?_
    show (s.reclaim c ck (links 0)).1.holder a ≠ none
    rw [holder_reclaim, Function.update_of_ne (by rintro rfl; exact hnot ha)]
    exact hout a (List.mem_cons_of_mem _ ha)

/-! ## The destructor -/

theorem has_of_mem_entries {c : Connection} : ∀ e ∈ c.used_chunks.entries,
    c.used_chunks.has e.1 = true :=
  fun e he => StdMap.has_eq_true_iff.mpr ⟨e.2, StdMap.mem_entries.mp he⟩

/-- The destructor keeps the manager in order when it gives back chunks that are out,
each once. -/
theorem wf_destroy {s : ConnectionWorld} {c : Connection} (h : s.chunk_mgr.Wf s.holder)
    (hnodup : c.filed.Nodup) (hout : ∀ ck ∈ c.filed, s.holder ck ≠ none) (links links' : ℕ → ℕ) :
    (s.destroy c links links').world.chunk_mgr.Wf (s.destroy c links links').world.holder := by
  obtain ⟨hused, hsend, hdisjoint⟩ := List.nodup_append.mp hnodup
  obtain ⟨hwf, hother⟩ := wf_freeUsed links s c h hused
    fun ck hck => hout ck (List.mem_append_left _ hck)
  unfold destroy
  dsimp only
  split
  · refine wf_freeSend _ _ _ hwf hsend fun ck hck => ?_
    rw [hother ck fun hin => hdisjoint ck hin ck hck rfl]
    exact hout ck (List.mem_append_right _ hck)
  · exact hwf

/-- What a sound destructor gives back. -/
theorem destroy_eq {s : ConnectionWorld} {c : Connection} (hnodup : c.filed.Nodup)
    (hapart : Connection.Apart s.mem c.used_chunks.entries)
    (hastray : Connection.Astray s.mem c.used_chunks.entries) (links links' : ℕ → ℕ) :
    (s.destroy c links links').valid = true ∧ (s.destroy c links links').given = c.filed := by
  obtain ⟨hvalid, hgiven⟩ := freeUsed_eq links s c has_of_mem_entries
    (List.nodup_append.mp hnodup).1 hapart hastray
  rw [destroy, if_pos hvalid]
  exact ⟨hvalid, by rw [hgiven]; rfl⟩

/-- A destructor that is sound has a sound first loop. -/
theorem valid_freeUsed {s : ConnectionWorld} {c : Connection} {links links' : ℕ → ℕ}
    (hvalid : (s.destroy c links links').valid = true) :
    (freeUsed c.used_chunks.entries links s c).valid = true := by
  unfold destroy at hvalid
  dsimp only at hvalid
  split at hvalid
  · rename_i hused
    exact hused
  · exact hvalid

theorem restored_of_settled {s : ConnectionWorld} {op : ConnectionOp}
    (h : s.chunk_mgr.Wf s.holder) (hset : s.Settled op) : s.Restored op := by
  cases op with
  | destroy con links links' =>
    intro c hc
    obtain ⟨hnodup, hheld, hapart, hastray⟩ := hset c hc
    obtain ⟨hvalid, hgiven⟩ := destroy_eq hnodup hapart hastray links links'
    refine ⟨hvalid, hgiven ▸ hnodup, fun ck => hgiven ▸ hheld ck, ?_⟩
    refine (wf_destroy h hnodup (fun ck hck => ?_) links links').nodup
    rw [(hheld ck).mp hck]
    exact Option.some_ne_none con
  | _ => trivial

theorem settled_of_restored {s : ConnectionWorld} {op : ConnectionOp} (htidy : s.Tidy op)
    (hres : s.Restored op) : s.Settled op := by
  cases op with
  | destroy con links links' =>
    intro c hc
    obtain ⟨hnodup, hapart⟩ := htidy c hc
    obtain ⟨hvalid, -, hheld, -⟩ := hres c hc
    have hastray := own_of_valid links s c has_of_mem_entries (List.nodup_append.mp hnodup).1 hapart
      (valid_freeUsed hvalid)
    have hgiven := (destroy_eq hnodup hapart hastray links links').2
    exact ⟨hnodup, fun ck => hgiven ▸ hheld ck, hapart, hastray⟩
  | _ => trivial

/-! ## Steps -/

theorem wf_get {s t : ConnectionWorld} {con : ConId} {c c' : Connection} {r : GetReply} {ck : Addr}
    (h : s.chunk_mgr.Wf s.holder) (hget : s.get con c r = some (t, c', ck)) :
    t.chunk_mgr.Wf t.holder := by
  unfold get at hget
  split at hget
  · rename_i hans
    obtain ⟨⟨mgr, mem, impl, a⟩, hmgr, heq⟩ := Option.map_eq_some_iff.mp hget
    cases heq
    exact ChunkMgr.wf_get h hans hmgr con
  · exact absurd hget (by simp)

/-- The rounds of `init` touch the manager only through `get`. -/
theorem wf_round {s t : ConnectionWorld} {con : ConId} {c : Connection} {n : ℕ} {r : GetReply}
    (fab : FabricReply) (h : s.chunk_mgr.Wf s.holder)
    (hround : s.msgRecv con c n r fab = some t ∨ s.msgSend con c n r fab = some t ∨
      s.rdmRecv con c n r fab = some t ∨ s.rdmSend con c n r = some t) :
    t.chunk_mgr.Wf t.holder := by
  rcases hround with hround | hround | hround | hround
  · obtain ⟨⟨u, c', ck⟩, hget, rfl⟩ := Option.map_eq_some_iff.mp hround
    have hu := wf_get h hget
    dsimp only
    split_ifs <;> exact hu
  · obtain ⟨⟨u, c', ck⟩, hget, rfl⟩ := Option.map_eq_some_iff.mp hround
    have hu := wf_get h hget
    dsimp only
    split_ifs <;> exact hu
  · unfold rdmRecv at hround
    dsimp only at hround
    split at hround
    · cases hround
      exact h
    · obtain ⟨⟨u, c', ck⟩, hget, hround⟩ := Option.bind_eq_some_iff.mp hround
      have hu := wf_get h hget
      dsimp only at hround
      split_ifs at hround <;> cases hround <;> exact hu
  · unfold rdmSend at hround
    split at hround
    · cases hround
      exact h
    · obtain ⟨⟨u, c', ck⟩, hget, hround⟩ := Option.bind_eq_some_iff.mp hround
      have hu := wf_get h hget
      dsimp only at hround
      split_ifs at hround
      cases hround
      exact hu

/-- **A step keeps the manager in order**, a deletion if it is settled. -/
theorem wf_step {s t : ConnectionWorld} {op : ConnectionOp} (h : s.chunk_mgr.Wf s.holder)
    (hset : s.Settled op) (hstep : s.step op = some t) : t.chunk_mgr.Wf t.holder := by
  cases op with
  | construct con kind external_service buffer_num =>
    rw [step] at hstep
    split at hstep
    · cases hstep
      exact h
    · exact absurd hstep (by simp)
  | «open» con ok =>
    obtain ⟨c, -, hstep⟩ := Option.bind_eq_some_iff.mp hstep
    split at hstep
    · cases hstep
      exact h
    · exact absurd hstep (by simp)
  | init_recv con r fab =>
    obtain ⟨c, -, hstep⟩ := Option.bind_eq_some_iff.mp hstep
    split at hstep
    · exact wf_round fab h (Or.inl hstep)
    · exact wf_round fab h (Or.inr (Or.inr (Or.inl hstep)))
    · exact absurd hstep (by simp)
  | init_send con r fab =>
    obtain ⟨c, -, hstep⟩ := Option.bind_eq_some_iff.mp hstep
    split at hstep
    · exact wf_round fab h (Or.inr (Or.inl hstep))
    · exact wf_round fab h (Or.inr (Or.inr (Or.inr hstep)))
    · exact absurd hstep (by simp)
  | get con r =>
    obtain ⟨c, -, hstep⟩ := Option.bind_eq_some_iff.mp hstep
    obtain ⟨⟨u, c', ck⟩, hget, rfl⟩ := Option.map_eq_some_iff.mp hstep
    have hu := wf_get h hget
    exact hu
  | send con ck size =>
    rw [step] at hstep
    split at hstep
    · cases hstep
      exact h
    · exact absurd hstep (by simp)
  | reclaim con ck link =>
    obtain ⟨c, -, hstep⟩ := Option.bind_eq_some_iff.mp hstep
    split at hstep
    · rename_i hheld
      cases hstep
      exact wf_reclaim c link h (by rw [hheld]; exact Option.some_ne_none con)
    · exact absurd hstep (by simp)
  | set_buffer ck buffer =>
    rw [step] at hstep
    split at hstep
    · rename_i hnew
      obtain ⟨mgr, hmgr, rfl⟩ := Option.map_eq_some_iff.mp hstep
      exact ChunkMgr.wf_set_buffer h hnew.1 hnew.2 hmgr
    · exact absurd hstep (by simp)
  | destroy con links links' =>
    obtain ⟨c, hc, hstep⟩ := Option.bind_eq_some_iff.mp hstep
    split at hstep
    · cases hstep
      obtain ⟨hnodup, hheld, -⟩ := hset c hc
      refine wf_destroy h hnodup (fun ck hck => ?_) links links'
      rw [(hheld ck).mp hck]
      exact Option.some_ne_none con
    · exact absurd hstep (by simp)

/-! ## Runs -/

theorem wf_init_pool (mem : Mem) (domain : Addr) (size n : ℤ) :
    (ChunkMgr.pool (ChunkPool.new domain size n)).Wf fun _ => none :=
  ChunkMgr.wf_pool_iff.mp (PoolWorld.wf_init mem domain size n)

theorem wf_init_external : (ChunkMgr.external {}).Wf fun _ => none :=
  ⟨List.nodup_nil, fun _ h => absurd h List.not_mem_nil⟩

/-- A manager as it is constructed; the constructor of an external manager with sizes
enters its chunks as `set_buffer` does. -/
inductive New : ChunkMgr → Prop where
  | pool (domain : Addr) (size n : ℤ) : New (.pool (ChunkPool.new domain size n))
  | external : New (.external {})

/-- **When deletions give back what is held.**  From a new manager of either kind, in
every run whose deletions are settled, every deleted connection gives back what it
holds and nothing else, each chunk once, its loop is sound, and no chunk is twice in
the free list afterwards.  In runs whose deletions are tidy these are the only ones. -/
theorem destroy_restores (mem : Mem) {mgr : ChunkMgr} (hnew : New mgr)
    (ops : List ConnectionOp) :
    (Meets step Settled (init mem mgr) ops → Meets step Restored (init mem mgr) ops) ∧
      (Meets step Tidy (init mem mgr) ops → Meets step Restored (init mem mgr) ops →
        Meets step Settled (init mem mgr) ops) := by
  have hinit : (init mem mgr).chunk_mgr.Wf (init mem mgr).holder := by
    cases hnew with
    | pool domain size n => exact wf_init_pool mem domain size n
    | external => exact wf_init_external
  constructor
  · exact meets_of_meets (fun s op t h hset hstep => wf_step h hset hstep)
      (fun s op t h hset _ => restored_of_settled h hset) hinit ops
  · intro htidy hres
    exact meets_of_meets (fun _ _ _ _ _ _ => trivial)
      (fun s op t _ hg _ => settled_of_restored hg.1 hg.2) trivial ops (htidy.and hres)

/-- On a pool the deletion can be checked block by block, since what is held lies in one. -/
theorem settled_of_blocks {s : ConnectionWorld} {p : ChunkPool} {con : ConId} {c : Connection}
    {links links' : ℕ → ℕ} (h : s.chunk_mgr.Wf s.holder) (hmgr : s.chunk_mgr = .pool p)
    (hc : s.cons con = some c) (hnodup : c.filed.Nodup)
    (hheld : ∀ ck ∈ c.filed, s.holder ck = some con)
    (hfiled : ∀ b ∈ p.blocks, ∀ i < p.blockBytes b.2,
      s.holder (b.1 + i) = some con → b.1 + i ∈ c.filed)
    (hapart : Connection.Apart s.mem c.used_chunks.entries)
    (hastray : Connection.Astray s.mem c.used_chunks.entries) :
    s.Settled (.destroy con links links') := by
  intro d hd
  obtain rfl : c = d := Option.some.inj (hc.symm.trans hd)
  refine ⟨hnodup, fun ck => ⟨hheld ck, fun hck => ?_⟩, hapart, hastray⟩
  rw [hmgr] at h
  have hout : s.holder ck ≠ none := by
    rw [hck]
    exact Option.some_ne_none con
  obtain ⟨b, hb, hlo, hhi⟩ := PoolWorld.Wf.owns_out h ck hout
  obtain ⟨i, rfl⟩ := Nat.exists_eq_add_of_le hlo
  exact hfiled b hb i (Nat.lt_of_add_lt_add_left hhi) hck

/-- A connection on a pool with two chunks posts one of them as a receive, and takes the
other one for a send. -/
def heldRun : List ConnectionOp :=
  [.construct 1 .msg false 1, .open 1 true,
    .init_recv 1 ⟨⟨4096, none⟩, ⟨nullptr, none⟩, 4096⟩ ⟨none, true⟩,
    .get 1 ⟨⟨nullptr, none⟩, ⟨nullptr, none⟩, 4232⟩]

/-- The free chunk at 4096 links to the one at 4232, which is the last. -/
def linkedMem : Mem := fun a => if a = 4096 then { buffer_id := 4232 } else {}

/-- The connection is deleted while it holds both: they are filed under the links they had. -/
theorem destroy_restores_held :
    Meets step Restored (init linkedMem (.pool (ChunkPool.new nullptr 8 2)))
        (heldRun ++ [.destroy 1 id id]) ∧
      (run step (init linkedMem (.pool (ChunkPool.new nullptr 8 2))) heldRun).map
        (fun t => (t.holder 4096, t.holder 4232, t.chunk_mgr.free)) =
          some (some 1, some 1, []) ∧
      (run step (init linkedMem (.pool (ChunkPool.new nullptr 8 2)))
        (heldRun ++ [.destroy 1 id id])).map
          (fun t => (t.holder 4096, t.holder 4232, t.chunk_mgr.free)) =
            some (none, none, [4096, 4232]) := by
  refine ⟨(destroy_restores _ (New.pool nullptr 8 2) _).1 ?_, by decide +kernel, by decide +kernel⟩
  have hbefore :
      Meets step Settled (init linkedMem (.pool (ChunkPool.new nullptr 8 2))) heldRun := by
    refine meets_of_forall fun op hop w => ?_
    simp only [heldRun, List.mem_cons, List.not_mem_nil, or_false] at hop
    rcases hop with rfl | rfl | rfl | rfl <;> trivial
  refine hbefore.append fun t ht _ _ => ⟨?_, trivial⟩
  have hwf : t.chunk_mgr.Wf t.holder :=
    (always_of_meets (fun _ _ _ h hset hstep => wf_step h hset hstep)
      (wf_init_pool linkedMem nullptr 8 2) hbefore).last ht
  have hrun : (run step (init linkedMem (.pool (ChunkPool.new nullptr 8 2))) heldRun).map
      (fun t => match t.chunk_mgr, t.cons 1 with
        | .pool p, some c => decide (c.filed.Nodup ∧ (∀ ck ∈ c.filed, t.holder ck = some 1) ∧
            (∀ b ∈ p.blocks, ∀ i < p.blockBytes b.2,
              t.holder (b.1 + i) = some 1 → b.1 + i ∈ c.filed) ∧
            Connection.Apart t.mem c.used_chunks.entries ∧
            Connection.Astray t.mem c.used_chunks.entries)
        | _, _ => false) = some true := by
    decide +kernel
  rw [ht, Option.map_some, Option.some.injEq] at hrun
  split at hrun
  · rename_i p c hmgr hc
    obtain ⟨hnodup, hheld, hfiled, hapart, hastray⟩ := of_decide_eq_true hrun
    exact settled_of_blocks hwf hmgr hc hnodup hheld hfiled hapart hastray
  · cases hrun

/-- An external connection with one receive chunk, 100, and one send chunk, 200. -/
def externalRun : List ConnectionOp :=
  [.set_buffer 200 { buffer_id := 1 }, .set_buffer 100 { buffer_id := 0 },
    .construct 1 .msg true 1, .open 1 true,
    .init_recv 1 ⟨⟨0, none⟩, ⟨0, none⟩, 0⟩ ⟨some 7, true⟩,
    .init_send 1 ⟨⟨0, none⟩, ⟨0, none⟩, 0⟩ ⟨some 7, true⟩]

/-- A connection on a pool whose one chunk, at 4096, has its id in its first word. -/
def pooledRun : List ConnectionOp :=
  [.construct 1 .msg false 1, .open 1 true,
    .init_recv 1 ⟨⟨4096, none⟩, ⟨nullptr, none⟩, 4096⟩ ⟨none, true⟩]

/-- The external connection does not give its receive chunk back; the loop over the
other one's `used_chunks` moves on from an entry that it has erased. -/
theorem destroy_leaks :
    ¬ Meets step Restored (init (fun _ => {}) (.external {}))
        (externalRun ++ [.destroy 1 id id]) ∧
      ¬ Meets step Restored (init (fun _ => {}) (.pool (ChunkPool.new nullptr 8 1)))
        (pooledRun ++ [.destroy 1 id id]) := by
  constructor
  · intro h
    have hrun : (run step (init (fun _ => {}) (.external {})) externalRun).map (fun t =>
        (t.holder 100, (t.cons 1).map fun c => (t.destroy c id id).given,
          (t.step (.destroy 1 id id)).isSome)) = some (some 1, some [200], true) := by
      decide +kernel
    obtain ⟨t, ht, hfields⟩ := Option.map_eq_some_iff.mp hrun
    simp only [Prod.mk.injEq] at hfields
    obtain ⟨hheld, hgiven, hstep⟩ := hfields
    obtain ⟨c, hc, hgiven⟩ := Option.map_eq_some_iff.mp hgiven
    obtain ⟨u, hu⟩ := Option.isSome_iff_exists.mp hstep
    have hin := ((h.at_step ht hu) c hc).2.2.1 100
    rw [hgiven] at hin
    exact absurd (hin.mpr hheld) (by decide)
  · intro h
    have hrun : (run step (init (fun _ => {}) (.pool (ChunkPool.new nullptr 8 1))) pooledRun).map
        (fun t => ((t.cons 1).map fun c => (t.destroy c id id).valid,
          (t.step (.destroy 1 id id)).isSome)) = some (some false, true) := by
      decide +kernel
    obtain ⟨t, ht, hfields⟩ := Option.map_eq_some_iff.mp hrun
    simp only [Prod.mk.injEq] at hfields
    obtain ⟨hvalid, hstep⟩ := hfields
    obtain ⟨c, hc, hvalid⟩ := Option.map_eq_some_iff.mp hvalid
    obtain ⟨u, hu⟩ := Option.isSome_iff_exists.mp hstep
    have htrue := ((h.at_step ht hu) c hc).1
    rw [hvalid] at htrue
    exact absurd htrue (by decide)

end ConnectionWorld

end Hpnl
