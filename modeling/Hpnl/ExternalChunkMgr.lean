import Hpnl.ChunkMgr

/-!
# What a chunk manager is for, and the external manager

Connections use a `ChunkMgr` without knowing which one it is (`include/HPNL/ChunkMgr.h`).
`ManagerSpec` is what they rely on: chunks are added under ids, handed out to a connection or
to nobody in particular, and taken back.  `ExternalMgrWorld` is an `ExternalChunkMgr`
(`src/chunk/ExternalChunkMgr.cc`) with the connections that use it, run next to the
specification.

* `ManagerSpec` — the abstract manager; `ExternalMgrWorld.step` — the code and the
  specification take each call together.
* `FreeExact`, `ById`, `UsedExact` — the free list holds exactly the chunks not handed out;
  an id leads to the chunk added under it; each connection's record is what it has.
* `freeExact_always` — **the free list is exact** in every run.
* `refines_iff_meets` — **the manager refines the specification along a run if and only if** no
  `get(con)` finds a chunk and no id is looked up before its chunk is added.
-/

namespace Hpnl

open MachineInt Transition

/-! ## The specification -/

/-- The abstract chunk manager: the chunk added under each id, and to whom a chunk is handed
out (`some none` is nobody in particular). -/
structure ManagerSpec where
  chunk : ℤ → Option Addr
  holder : Addr → Option (Option ConId)

namespace ManagerSpec

/-- The chunk has been added. -/
def Added (m : ManagerSpec) (ck : Addr) : Prop := ∃ id, m.chunk id = some ck

/-- The chunk can be handed out. -/
def Free (m : ManagerSpec) (ck : Addr) : Prop := m.Added ck ∧ m.holder ck = none

def add (m : ManagerSpec) (id : ℤ) (ck : Addr) : ManagerSpec :=
  { m with chunk := Function.update m.chunk id (some ck) }

def handOut (m : ManagerSpec) (ck : Addr) (con : Option ConId) : ManagerSpec :=
  { m with holder := Function.update m.holder ck (some con) }

def takeBack (m : ManagerSpec) (ck : Addr) : ManagerSpec :=
  { m with holder := Function.update m.holder ck none }

end ManagerSpec

/-! ## Runs -/

/-- An external manager, the chunk headers and the connections.  `chunks` lists the chunks
that have been added, and `spec` is the specification, which takes every call along.
`crashed` tells that a null connection has been dereferenced. -/
structure ExternalMgrWorld where
  mem : Mem
  mgr : ExternalChunkMgr
  cons : ConId → ConnectionImpl
  chunks : List Addr
  spec : ManagerSpec
  crashed : Bool

/-- A call.  `add` is `set_buffer`, and each turn of the loop in the constructor with sizes. -/
inductive ExternalMgrOp where
  | add (ck : Addr) (header : Chunk)
  | get (con : ConId)
  | get_by_id (id : ℤ)
  | reclaim (ck : Addr) (con : ConId)
  deriving DecidableEq, Repr

namespace ExternalMgrWorld

/-- An empty manager. -/
def init (mem : Mem) : ExternalMgrWorld :=
  { mem := mem
    mgr := {}
    cons := fun _ => {}
    chunks := []
    spec := { chunk := fun _ => none, holder := fun _ => none }
    crashed := false }

/-- A connection argument, which may be null. -/
def conArg (con : ConId) : Option ConId := if con = nullptr then none else some con

/-- The connection behind it. -/
def conAt (w : ExternalMgrWorld) (con : ConId) : Option ConnectionImpl :=
  (conArg con).map w.cons

/-- What a call has done to the connection. -/
def putBack (w : ExternalMgrWorld) (con : ConId) (c : Option ConnectionImpl) :
    ConId → ConnectionImpl :=
  (c.map fun c => Function.update w.cons con c).getD w.cons

/-- One call.  Chunks that are added are new, under ids that are new; only chunks that are out
are reclaimed.  Nothing happens after a crash. -/
def step (w : ExternalMgrWorld) (op : ExternalMgrOp) : Option ExternalMgrWorld :=
  if w.crashed then none
  else
    match op with
    | .add ck header =>
        if ck ≠ nullptr ∧ ck ∉ w.chunks ∧ w.spec.chunk header.key = none then
          let mem := Function.update w.mem ck header
          some { w with
            mem := mem
            mgr := (w.mgr.reclaim mem ck none).1
            chunks := ck :: w.chunks
            spec := w.spec.add header.key ck }
        else none
    | .get con =>
        match w.mgr.get (w.conAt con) with
        | none => some { w with crashed := true }
        | some (mgr, c, ck) =>
            some { w with
              mgr := mgr
              cons := w.putBack con c
              spec := if ck = nullptr then w.spec else w.spec.handOut ck (conArg con) }
    | .get_by_id id => some { w with mgr := (w.mgr.get_by_id id).1 }
    | .reclaim ck con =>
        if w.spec.holder ck ≠ none then
          let (mgr, c) := w.mgr.reclaim w.mem ck (w.conAt con)
          some { w with
            mgr := mgr
            cons := w.putBack con c
            spec := w.spec.takeBack ck }
        else none

/-! ## What the specification asks -/

/-- The free list holds exactly the chunks that can be handed out, each once. -/
def FreeExact (w : ExternalMgrWorld) : Prop :=
  w.mgr.bufs.Nodup ∧ ∀ ck, ck ∈ w.mgr.bufs ↔ w.spec.Free ck

/-- `get(id)` returns the chunk added under the id. -/
def ById (w : ExternalMgrWorld) : Prop :=
  ∀ id ck, w.spec.chunk id = some ck → (w.mgr.get_by_id id).2 = ck

/-- A connection's `used_chunks` holds exactly the chunks handed out to it, under their ids. -/
def UsedExact (w : ExternalMgrWorld) : Prop :=
  ∀ con, con ≠ nullptr → ∀ k ck, (w.cons con).used_chunks.find? k = some ck ↔
    w.spec.holder ck = some (some con) ∧ (w.mem ck).key = k

/-- The code stands for the specification, and no null connection has been dereferenced. -/
structure Refines (w : ExternalMgrWorld) : Prop where
  free : w.FreeExact
  by_id : w.ById
  used : w.UsedExact
  alive : w.crashed = false

/-- **The condition.**  `get(con)` finds no chunk, and the id of a chunk that is added has not
been looked up before. -/
def Guard (w : ExternalMgrWorld) : ExternalMgrOp → Prop
  | .get _ => w.mgr.bufs = []
  | .add _ header => w.mgr.buf_map.find? header.key = none
  | _ => True

instance (w : ExternalMgrWorld) : DecidablePred w.Guard
  | .add .. => by unfold Guard; infer_instance
  | .get _ => by unfold Guard; infer_instance
  | .get_by_id _ => isTrue trivial
  | .reclaim .. => isTrue trivial

/-! ## The free list -/

/-- What every call keeps: the free list is exact, and the specification knows the chunks
that have been added, each under its id. -/
structure Sound (w : ExternalMgrWorld) : Prop where
  free : w.FreeExact
  chunks : ∀ ck, ck ∈ w.chunks ↔ w.spec.Added ck
  key : ∀ id ck, w.spec.chunk id = some ck → ck ≠ nullptr ∧ (w.mem ck).key = id
  held : ∀ ck, w.spec.holder ck ≠ none → w.spec.Added ck

theorem sound_init (mem : Mem) : (init mem).Sound where
  free := by simp [FreeExact, init, ManagerSpec.Free, ManagerSpec.Added]
  chunks := by simp [init, ManagerSpec.Added]
  key := by simp [init]
  held := by simp [init]

section

variable {w w' : ExternalMgrWorld} {op : ExternalMgrOp}

/-- **What a call does**, one case for each of its outcomes. -/
theorem step_cases (h : w.step op = some w') : w.crashed = false ∧
    ((∃ ck header, op = .add ck header ∧ ck ≠ nullptr ∧ ck ∉ w.chunks ∧
        w.spec.chunk header.key = none ∧
        w' = { w with
          mem := Function.update w.mem ck header
          mgr := { bufs := ck :: w.mgr.bufs
                   buf_map := w.mgr.buf_map.insertNew header.key ck }
          chunks := ck :: w.chunks
          spec := w.spec.add header.key ck }) ∨
      (∃ con, op = .get con ∧ w.mgr.bufs = [] ∧ w' = w) ∨
      (∃ con ck bufs, op = .get con ∧ w.mgr.bufs = ck :: bufs ∧ con = nullptr ∧
        w' = { w with crashed := true }) ∨
      (∃ con ck bufs, op = .get con ∧ w.mgr.bufs = ck :: bufs ∧ con ≠ nullptr ∧
        w' = { w with
          mgr := { w.mgr with bufs := bufs }
          spec := if ck = nullptr then w.spec else w.spec.handOut ck (some con) }) ∨
      (∃ id, op = .get_by_id id ∧ w' = { w with mgr := (w.mgr.get_by_id id).1 }) ∨
      ∃ ck con, op = .reclaim ck con ∧ w.spec.holder ck ≠ none ∧
        w' = { w with
          mgr := (w.mgr.reclaim w.mem ck (w.conAt con)).1
          cons := w.putBack con (w.mgr.reclaim w.mem ck (w.conAt con)).2
          spec := w.spec.takeBack ck }) := by
  unfold step at h
  split at h
  · cases h
  rename_i hcrash
  refine ⟨by simpa using hcrash, ?_⟩
  cases op with
  | add ck header =>
    simp only at h
    split at h
    · rename_i hck
      cases h
      have hkey : Function.update w.mem ck header ck = header := Function.update_self ..
      refine Or.inl ⟨ck, header, rfl, hck.1, hck.2.1, hck.2.2, ?_⟩
      simp only [ExternalChunkMgr.reclaim, hkey]
    · cases h
  | get con =>
    simp only at h
    cases hb : w.mgr.bufs with
    | nil =>
      have hget : w.mgr.get (w.conAt con) = some (w.mgr, w.conAt con, nullptr) := by
        rw [ExternalChunkMgr.get, hb]
      have hback : w.putBack con (w.conAt con) = w.cons := by
        unfold putBack conAt conArg
        split
        · rfl
        · exact Function.update_eq_self con w.cons
      rw [hget] at h
      simp only [if_true, hback, Option.some.injEq] at h
      exact Or.inr (Or.inl ⟨con, rfl, rfl, h.symm⟩)
    | cons ck bufs =>
      by_cases hcon : con = nullptr
      · have hget : w.mgr.get (w.conAt con) = none := by
          rw [ExternalChunkMgr.get, hb, conAt, conArg, if_pos hcon]
          rfl
        rw [hget] at h
        cases h
        exact Or.inr (Or.inr (Or.inl ⟨con, ck, bufs, rfl, rfl, hcon, rfl⟩))
      · have hget : w.mgr.get (w.conAt con) =
            some ({ w.mgr with bufs := bufs }, some (w.cons con), ck) := by
          rw [ExternalChunkMgr.get, hb, conAt, conArg, if_neg hcon]
          rfl
        have hback : w.putBack con (some (w.cons con)) = w.cons :=
          Function.update_eq_self con w.cons
        rw [hget] at h
        simp only [hback, conArg, if_neg hcon, Option.some.injEq] at h
        exact Or.inr (Or.inr (Or.inr (Or.inl ⟨con, ck, bufs, rfl, rfl, hcon, h.symm⟩)))
  | get_by_id id =>
    cases h
    exact Or.inr (Or.inr (Or.inr (Or.inr (Or.inl ⟨id, rfl, rfl⟩))))
  | reclaim ck con =>
    simp only at h
    split at h
    · rename_i hck
      cases h
      exact Or.inr (Or.inr (Or.inr (Or.inr (Or.inr ⟨ck, con, rfl, hck, rfl⟩))))
    · cases h

/-- Adding a chunk under an id without one. -/
theorem added_add {m : ManagerSpec} {id : ℤ} {ck : Addr} (hid : m.chunk id = none) (a : Addr) :
    (m.add id ck).Added a ↔ a = ck ∨ m.Added a := by
  constructor
  · rintro ⟨j, hj⟩
    rcases of_update hj with ⟨-, hck⟩ | ⟨-, hj⟩
    · exact Or.inl (Option.some.inj hck).symm
    · exact Or.inr ⟨j, hj⟩
  · rintro (rfl | ⟨j, hj⟩)
    · exact ⟨id, Function.update_self ..⟩
    · have hji : j ≠ id := by
        rintro rfl
        exact absurd (hid.symm.trans hj) (by simp)
      exact ⟨j, (Function.update_of_ne hji _ _).trans hj⟩

/-- A new chunk. -/
theorem sound_add (h : w.Sound) {ck : Addr} {header : Chunk} {buf_map : StdMap ℤ Addr}
    (hnull : ck ≠ nullptr) (hnew : ck ∉ w.chunks) (hid : w.spec.chunk header.key = none) :
    Sound { w with
      mem := Function.update w.mem ck header
      mgr := { bufs := ck :: w.mgr.bufs, buf_map := buf_map }
      chunks := ck :: w.chunks
      spec := w.spec.add header.key ck } := by
  have hadded : ¬ w.spec.Added ck := fun hck => hnew ((h.chunks ck).mpr hck)
  have hout : w.spec.holder ck = none := by
    by_contra hne
    exact hadded (h.held ck hne)
  refine ⟨⟨?_, fun a => ?_⟩, fun a => ?_, fun id a ha => ?_, fun a ha => ?_⟩
  · exact List.nodup_cons.mpr ⟨fun hck => hadded ((h.free.2 ck).mp hck).1, h.free.1⟩
  · rw [List.mem_cons, ManagerSpec.Free, added_add hid, h.free.2 a, ManagerSpec.Free]
    constructor
    · rintro (rfl | ⟨ha, hnone⟩)
      · exact ⟨Or.inl rfl, hout⟩
      · exact ⟨Or.inr ha, hnone⟩
    · rintro ⟨rfl | ha, hnone⟩
      · exact Or.inl rfl
      · exact Or.inr ⟨ha, hnone⟩
  · rw [List.mem_cons, added_add hid, h.chunks a]
  · show a ≠ nullptr ∧ (Function.update w.mem ck header a).key = id
    rcases of_update ha with ⟨hi, hck⟩ | ⟨-, hold⟩
    · rw [← Option.some.inj hck, Function.update_self]
      exact ⟨hnull, hi.symm⟩
    · have hac : a ≠ ck := by
        rintro rfl
        exact hadded ⟨id, hold⟩
      rw [Function.update_of_ne hac]
      exact h.key id a hold
  · exact (added_add hid a).mpr (Or.inr (h.held a ha))

/-- **Every call keeps the free list exact.** -/
theorem sound_step (h : w.Sound) (hstep : w.step op = some w') : w'.Sound := by
  rcases step_cases hstep with ⟨-, ⟨ck, header, -, hnull, hnew, hid, rfl⟩ | ⟨con, -, -, rfl⟩ |
    ⟨con, ck, bufs, -, -, -, rfl⟩ | ⟨con, ck, bufs, -, hb, -, rfl⟩ | ⟨id, -, rfl⟩ |
    ⟨ck, con, -, hck, rfl⟩⟩
  · exact sound_add h hnull hnew hid
  · exact h
  · exact ⟨h.free, h.chunks, h.key, h.held⟩
  · -- the chunk at the back of `bufs` goes out
    have hfree : w.spec.Free ck := (h.free.2 ck).mp (hb ▸ List.mem_cons_self)
    obtain ⟨id, hid⟩ := hfree.1
    have hnodup := h.free.1
    rw [hb] at hnodup
    obtain ⟨hnot, hnodup⟩ := List.nodup_cons.mp hnodup
    rw [if_neg (h.key id ck hid).1]
    refine ⟨⟨hnodup, fun a => ?_⟩, h.chunks, h.key, fun a ha => ?_⟩
    · have hmem := h.free.2 a
      rw [hb, List.mem_cons] at hmem
      show a ∈ bufs ↔ w.spec.Added a ∧ Function.update w.spec.holder ck (some (some con)) a = none
      by_cases hac : a = ck
      · rw [hac, Function.update_self]
        exact ⟨fun ha => absurd ha hnot, fun ha => absurd ha.2 (by simp)⟩
      · rw [Function.update_of_ne hac]
        exact ⟨fun ha => hmem.mp (Or.inr ha), fun ha => (hmem.mpr ha).resolve_left hac⟩
    · by_cases hac : a = ck
      · exact hac ▸ hfree.1
      · exact h.held a ((Function.update_of_ne hac _ w.spec.holder) ▸ ha)
  · exact ⟨h.free, h.chunks, h.key, h.held⟩
  · -- a chunk that is out comes back
    have hnot : ck ∉ w.mgr.bufs := fun hmem => hck ((h.free.2 ck).mp hmem).2
    refine ⟨⟨List.nodup_cons.mpr ⟨hnot, h.free.1⟩, fun a => ?_⟩, h.chunks, h.key, fun a ha => ?_⟩
    · show a ∈ ck :: w.mgr.bufs ↔ w.spec.Added a ∧ Function.update w.spec.holder ck none a = none
      rw [List.mem_cons, h.free.2 a]
      by_cases hac : a = ck
      · rw [hac, Function.update_self]
        exact ⟨fun _ => ⟨h.held ck hck, rfl⟩, fun _ => Or.inl rfl⟩
      · rw [Function.update_of_ne hac]
        exact ⟨fun ha => ha.resolve_left hac, Or.inr⟩
    · by_cases hac : a = ck
      · exact hac ▸ h.held ck hck
      · exact h.held a ((Function.update_of_ne hac _ w.spec.holder) ▸ ha)

/-- **The free list is exact** in every state of every run. -/
theorem freeExact_always (mem : Mem) (ops : List ExternalMgrOp) :
    Always step FreeExact (init mem) ops := by
  have keep : ∀ w op w', Sound w → True → step w op = some w' → Sound w' :=
    fun _ _ _ h _ hstep => sound_step h hstep
  exact (always_of_meets keep (sound_init mem) (meets_true _ _)).mono fun w h => h.free

/-! ## The whole specification -/

/-- Nothing has been handed out, no connection has a record of anything, and every id leads
to its chunk. -/
structure Inv (w : ExternalMgrWorld) : Prop where
  sound : w.Sound
  found : ∀ id ck, w.mgr.buf_map.find? id = some ck → ck = nullptr ∨ w.spec.chunk id = some ck
  by_id : ∀ id ck, w.spec.chunk id = some ck → w.mgr.buf_map.find? id = some ck
  in_hand : ∀ ck, w.spec.holder ck = none
  unlogged : ∀ con k, (w.cons con).used_chunks.find? k = none
  alive : w.crashed = false

theorem inv_init (mem : Mem) : (init mem).Inv where
  sound := sound_init mem
  found := by simp [init]
  by_id := by simp [init]
  in_hand := fun _ => rfl
  unlogged := fun _ k => StdMap.find?_empty k
  alive := rfl

theorem Inv.refines (h : w.Inv) : w.Refines where
  free := h.sound.free
  by_id := fun id ck hck => StdMap.value_of_some _ (h.by_id id ck hck)
  used := by
    intro con _ k ck
    rw [h.unlogged con k, h.in_hand ck]
    simp
  alive := h.alive

/-- A chunk is added under an id that `buf_map` does not know. -/
theorem inv_add (h : w.Inv) {ck : Addr} {header : Chunk} (hnull : ck ≠ nullptr)
    (hnew : ck ∉ w.chunks) (hid : w.spec.chunk header.key = none)
    (hnone : w.mgr.buf_map.find? header.key = none) :
    Inv { w with
      mem := Function.update w.mem ck header
      mgr := { bufs := ck :: w.mgr.bufs, buf_map := w.mgr.buf_map.insertNew header.key ck }
      chunks := ck :: w.chunks
      spec := w.spec.add header.key ck } := by
  have hchunk : ∀ id a, (w.spec.add header.key ck).chunk id = some a ↔
      id = header.key ∧ a = ck ∨ w.spec.chunk id = some a := by
    intro id a
    show Function.update w.spec.chunk header.key (some ck) id = some a ↔ _
    by_cases hi : id = header.key
    · rw [hi, Function.update_self, hid]
      simp [eq_comm]
    · rw [Function.update_of_ne hi]
      simp [hi]
  refine ⟨sound_add h.sound hnull hnew hid, fun id a ha => ?_, fun id a ha => ?_, h.in_hand,
    h.unlogged, h.alive⟩
  · rw [StdMap.find?_insertNew_eq_some hnone] at ha
    rw [hchunk]
    rcases ha with ha | ha
    · exact Or.inr (Or.inl ha)
    · exact (h.found id a ha).imp_right Or.inr
  · rw [StdMap.find?_insertNew_eq_some hnone]
    exact ((hchunk id a).mp ha).imp_right (h.by_id id a)

/-- **A call that meets the guard keeps the whole of it.** -/
theorem inv_step (h : w.Inv) (hguard : w.Guard op) (hstep : w.step op = some w') : w'.Inv := by
  rcases step_cases hstep with ⟨-, ⟨ck, header, rfl, hnull, hnew, hid, rfl⟩ | ⟨con, -, -, rfl⟩ |
    ⟨con, ck, bufs, rfl, hb, -, -⟩ | ⟨con, ck, bufs, rfl, hb, -, -⟩ | ⟨id, -, rfl⟩ |
    ⟨ck, con, -, hck, -⟩⟩
  · exact inv_add h hnull hnew hid hguard
  · exact h
  · exact absurd (hb.symm.trans hguard) (by simp)
  · exact absurd (hb.symm.trans hguard) (by simp)
  · -- a lookup perhaps enters a null entry
    refine ⟨⟨h.sound.free, h.sound.chunks, h.sound.key, h.sound.held⟩, fun i a ha => ?_,
      fun i a ha => ?_, h.in_hand, h.unlogged, h.alive⟩
    · by_cases hi : id = i
      · subst hi
        simp only [ExternalChunkMgr.get_by_id, StdMap.find?_index_self, Option.some.injEq] at ha
        cases hfind : w.mgr.buf_map.find? id with
        | none =>
          rw [StdMap.value, hfind] at ha
          exact Or.inl ha.symm
        | some b =>
          rw [StdMap.value_of_some _ hfind] at ha
          exact h.found id a (ha ▸ hfind)
      · exact h.found i a (by rwa [← StdMap.find?_index_of_ne _ nullptr hi])
    · have hfind := h.by_id i a ha
      by_cases hi : id = i
      · subst hi
        simp only [ExternalChunkMgr.get_by_id, StdMap.index_of_some _ hfind, hfind]
      · simp only [ExternalChunkMgr.get_by_id, StdMap.find?_index_of_ne _ _ hi, hfind]
  · exact absurd (h.in_hand ck) hck

/-- **And one that does not breaks it**: a chunk goes out without a record, or null is
dereferenced, or the chunk is not found under its id. -/
theorem guard_of_refines (h : w.Inv) (hstep : w.step op = some w') (ht : w'.Refines) :
    w.Guard op := by
  rcases step_cases hstep with ⟨-, ⟨ck, header, rfl, hnull, hnew, hid, rfl⟩ | ⟨con, rfl, hb, -⟩ |
    ⟨con, ck, bufs, -, -, -, rfl⟩ | ⟨con, ck, bufs, rfl, hb, hcon, rfl⟩ | ⟨id, rfl, -⟩ |
    ⟨ck, con, -, hck, -⟩⟩
  · by_contra hsome
    obtain ⟨a, ha⟩ := Option.ne_none_iff_exists'.mp hsome
    have hvalue : (w.mgr.buf_map.insertNew header.key ck).value header.key nullptr = ck :=
      ht.by_id header.key ck (Function.update_self ..)
    rw [StdMap.insertNew_of_some _ ha, StdMap.value_of_some _ ha] at hvalue
    rcases h.found header.key a ha with hzero | hchunk
    · exact hnull (hvalue.symm.trans hzero)
    · exact absurd (hid.symm.trans hchunk) (by simp)
  · exact hb
  · exact absurd ht.alive (by simp)
  · have hck0 : ck ≠ nullptr := by
      obtain ⟨id, hid⟩ := ((h.sound.free.2 ck).mp (hb ▸ List.mem_cons_self)).1
      exact (h.sound.key id ck hid).1
    have hfind := (ht.used con hcon (w.mem ck).key ck).mpr
      ⟨by simp only [if_neg hck0]; exact Function.update_self .., rfl⟩
    exact absurd ((h.unlogged con _).symm.trans hfind) (by simp)
  · trivial
  · exact absurd (h.in_hand ck) hck

end

/-- **When the external manager is a chunk manager.**  Along a run the free list is exact, ids
lead to their chunks, no null connection is dereferenced and every connection's record is what
it has, if and only if no `get(con)` of the run finds a chunk and no id is looked up before
its chunk is added. -/
theorem refines_iff_meets (mem : Mem) (ops : List ExternalMgrOp) :
    Always step Refines (init mem) ops ↔ Meets step Guard (init mem) ops :=
  always_iff_meets (fun _ h => h.refines) (fun _ _ _ h hg hstep => inv_step h hg hstep)
    (fun _ _ _ h hstep ht => guard_of_refines h hstep ht) (inv_init mem) ops

/-- A connection takes a chunk and has no record of it. -/
theorem not_refines :
    ¬ Always step Refines (init fun _ => {}) [.add 4096 { buffer_id := 3 }, .get 8192] := by
  intro h
  have hrun : (run step (init fun _ => {}) [.add 4096 { buffer_id := 3 }, .get 8192]).map
      (fun w => (w.spec.holder 4096, (w.mem 4096).key, (w.cons 8192).used_chunks.find? 3)) =
        some (some (some 8192), 3, none) := by
    decide +kernel
  obtain ⟨w, hw, hfields⟩ := Option.map_eq_some_iff.mp hrun
  simp only [Prod.mk.injEq] at hfields
  obtain ⟨hholder, hkey, hfind⟩ := hfields
  have hlogged := ((h.last hw).used 8192 (by decide) 3 4096).mpr ⟨hholder, hkey⟩
  exact absurd (hfind.symm.trans hlogged) (by simp)

/-- Without a connection, null is dereferenced. -/
example : (run step (init fun _ => {}) [.add 4096 { buffer_id := 3 }, .get nullptr]).map
    (fun w => w.crashed) = some true := by
  decide +kernel

end ExternalMgrWorld

end Hpnl
