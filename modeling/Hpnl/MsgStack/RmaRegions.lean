import Hpnl.Lib.Resources
import Hpnl.MsgStack.RmaBuffers

/-!
# The memory regions of a stack, to its end

`reg_rma_buffer` obtains a chunk and a memory region, `unreg_rma_buffer` closes the
region and deletes the chunk, and `~MsgStack` deletes the chunks that are still in
`rmaChunkMap` (`src/core/MsgStack.cc`).

* `RegionWorld` — a stack, the headers of its chunks, and the ledgers of its chunks
  and of its memory regions.
* `Inv`, `NoneLost`, `Lost` — a registered chunk is alive and its region open; every
  region still open is found under some id; one is not.
* `inv_step`, `noneLost_step`, `lost_step` — what a call keeps.
* `regions_released_iff` — **every region is closed and every chunk deleted exactly once
  if and only if** each registration finds its id without an entry and nothing is
  registered any more when the stack is destroyed.
-/

namespace Hpnl

open MachineInt Transition

/-- A stack, the chunk headers, and the two ledgers. -/
structure RegionWorld where
  stack : MsgStack.Rma
  mem : Mem
  chunks : Resources Addr
  regions : Resources Addr

namespace RegionWorld

/-- A stack on which nothing has been registered. -/
def init (initialized : Bool) (mem : Mem) : RegionWorld :=
  { stack := { initialized := initialized, rmaChunkMap := ∅ }
    mem := mem
    chunks := Resources.none_made
    regions := Resources.none_made }

/-- A registration that is not turned away: `new` answers with `ck` and `fi_mr_reg` with
`mr`, or it fails and the chunk is deleted again.  Neither answers with something that is
in use. -/
def reg (w : RegionWorld) (buffer : Addr) (buffer_size : ℕ) (buffer_id : ℤ) (ck : Addr)
    (mr : Option Addr) : Option RegionWorld :=
  if hck : ck = nullptr ∨ w.chunks.InUse ck then none
  else
    let chunks := w.chunks.acquire ck (not_or.mp hck).2
    let (stack, mem, _) :=
      MsgStack.reg_rma_buffer w.stack w.mem buffer buffer_size buffer_id ck mr
    match mr with
    | none => some { w with chunks := chunks.release ck }
    | some h =>
        if hmr : w.regions.InUse h then none
        else some { stack := stack, mem := mem, chunks := chunks
                    regions := w.regions.acquire h hmr }

/-- One call. -/
def step (w : RegionWorld) : RmaOp → Option RegionWorld
  | .reg_rma_buffer buffer size id ck mr =>
      if MsgStack.rejects w.stack buffer size then some w else w.reg buffer size id ck mr
  | .unreg_rma_buffer id =>
      let (stack, freed) := MsgStack.unreg_rma_buffer w.stack id
      if freed = nullptr then some { w with stack := stack }
      else
        some { w with
          stack := stack
          chunks := w.chunks.release freed
          regions := w.regions.release (w.mem (MsgStack.get_rma_chunk w.stack id).2).mr }
  | .get_rma_chunk id => some { w with stack := (MsgStack.get_rma_chunk w.stack id).1 }

/-- The chunks that `~MsgStack` deletes. -/
def leftOver (w : RegionWorld) : List Addr :=
  (w.stack.rmaChunkMap.entries.map Prod.snd).filter fun ck => ck ≠ nullptr

/-- `~MsgStack`, as far as RMA buffers go: `buffer` is set to null, so that the memory of
the application stays, and the chunk is deleted. -/
def destroy (w : RegionWorld) : RegionWorld :=
  { stack := { w.stack with rmaChunkMap := ∅ }
    mem := fun ck => if ck ∈ w.leftOver then { w.mem ck with buffer := nullptr } else w.mem ck
    chunks := w.chunks.releaseAll w.leftOver
    regions := w.regions }

/-! ## What is registered -/

/-- `ck` is registered under `id`. -/
def Entry (w : RegionWorld) (id : ℤ) (ck : Addr) : Prop :=
  ck ≠ nullptr ∧ w.stack.rmaChunkMap.find? id = some ck

/-- A registration that goes through finds no entry for its id, not even a null one. -/
def Absent (w : RegionWorld) : RmaOp → Prop
  | .reg_rma_buffer buffer size id _ mr =>
      ¬ MsgStack.rejects w.stack buffer size → mr ≠ none →
        w.stack.rmaChunkMap.find? id = none
  | _ => True

instance (w : RegionWorld) : DecidablePred w.Absent
  | .reg_rma_buffer .. => by unfold Absent; infer_instance
  | .unreg_rma_buffer _ => isTrue trivial
  | .get_rma_chunk _ => isTrue trivial

/-- Nothing is registered. -/
def NoneRegistered (w : RegionWorld) : Prop := w.leftOver = []

instance (w : RegionWorld) : Decidable w.NoneRegistered :=
  inferInstanceAs (Decidable (w.leftOver = []))

theorem mem_leftOver {w : RegionWorld} {ck : Addr} : ck ∈ w.leftOver ↔ ∃ id, w.Entry id ck := by
  simp only [leftOver, List.mem_filter, List.mem_map, Prod.exists, exists_eq_right,
    StdMap.mem_entries, decide_eq_true_eq, Entry]
  constructor
  · rintro ⟨⟨id, hid⟩, hne⟩
    exact ⟨id, hne, hid⟩
  · rintro ⟨id, hne, hid⟩
    exact ⟨⟨id, hid⟩, hne⟩

theorem noneRegistered_iff {w : RegionWorld} :
    w.NoneRegistered ↔ ∀ id ck, ¬ w.Entry id ck := by
  rw [NoneRegistered, List.eq_nil_iff_forall_not_mem]
  exact ⟨fun h id ck hck => h ck (mem_leftOver.mpr ⟨id, hck⟩),
    fun h ck hck => (mem_leftOver.mp hck).elim fun id hid => h id ck hid⟩

/-! ## What a call can do -/

/-- A lookup changes no entry but null ones. -/
theorem entry_get_rma_chunk (w : RegionWorld) (i id : ℤ) (ck : Addr) :
    Entry { w with stack := (MsgStack.get_rma_chunk w.stack i).1 } id ck ↔ w.Entry id ck := by
  constructor
  · rintro ⟨hne, hfind⟩
    exact ⟨hne, RmaWorld.find?_get_rma_chunk hfind hne⟩
  · rintro ⟨hne, hfind⟩
    refine ⟨hne, ?_⟩
    show (w.stack.rmaChunkMap.index i nullptr).find? id = some ck
    by_cases hi : i = id
    · rw [hi, StdMap.index_of_some _ hfind, hfind]
    · rw [StdMap.find?_index_of_ne _ _ hi, hfind]

/-- The state after a registration that went through. -/
def registered (w : RegionWorld) (id : ℤ) (ck : Addr) (header : Chunk)
    (hck : ¬ w.chunks.InUse ck) (hmr : ¬ w.regions.InUse header.mr) : RegionWorld :=
  { stack := { w.stack with rmaChunkMap := w.stack.rmaChunkMap.insertNew id ck }
    mem := Function.update w.mem ck header
    chunks := w.chunks.acquire ck hck
    regions := w.regions.acquire header.mr hmr }

/-- The state after the chunk under `id` has been unregistered. -/
def unregistered (w : RegionWorld) (id : ℤ) (ck : Addr) : RegionWorld :=
  { stack := { w.stack with rmaChunkMap := w.stack.rmaChunkMap.remove id }
    mem := w.mem
    chunks := w.chunks.release ck
    regions := w.regions.release (w.mem ck).mr }

/-- A registration that goes through. -/
theorem step_reg_some {w w' : RegionWorld} {buffer : Addr} {size : ℕ} {id : ℤ} {ck mr : Addr}
    (hrej : ¬ MsgStack.rejects w.stack buffer size)
    (h : w.step (.reg_rma_buffer buffer size id ck (some mr)) = some w') :
    ∃ header hck hmr, ck ≠ nullptr ∧ w' = w.registered id ck header hck hmr := by
  rw [step, if_neg hrej, reg] at h
  split at h
  · cases h
  rename_i hck
  obtain ⟨hnull, hfree⟩ := not_or.mp hck
  simp only [MsgStack.reg_rma_buffer, if_neg hrej] at h
  split at h
  · cases h
  rename_i hmr
  cases h
  exact ⟨_, hfree, hmr, hnull, rfl⟩

/-- One that fails leaves nothing behind. -/
theorem step_reg_fail {w w' : RegionWorld} {buffer : Addr} {size : ℕ} {id : ℤ} {ck : Addr}
    {mr : Option Addr} (hfail : MsgStack.rejects w.stack buffer size ∨ mr = none)
    (h : w.step (.reg_rma_buffer buffer size id ck mr) = some w') :
    w'.stack = w.stack ∧ w'.mem = w.mem ∧ w'.regions = w.regions ∧
      (w'.chunks = w.chunks ∨ ∃ ck hfree, w'.chunks = (w.chunks.acquire ck hfree).release ck) := by
  rw [step] at h
  split at h
  · cases h
    exact ⟨rfl, rfl, rfl, Or.inl rfl⟩
  rename_i hrej
  rw [reg] at h
  split at h
  · cases h
  rename_i hck
  obtain rfl := hfail.resolve_left hrej
  cases h
  exact ⟨rfl, rfl, rfl, Or.inr ⟨ck, (not_or.mp hck).2, rfl⟩⟩

/-- The end of a registration, if there is one. -/
theorem step_unreg {w w' : RegionWorld} {id : ℤ} (h : w.step (.unreg_rma_buffer id) = some w') :
    ((∀ ck, ¬ w.Entry id ck) ∧ w' = { w with stack := (MsgStack.get_rma_chunk w.stack id).1 }) ∨
      ∃ ck, w.Entry id ck ∧ w' = w.unregistered id ck := by
  simp only [step] at h
  rcases RmaWorld.unreg_cases w.stack id with ⟨hnull, hunreg⟩ | ⟨ck, hck, hfind, hunreg⟩
  · rw [hunreg] at h
    cases h
    refine Or.inl ⟨?_, rfl⟩
    rintro ck ⟨hne, hfind⟩
    exact hne ((StdMap.value_of_some _ hfind).symm.trans hnull)
  · rw [hunreg, if_neg hck] at h
    cases h
    have hvalue : (MsgStack.get_rma_chunk w.stack id).2 = ck := StdMap.value_of_some _ hfind
    exact Or.inr ⟨ck, ⟨hck, hfind⟩, by rw [hvalue, unregistered]⟩

/-- **The effect of a call**: nothing but null entries and a chunk that comes and goes; or
a registration; or the end of one. -/
theorem step_cases {w w' : RegionWorld} {op : RmaOp} (h : w.step op = some w') :
    ((∀ id ck, w'.Entry id ck ↔ w.Entry id ck) ∧ w'.mem = w.mem ∧ w'.regions = w.regions ∧
        (w'.chunks = w.chunks ∨
          ∃ ck hfree, w'.chunks = (w.chunks.acquire ck hfree).release ck) ∧ w.Absent op) ∨
      (∃ id ck header hck hmr, ck ≠ nullptr ∧
        (w.Absent op ↔ w.stack.rmaChunkMap.find? id = none) ∧
        w' = w.registered id ck header hck hmr) ∨
      ∃ id ck, w.Entry id ck ∧ w.Absent op ∧ w' = w.unregistered id ck := by
  cases op with
  | get_rma_chunk id =>
    cases h
    exact Or.inl ⟨entry_get_rma_chunk w id, rfl, rfl, Or.inl rfl, trivial⟩
  | unreg_rma_buffer id =>
    rcases step_unreg h with ⟨-, rfl⟩ | ⟨ck, hentry, rfl⟩
    · exact Or.inl ⟨entry_get_rma_chunk w id, rfl, rfl, Or.inl rfl, trivial⟩
    · exact Or.inr (Or.inr ⟨id, ck, hentry, trivial, rfl⟩)
  | reg_rma_buffer buffer size id ck mr =>
    by_cases hfail : MsgStack.rejects w.stack buffer size ∨ mr = none
    · obtain ⟨hstack, hmem, hregions, hchunks⟩ := step_reg_fail hfail h
      refine Or.inl ⟨fun id ck => ?_, hmem, hregions, hchunks, fun hrej hmr => ?_⟩
      · rw [Entry, Entry, hstack]
      · exact absurd (hfail.resolve_left hrej) hmr
    · obtain ⟨hrej, hmr⟩ := not_or.mp hfail
      obtain ⟨mr, rfl⟩ := Option.ne_none_iff_exists'.mp hmr
      obtain ⟨header, hck, hmr', hnull, rfl⟩ := step_reg_some hrej h
      exact Or.inr (Or.inl ⟨id, ck, header, hck, hmr', hnull,
        ⟨fun habs => habs hrej hmr, fun hnone _ _ => hnone⟩, rfl⟩)

theorem entry_registered_of_none {w : RegionWorld} {id : ℤ} {ck : Addr} {header : Chunk}
    {hck : ¬ w.chunks.InUse ck} {hmr : ¬ w.regions.InUse header.mr} (hnull : ck ≠ nullptr)
    (hnone : w.stack.rmaChunkMap.find? id = none) (j : ℤ) (a : Addr) :
    (w.registered id ck header hck hmr).Entry j a ↔ j = id ∧ a = ck ∨ w.Entry j a := by
  rw [Entry, Entry, registered, StdMap.find?_insertNew_eq_some hnone]
  constructor
  · rintro ⟨hne, hj | hj⟩
    · exact Or.inl hj
    · exact Or.inr ⟨hne, hj⟩
  · rintro (⟨rfl, rfl⟩ | ⟨hne, hj⟩)
    · exact ⟨hnull, Or.inl ⟨rfl, rfl⟩⟩
    · exact ⟨hne, Or.inr hj⟩

theorem entry_registered_of_some {w : RegionWorld} {id : ℤ} {ck old : Addr} {header : Chunk}
    {hck : ¬ w.chunks.InUse ck} {hmr : ¬ w.regions.InUse header.mr}
    (hsome : w.stack.rmaChunkMap.find? id = some old) (j : ℤ) (a : Addr) :
    (w.registered id ck header hck hmr).Entry j a ↔ w.Entry j a := by
  simp only [Entry, registered, StdMap.insertNew_of_some _ hsome]

theorem entry_unregistered {w : RegionWorld} {id : ℤ} {ck : Addr} (j : ℤ) (a : Addr) :
    (w.unregistered id ck).Entry j a ↔ j ≠ id ∧ w.Entry j a := by
  rw [Entry, Entry, unregistered, StdMap.find?_remove_eq_some, and_left_comm]

/-! ## The invariants -/

/-- A registered chunk is alive and its region open, no chunk and no region is registered
under two ids, and nothing has been released twice. -/
structure Inv (w : RegionWorld) : Prop where
  alive : ∀ id ck, w.Entry id ck → w.chunks.InUse ck ∧ w.regions.InUse (w.mem ck).mr
  once : ∀ i j a b, w.Entry i a → w.Entry j b → a = b ∨ (w.mem a).mr = (w.mem b).mr → i = j
  chunks_once : w.chunks.AtMostOnce
  regions_once : w.regions.AtMostOnce

/-- Every chunk that is alive and every region that is open is registered. -/
structure NoneLost (w : RegionWorld) : Prop where
  chunk : ∀ ck, w.chunks.InUse ck → ∃ id, w.Entry id ck
  region : ∀ mr, w.regions.InUse mr → ∃ id ck, w.Entry id ck ∧ (w.mem ck).mr = mr

/-- A region is open that is not registered. -/
def Lost (w : RegionWorld) : Prop :=
  ∃ mr, w.regions.InUse mr ∧ ∀ id ck, w.Entry id ck → (w.mem ck).mr ≠ mr

theorem not_entry_init (initialized : Bool) (mem : Mem) (id : ℤ) (ck : Addr) :
    ¬ (init initialized mem).Entry id ck := by
  rintro ⟨-, hfind⟩
  simp [init] at hfind

theorem inv_init (initialized : Bool) (mem : Mem) : (init initialized mem).Inv :=
  { alive := fun id ck h => absurd h (not_entry_init initialized mem id ck)
    once := fun i _ a _ h => absurd h (not_entry_init initialized mem i a)
    chunks_once := Resources.atMostOnce_none_made
    regions_once := Resources.atMostOnce_none_made }

theorem noneLost_init (initialized : Bool) (mem : Mem) : (init initialized mem).NoneLost :=
  { chunk := fun ck h => absurd h (Resources.not_inUse_none_made ck)
    region := fun mr h => absurd h (Resources.not_inUse_none_made mr) }

section

variable {w w' : RegionWorld} {op : RmaOp} {id : ℤ} {ck : Addr} {header : Chunk}
  {hck : ¬ w.chunks.InUse ck} {hmr : ¬ w.regions.InUse header.mr}

/-- The header of a registered chunk is not the one a registration writes. -/
theorem Inv.mem_registered (h : w.Inv) {j : ℤ} {a : Addr} (ha : w.Entry j a) :
    (w.registered id ck header hck hmr).mem a = w.mem a := by
  refine Function.update_of_ne ?_ _ _
  rintro rfl
  exact hck (h.alive j a ha).1

theorem inv_registered (h : w.Inv) (hnull : ck ≠ nullptr) :
    (w.registered id ck header hck hmr).Inv := by
  have hself : (w.registered id ck header hck hmr).mem ck = header := Function.update_self ..
  -- an old entry stays what it was
  have hold : ∀ j a, w.Entry j a → (w.registered id ck header hck hmr).chunks.InUse a ∧
      (w.registered id ck header hck hmr).regions.InUse
        ((w.registered id ck header hck hmr).mem a).mr := by
    intro j a ha
    rw [h.mem_registered ha]
    exact ⟨(Resources.inUse_acquire _ _ hck a).mpr (Or.inr (h.alive j a ha).1),
      (Resources.inUse_acquire _ _ hmr _).mpr (Or.inr (h.alive j a ha).2)⟩
  cases hfind : w.stack.rmaChunkMap.find? id with
  | some old =>
    refine ⟨fun j a ha => hold j a ((entry_registered_of_some hfind j a).mp ha), ?_,
      h.chunks_once, h.regions_once⟩
    intro i j a b ha hb hab
    rw [entry_registered_of_some hfind] at ha hb
    rw [h.mem_registered ha, h.mem_registered hb] at hab
    exact h.once i j a b ha hb hab
  | none =>
    have hentry : ∀ j a, (w.registered id ck header hck hmr).Entry j a ↔
        j = id ∧ a = ck ∨ w.Entry j a := entry_registered_of_none hnull hfind
    -- the new chunk and the new region are not those of an old entry
    have hnew : ∀ j a, w.Entry j a → ck ≠ a ∧ header.mr ≠ (w.mem a).mr := by
      intro j a ha
      obtain ⟨hchunk, hregion⟩ := h.alive j a ha
      exact ⟨fun heq => hck (heq ▸ hchunk), fun heq => hmr (heq ▸ hregion)⟩
    refine ⟨?_, ?_, h.chunks_once, h.regions_once⟩
    · intro j a ha
      rcases (hentry j a).mp ha with ⟨-, rfl⟩ | ha
      · rw [hself]
        exact ⟨(Resources.inUse_acquire _ _ hck a).mpr (Or.inl rfl),
          (Resources.inUse_acquire _ _ hmr _).mpr (Or.inl rfl)⟩
      · exact hold j a ha
    · intro i j a b ha hb hab
      rcases (hentry i a).mp ha with ⟨rfl, rfl⟩ | ha' <;>
        rcases (hentry j b).mp hb with ⟨rfl, rfl⟩ | hb'
      · rfl
      · rw [hself, h.mem_registered hb'] at hab
        exact absurd hab (not_or.mpr (hnew j b hb'))
      · rw [hself, h.mem_registered ha'] at hab
        exact absurd hab (not_or.mpr ⟨(hnew i a ha').1.symm, (hnew i a ha').2.symm⟩)
      · rw [h.mem_registered ha', h.mem_registered hb'] at hab
        exact h.once i j a b ha' hb' hab

theorem inv_unregistered (h : w.Inv) (hentry : w.Entry id ck) : (w.unregistered id ck).Inv := by
  obtain ⟨hchunk, hregion⟩ := h.alive id ck hentry
  refine ⟨?_, ?_, h.chunks_once.release hchunk, h.regions_once.release hregion⟩
  · intro j a ha
    obtain ⟨hj, ha⟩ := (entry_unregistered j a).mp ha
    obtain ⟨hchunk', hregion'⟩ := h.alive j a ha
    refine ⟨(Resources.inUse_release ..).mpr ⟨fun heq => ?_, hchunk'⟩,
      (Resources.inUse_release ..).mpr ⟨fun heq => ?_, hregion'⟩⟩
    · exact hj (h.once j id a ck ha hentry (Or.inl heq))
    · exact hj (h.once j id a ck ha hentry (Or.inr heq))
  · intro i j a b ha hb hab
    exact h.once i j a b ((entry_unregistered i a).mp ha).2 ((entry_unregistered j b).mp hb).2 hab

theorem noneLost_registered (hinv : w.Inv) (h : w.NoneLost) (hnull : ck ≠ nullptr)
    (hnone : w.stack.rmaChunkMap.find? id = none) :
    (w.registered id ck header hck hmr).NoneLost := by
  have hentry : ∀ j a, (w.registered id ck header hck hmr).Entry j a ↔
      j = id ∧ a = ck ∨ w.Entry j a := entry_registered_of_none hnull hnone
  refine ⟨fun a ha => ?_, fun mr huse => ?_⟩
  · rcases (Resources.inUse_acquire _ _ hck a).mp ha with rfl | ha
    · exact ⟨id, (hentry id a).mpr (Or.inl ⟨rfl, rfl⟩)⟩
    · obtain ⟨j, hj⟩ := h.chunk a ha
      exact ⟨j, (hentry j a).mpr (Or.inr hj)⟩
  · rcases (Resources.inUse_acquire _ _ hmr mr).mp huse with rfl | huse
    · exact ⟨id, ck, (hentry id ck).mpr (Or.inl ⟨rfl, rfl⟩),
        congrArg Chunk.mr (Function.update_self ..)⟩
    · obtain ⟨j, a, ha, rfl⟩ := h.region mr huse
      exact ⟨j, a, (hentry j a).mpr (Or.inr ha), by rw [hinv.mem_registered ha]⟩

theorem noneLost_unregistered (h : w.NoneLost) (hentry : w.Entry id ck) :
    (w.unregistered id ck).NoneLost := by
  refine ⟨fun a ha => ?_, fun mr huse => ?_⟩
  · obtain ⟨hne, ha⟩ := (Resources.inUse_release ..).mp ha
    obtain ⟨j, hj⟩ := h.chunk a ha
    refine ⟨j, (entry_unregistered j a).mpr ⟨?_, hj⟩⟩
    rintro rfl
    exact hne (Option.some.inj (hj.2.symm.trans hentry.2))
  · obtain ⟨hne, huse⟩ := (Resources.inUse_release ..).mp huse
    obtain ⟨j, a, ha, rfl⟩ := h.region mr huse
    refine ⟨j, a, (entry_unregistered j a).mpr ⟨?_, ha⟩, rfl⟩
    rintro rfl
    exact hne (congrArg (fun c => (w.mem c).mr) (Option.some.inj (ha.2.symm.trans hentry.2)))

/-- A registration that finds an entry loses its region. -/
theorem lost_registered (hinv : w.Inv) {old : Addr}
    (hsome : w.stack.rmaChunkMap.find? id = some old) :
    (w.registered id ck header hck hmr).Lost := by
  refine ⟨header.mr, (Resources.inUse_acquire _ _ hmr _).mpr (Or.inl rfl), fun j a ha => ?_⟩
  rw [entry_registered_of_some hsome] at ha
  rw [hinv.mem_registered ha]
  exact fun heq => hmr (heq ▸ (hinv.alive j a ha).2)

end

/-! ## Runs -/

variable {w w' : RegionWorld} {op : RmaOp}

/-- What a call that registers and unregisters nothing leaves as it was. -/
theorem quiet_chunks (h : w'.chunks = w.chunks ∨
    ∃ ck hfree, w'.chunks = (w.chunks.acquire ck hfree).release ck) :
    (∀ k, w'.chunks.InUse k ↔ w.chunks.InUse k) ∧
      (w.chunks.AtMostOnce → w'.chunks.AtMostOnce) := by
  rcases h with h | ⟨ck, hfree, h⟩
  · rw [h]
    exact ⟨fun _ => Iff.rfl, id⟩
  · rw [h]
    exact ⟨Resources.inUse_acquire_release _ ck hfree, fun honce =>
      (honce.acquire hfree).release ((Resources.inUse_acquire _ _ hfree ck).mpr (Or.inl rfl))⟩

/-- **Every call keeps the invariant.** -/
theorem inv_step (h : w.Inv) (hstep : w.step op = some w') : w'.Inv := by
  rcases step_cases hstep with ⟨hentry, hmem, hregions, hchunks, -⟩ |
    ⟨id, ck, header, hck, hmr, hnull, -, rfl⟩ | ⟨id, ck, hentry, -, rfl⟩
  · obtain ⟨huse, honce⟩ := quiet_chunks hchunks
    refine ⟨fun id ck hck => ?_, fun i j a b ha hb => ?_, honce h.chunks_once, ?_⟩
    · rw [hentry] at hck
      rw [hmem, hregions, huse]
      exact h.alive id ck hck
    · rw [hentry] at ha hb
      rw [hmem]
      exact h.once i j a b ha hb
    · rw [hregions]
      exact h.regions_once
  · exact inv_registered h hnull
  · exact inv_unregistered h hentry

/-- A call that meets the guard loses nothing. -/
theorem noneLost_step (hinv : w.Inv) (h : w.NoneLost) (habs : w.Absent op)
    (hstep : w.step op = some w') : w'.NoneLost := by
  rcases step_cases hstep with ⟨hentry, hmem, hregions, hchunks, -⟩ |
    ⟨id, ck, header, hck, hmr, hnull, hiff, rfl⟩ | ⟨id, ck, hentry, -, rfl⟩
  · refine ⟨fun ck hck => ?_, fun mr hmr => ?_⟩
    · obtain ⟨id, hid⟩ := h.chunk ck (((quiet_chunks hchunks).1 ck).mp hck)
      exact ⟨id, (hentry id ck).mpr hid⟩
    · obtain ⟨id, ck, hid, heq⟩ := h.region mr (hregions ▸ hmr)
      exact ⟨id, ck, (hentry id ck).mpr hid, by rw [hmem, heq]⟩
  · exact noneLost_registered hinv h hnull (hiff.mp habs)
  · exact noneLost_unregistered h hentry

/-- What is lost stays lost. -/
theorem lost_step (hinv : w.Inv) (h : w.Lost) (hstep : w.step op = some w') : w'.Lost := by
  obtain ⟨mr, huse, hnot⟩ := h
  rcases step_cases hstep with ⟨hentry, hmem, hregions, -, -⟩ |
    ⟨id, ck, header, hck, hmr, hnull, -, rfl⟩ | ⟨id, ck, hentry, -, rfl⟩
  · refine ⟨mr, hregions ▸ huse, fun id ck hck => ?_⟩
    rw [hmem]
    exact hnot id ck ((hentry id ck).mp hck)
  · have hold : ∀ j a, w.Entry j a → ((w.registered id ck header hck hmr).mem a).mr ≠ mr := by
      intro j a ha
      rw [hinv.mem_registered ha]
      exact hnot j a ha
    refine ⟨mr, (Resources.inUse_acquire _ _ hmr mr).mpr (Or.inr huse), fun j a ha => ?_⟩
    cases hfind : w.stack.rmaChunkMap.find? id with
    | some old => exact hold j a ((entry_registered_of_some hfind j a).mp ha)
    | none =>
      rcases (entry_registered_of_none hnull hfind j a).mp ha with ⟨-, rfl⟩ | ha
      · have hself : (w.registered id a header hck hmr).mem a = header := Function.update_self ..
        rw [hself]
        exact fun heq => hmr (heq ▸ huse)
      · exact hold j a ha
  · refine ⟨mr, (Resources.inUse_release ..).mpr ⟨(hnot id ck hentry).symm, huse⟩, ?_⟩
    intro j a ha
    exact hnot j a ((entry_unregistered j a).mp ha).2

/-- A call that breaks the guard loses its region. -/
theorem lost_of_not_absent (hinv : w.Inv) (hstep : w.step op = some w') (hnot : ¬ w.Absent op) :
    w'.Lost := by
  rcases step_cases hstep with ⟨-, -, -, -, habs⟩ |
    ⟨id, ck, header, hck, hmr, hnull, hiff, rfl⟩ | ⟨id, ck, hentry, habs, rfl⟩
  · exact absurd habs hnot
  · obtain ⟨old, hold⟩ := Option.ne_none_iff_exists'.mp (mt hiff.mpr hnot)
    exact lost_registered hinv hold
  · exact absurd habs hnot

/-! ## The destructor -/

/-- The ids lead to different chunks, so each is deleted once. -/
theorem leftOver_nodup (h : w.Inv) : w.leftOver.Nodup := by
  have hentries : w.stack.rmaChunkMap.entries.Nodup :=
    List.Nodup.of_map Prod.fst (StdMap.entries_keys_nodup _)
  rw [leftOver, List.filter_map]
  refine (List.nodup_map_iff_inj_on (hentries.filter _)).mpr ?_
  rintro ⟨i, a⟩ ha ⟨j, b⟩ hb rfl
  simp only [List.mem_filter, StdMap.mem_entries, Function.comp_apply, decide_eq_true_eq] at ha hb
  rw [h.once i j a a ⟨ha.2, ha.1⟩ ⟨hb.2, hb.1⟩ (Or.inl rfl)]

theorem destroy_once (h : w.Inv) : w.destroy.chunks.AtMostOnce ∧ w.destroy.regions.AtMostOnce :=
  ⟨h.chunks_once.releaseAll (leftOver_nodup h) fun ck hck =>
      (mem_leftOver.mp hck).elim fun id hid => (h.alive id ck hid).1,
    h.regions_once⟩

/-- **Every region is closed and every chunk deleted exactly once**, when the stack has been
destroyed after a run, if and only if every registration of the run that went through found
its id without an entry, and nothing was registered any more when the stack was destroyed. -/
theorem regions_released_iff (initialized : Bool) (mem : Mem) (ops : List RmaOp) (w : RegionWorld)
    (hrun : run step (init initialized mem) ops = some w) :
    w.destroy.regions.AllReleased ∧ w.destroy.chunks.AllReleased ↔
      Meets step Absent (init initialized mem) ops ∧ w.NoneRegistered := by
  have hend := good_or_damaged
    (fun (w : RegionWorld) op w' (h : w.Inv ∧ w.NoneLost) (habs : w.Absent op) hs =>
      ⟨inv_step h.1 hs, noneLost_step h.1 h.2 habs hs⟩)
    (fun _ _ _ h hnot hs => ⟨inv_step h.1 hs, lost_of_not_absent h.1 hs hnot⟩)
    (fun (w : RegionWorld) op w' (h : w.Inv ∧ w.Lost) hs =>
      ⟨inv_step h.1 hs, lost_step h.1 h.2 hs⟩)
    ⟨inv_init initialized mem, noneLost_init initialized mem⟩ hrun
  have hinv : w.Inv := hend.elim (fun h => h.2.1) fun h => h.2.1
  obtain ⟨hchunks, hregions⟩ := destroy_once hinv
  rw [Resources.allReleased_iff hregions, Resources.allReleased_iff hchunks, noneRegistered_iff]
  obtain ⟨hmeets, -, hlost⟩ | ⟨hnot, -, mr, huse, -⟩ := hend
  · constructor
    · rintro ⟨hclosed, -⟩
      exact ⟨hmeets, fun id ck hck => hclosed _ (hinv.alive id ck hck).2⟩
    · rintro ⟨-, hnone⟩
      constructor
      · intro mr huse
        obtain ⟨id, ck, hid, -⟩ := hlost.region mr huse
        exact hnone id ck hid
      · intro ck huse
        obtain ⟨id, hid⟩ := hlost.chunk ck ((Resources.inUse_releaseAll ..).mp huse).2
        exact hnone id ck hid
  · exact iff_of_false (fun h => h.1 mr huse) fun h => hnot h.1

/-- Two buffers are registered one after the other under one id, which is then free. -/
def reusedId : List RmaOp :=
  [.reg_rma_buffer 100 16 7 4096 (some 1), .unreg_rma_buffer 7,
    .reg_rma_buffer 200 16 7 4096 (some 1), .unreg_rma_buffer 7]

theorem regions_released_reusedId : ∃ w, run step (init true fun _ => {}) reusedId = some w ∧
    w.destroy.regions.AllReleased ∧ w.destroy.chunks.AllReleased := by
  have hrun : (run step (init true fun _ => {}) reusedId).map
      (fun w => decide w.NoneRegistered) = some true := by
    decide +kernel
  obtain ⟨w, hw, hnone⟩ := Option.map_eq_some_iff.mp hrun
  exact ⟨w, hw, (regions_released_iff true _ reusedId w hw).mpr
    ⟨by decide +kernel, of_decide_eq_true hnone⟩⟩

/-- A buffer is still registered when the stack is destroyed: its chunk is deleted and its
region stays open. -/
theorem region_leaked :
    ¬ ∀ w, run step (init true fun _ => {}) [.reg_rma_buffer 100 16 7 4096 (some 1)] = some w →
      w.destroy.regions.AllReleased ∧ w.destroy.chunks.AllReleased := by
  intro h
  have hrun : (run step (init true fun _ => {}) [.reg_rma_buffer 100 16 7 4096 (some 1)]).map
      (fun w => (decide w.destroy.regions.AllReleased, decide w.destroy.chunks.AllReleased)) =
        some (false, true) := by
    decide +kernel
  obtain ⟨w, hw, hreleased⟩ := Option.map_eq_some_iff.mp hrun
  exact of_decide_eq_false (Prod.mk.inj hreleased).1 (h w hw).1

end RegionWorld

end Hpnl
