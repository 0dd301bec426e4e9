import Hpnl.MsgStack.RmaRegions

/-!
# RMA registration by several threads

`MsgStack.h` lists `reg_rma_buffer`, `unreg_rma_buffer` and `get_rma_chunk` as thread
safe.  `reg_rma_buffer` and `get_rma_chunk` touch `rmaChunkMap` under the mutex;
`unreg_rma_buffer` looks its chunk up under the mutex and then closes the region,
deletes the chunk and erases the entry without it (`src/core/MsgStack.cc`).

* `RmaPlace`, `RmaThreads` — where a thread is in its call, one place for each
  statement and each locked region; any number of threads on one stack.
* `Guard` — a lookup does not fall between the deletion of the chunk and the erasure of
  its entry, and a thread closes a region only while its chunk is registered and nobody
  else has closed it.
* `Inv`, `inv_step` — who owns which chunk and which region, and that every step of a
  thread that meets the guard keeps it.
* `rma_threads_once` — **no region is closed twice, no chunk deleted twice and no deleted
  chunk looked up** in any run that meets the guard.
* `unreg_alone`, `reg_alone` — a thread that runs alone does what the calls do.
-/

namespace Hpnl

open MachineInt Transition

/-! ## The threads -/

/-- The arguments of `reg_rma_buffer`. -/
structure RegCall where
  buffer : Addr
  buffer_size : ℕ
  buffer_id : ℤ
  deriving DecidableEq, Repr

/-- The statement a thread runs next. -/
inductive RmaPlace where
  | idle
  -- `reg_rma_buffer`
  | check (c : RegCall)
  | make (c : RegCall)
  | buffer (c : RegCall) (ck : Addr)
  | capacity (c : RegCall) (ck : Addr)
  | buffer_id (c : RegCall) (ck : Addr)
  | fi_mr_reg (c : RegCall) (ck : Addr)
  | fail (ck : Addr)
  | mr (c : RegCall) (ck : Addr) (mr : Addr)
  | insert (c : RegCall) (ck : Addr) (mr : Addr)
  -- `unreg_rma_buffer`
  | look (id : ℤ)
  | test (id : ℤ) (ck : Addr)
  | close (id : ℤ) (ck : Addr)
  | delete (id : ℤ)
  | erase (id : ℤ)
  deriving DecidableEq, Repr

/-- A stack and the threads that use it. -/
structure RmaThreads (n : ℕ) extends RegionWorld where
  thread : Fin n → RmaPlace

/-- A thread begins a call, or runs its next statement; `get_rma_chunk` is one locked
region.  `new` and `fi_mr_reg` come with what the environment answers. -/
inductive RmaThreadOp (n : ℕ) where
  | reg_rma_buffer (t : Fin n) (c : RegCall)
  | unreg_rma_buffer (t : Fin n) (id : ℤ)
  | get_rma_chunk (t : Fin n) (id : ℤ)
  | make (t : Fin n) (ck : Addr)
  | fi_mr_reg (t : Fin n) (mr : Option Addr)
  | advance (t : Fin n)
  deriving DecidableEq, Repr

namespace RmaThreads

variable {n : ℕ}

/-- No thread is in a call, and nothing has been registered. -/
def init (n : ℕ) (initialized : Bool) (mem : Mem) : RmaThreads n :=
  { RegionWorld.init initialized mem with thread := fun _ => .idle }

/-- Thread `t` goes on to `p`. -/
def goto (w : RmaThreads n) (t : Fin n) (p : RmaPlace) : RmaThreads n :=
  { w with thread := Function.update w.thread t p }

/-- An assignment to a field of `*ck`. -/
def store (w : RmaThreads n) (ck : Addr) (f : Chunk → Chunk) : RmaThreads n :=
  { w with mem := Function.update w.mem ck (f (w.mem ck)) }

/-- The next statement of thread `t`, for those that do not depend on an answer. -/
def advance (w : RmaThreads n) (t : Fin n) : Option (RmaThreads n) :=
  match w.thread t with
  | .idle | .make _ | .fi_mr_reg _ _ => none
  | .check c =>
      if MsgStack.rejects w.stack c.buffer c.buffer_size then some (w.goto t .idle)
      else some (w.goto t (.make c))
  | .buffer c ck =>
      some ((w.store ck fun h => { h with buffer := c.buffer }).goto t (.capacity c ck))
  | .capacity c ck =>
      some ((w.store ck fun h => { h with capacity := c.buffer_size }).goto t (.buffer_id c ck))
  | .buffer_id c ck =>
      some ((w.store ck fun h => { h with buffer_id := toUInt64 c.buffer_id }).goto t
        (.fi_mr_reg c ck))
  | .fail ck => some ({ w with chunks := w.chunks.release ck }.goto t .idle)
  | .mr c ck mr => some ((w.store ck fun h => { h with mr := mr }).goto t (.insert c ck mr))
  | .insert c ck _ =>
      let rmaChunkMap := w.stack.rmaChunkMap.insertNew c.buffer_id ck
      some ({ w with stack := { w.stack with rmaChunkMap := rmaChunkMap } }.goto t .idle)
  | .look id =>
      let (stack, ck) := MsgStack.get_rma_chunk w.stack id
      some ({ w with stack := stack }.goto t (.test id ck))
  | .test id ck =>
      if ck = nullptr then some (w.goto t .idle) else some (w.goto t (.close id ck))
  | .close id ck =>
      some ({ w with regions := w.regions.release (w.mem ck).mr }.goto t (.delete id))
  | .delete id =>
      -- `rmaChunkMap[buffer_id]` once more, without the lock; deleting null does nothing
      let (stack, ck) := MsgStack.get_rma_chunk w.stack id
      let chunks := if ck = nullptr then w.chunks else w.chunks.release ck
      some ({ w with stack := stack, chunks := chunks }.goto t (.erase id))
  | .erase id =>
      let rmaChunkMap := w.stack.rmaChunkMap.remove id
      some ({ w with stack := { w.stack with rmaChunkMap := rmaChunkMap } }.goto t .idle)

/-- One step of one thread. -/
def step (w : RmaThreads n) : RmaThreadOp n → Option (RmaThreads n)
  | .reg_rma_buffer t c => if w.thread t = .idle then some (w.goto t (.check c)) else none
  | .unreg_rma_buffer t id => if w.thread t = .idle then some (w.goto t (.look id)) else none
  | .get_rma_chunk t id =>
      if w.thread t = .idle then
        some { w with stack := (MsgStack.get_rma_chunk w.stack id).1 }
      else none
  | .make t ck =>
      match w.thread t with
      | .make c =>
          if h : ck = nullptr ∨ w.chunks.InUse ck then none
          else
            let chunks := w.chunks.acquire ck (not_or.mp h).2
            some (({ w with chunks := chunks }.store ck fun _ => {}).goto t (.buffer c ck))
      | _ => none
  | .fi_mr_reg t mr =>
      match w.thread t, mr with
      | .fi_mr_reg _ ck, none => some (w.goto t (.fail ck))
      | .fi_mr_reg c ck, some mr =>
          if h : w.regions.InUse mr then none
          else some ({ w with regions := w.regions.acquire mr h }.goto t (.mr c ck mr))
      | _, _ => none
  | .advance t => w.advance t

/-! ## What the calls promise, and when -/

/-- No region has been closed twice and no chunk deleted twice. -/
def Once (w : RmaThreads n) : Prop := w.regions.AtMostOnce ∧ w.chunks.AtMostOnce

/-- The id that a step looks up. -/
def looksUp (w : RmaThreads n) : RmaThreadOp n → Option ℤ
  | .get_rma_chunk t id => if w.thread t = .idle then some id else none
  | .advance t =>
      match w.thread t with
      | .look id => some id
      | _ => none
  | _ => none

/-- A chunk that `get_rma_chunk` returns has not been deleted. -/
def ReturnsAlive (w : RmaThreads n) (op : RmaThreadOp n) : Prop :=
  ∀ id ∈ w.looksUp op, (MsgStack.get_rma_chunk w.stack id).2 = nullptr ∨
    w.chunks.InUse (MsgStack.get_rma_chunk w.stack id).2

end RmaThreads

namespace RmaPlace

/-- The id whose region a thread has closed and whose entry it has not erased yet. -/
def closed : RmaPlace → Option ℤ
  | .delete id | .erase id => some id
  | _ => none

/-- The id whose chunk a thread has deleted and whose entry it has not erased yet. -/
def deleted : RmaPlace → Option ℤ
  | .erase id => some id
  | _ => none

/-- The chunk that only the thread knows. -/
def chunk : RmaPlace → Option Addr
  | .buffer _ ck | .capacity _ ck | .buffer_id _ ck | .fi_mr_reg _ ck | .fail ck | .mr _ ck _
  | .insert _ ck _ => some ck
  | _ => none

/-- The region that only the thread knows. -/
def region : RmaPlace → Option Addr
  | .mr _ _ h | .insert _ _ h => some h
  | _ => none

end RmaPlace

namespace RmaThreads

variable {n : ℕ}

/-- **The condition.**  An id is not looked up while a thread has deleted its chunk and not
erased its entry; and a thread that closes the region of a chunk finds the chunk still
registered, and no thread that has closed it already. -/
def Guard (w : RmaThreads n) (op : RmaThreadOp n) : Prop :=
  (∀ id ∈ w.looksUp op, ∀ u, (w.thread u).deleted ≠ some id) ∧
    match op with
    | .advance t =>
        match w.thread t with
        | .close id ck =>
            w.stack.rmaChunkMap.find? id = some ck ∧ ∀ u, (w.thread u).closed ≠ some id
        | _ => True
    | _ => True

instance (w : RmaThreads n) : DecidablePred w.Guard := fun op => by
  unfold Guard
  refine @instDecidableAnd _ _ (inferInstance) ?_
  cases op with
  | advance t =>
    simp only
    split <;> infer_instance
  | _ => exact isTrue trivial

/-! ## Who owns what -/

/-- An owner of a chunk or of a region. -/
inductive RmaOwner (n : ℕ) where
  | thread (t : Fin n)
  | entry (id : ℤ)
  deriving DecidableEq

/-- What holds of a thread at its place: what only it knows is its own, and what it has
looked at is there. -/
structure Placed (w : RegionWorld) (chunkOf regionOf : Addr → Option (RmaOwner n)) (t : Fin n)
    (p : RmaPlace) : Prop where
  chunk : ∀ ck, p.chunk = some ck → ck ≠ nullptr ∧ chunkOf ck = some (.thread t)
  region : ∀ mr, p.region = some mr → regionOf mr = some (.thread t)
  header : ∀ c ck mr, p = .insert c ck mr → (w.mem ck).mr = mr
  tested : ∀ id ck, p = .close id ck → ck ≠ nullptr
  present : ∀ id, p = .delete id → ∃ ck, w.Entry id ck

/-- Every chunk that is alive and every region that is open has one owner: the thread that
is registering it, or the id it is registered under, until a thread unregisters it. -/
structure Inv (w : RmaThreads n) (chunkOf regionOf : Addr → Option (RmaOwner n)) : Prop where
  chunks : w.chunks.Holds chunkOf
  regions : w.regions.Holds regionOf
  once : w.Once
  placed : ∀ t, Placed w.toRegionWorld chunkOf regionOf t (w.thread t)
  entry_chunk : ∀ id ck, w.Entry id ck → (∀ t, (w.thread t).deleted ≠ some id) →
    chunkOf ck = some (.entry id)
  entry_region : ∀ id ck, w.Entry id ck → (∀ t, (w.thread t).closed ≠ some id) →
    regionOf (w.mem ck).mr = some (.entry id)
  one : ∀ t u id, (w.thread t).closed = some id → (w.thread u).closed = some id → t = u

/-- Most places ask nothing of the thread. -/
theorem placed_of_nothing {w : RegionWorld} {chunkOf regionOf : Addr → Option (RmaOwner n)}
    {t : Fin n} {p : RmaPlace} (hchunk : p.chunk = none) (hregion : p.region = none)
    (htested : ∀ id ck, p = .close id ck → ck ≠ nullptr)
    (hpresent : ∀ id, p = .delete id → ∃ ck, w.Entry id ck) :
    Placed w chunkOf regionOf t p :=
  { chunk := fun ck h => absurd (hchunk.symm.trans h) (by simp)
    region := fun mr h => absurd (hregion.symm.trans h) (by simp)
    header := fun c ck mr h => absurd (h ▸ hchunk) (by simp [RmaPlace.chunk])
    tested := htested
    present := hpresent }

theorem inv_init (n : ℕ) (initialized : Bool) (mem : Mem) :
    (init n initialized mem).Inv (fun _ => none) fun _ => none :=
  { chunks := Resources.holds_none_made
    regions := Resources.holds_none_made
    once := ⟨Resources.atMostOnce_none_made, Resources.atMostOnce_none_made⟩
    placed := fun _ => placed_of_nothing rfl rfl (by simp [init]) (by simp [init])
    entry_chunk := fun id ck h => absurd h (RegionWorld.not_entry_init initialized mem id ck)
    entry_region := fun id ck h => absurd h (RegionWorld.not_entry_init initialized mem id ck)
    one := fun _ _ _ h => absurd h (by simp [init, RmaPlace.closed]) }

/-- What has different owners is different. -/
theorem ne_of_owner {f : Addr → Option (RmaOwner n)} {a b : Addr} {k k' : RmaOwner n}
    (ha : f a = some k) (hb : f b = some k') (hk : k ≠ k') : a ≠ b := by
  rintro rfl
  exact hk (Option.some.inj (ha.symm.trans hb))

theorem deleted_closed {p : RmaPlace} {id : ℤ} (h : p.deleted = some id) : p.closed = some id := by
  cases p <;> simp_all [RmaPlace.deleted, RmaPlace.closed]

section

variable {w w' : RmaThreads n} {chunkOf regionOf chunkOf' regionOf' : Addr → Option (RmaOwner n)}
  {t : Fin n} {p : RmaPlace}

/-- A chunk found under an id has not been deleted, unless a thread has just done that. -/
theorem Inv.inUse_entry (h : w.Inv chunkOf regionOf) {id : ℤ} {ck : Addr} (hck : w.Entry id ck)
    (hdel : ∀ u, (w.thread u).deleted ≠ some id) : w.chunks.InUse ck :=
  h.chunks.inUse (h.entry_chunk id ck hck hdel)

/-- No thread has closed (or deleted) under an id, when none has after a step of a thread
that had not, or still has. -/
theorem not_before (f : RmaPlace → Option ℤ) (hthread : w'.thread = Function.update w.thread t p)
    {id : ℤ} (hold : f (w.thread t) = f p ∨ f (w.thread t) ≠ some id)
    (hnot : ∀ u, f (w'.thread u) ≠ some id) (u : Fin n) : f (w.thread u) ≠ some id := by
  have hu := hnot u
  rw [hthread] at hu
  by_cases hut : u = t
  · rw [hut, Function.update_self] at hu
    rw [hut]
    rcases hold with hold | hold
    · rwa [hold]
    · exact hold
  · rwa [Function.update_of_ne hut] at hu

/-- **One thread takes a step.**  The others keep their places when what they own stays
theirs, and when the entry whose chunk one of them is about to delete stays. -/
theorem inv_of_step (h : w.Inv chunkOf regionOf)
    (hthread : w'.thread = Function.update w.thread t p)
    (hchunks : w'.chunks.Holds chunkOf') (hregions : w'.regions.Holds regionOf')
    (honce : w'.Once) (hself : Placed w'.toRegionWorld chunkOf' regionOf' t p)
    (hchunk : ∀ u ck, u ≠ t → chunkOf ck = some (.thread u) →
      chunkOf' ck = some (.thread u) ∧ (w'.mem ck).mr = (w.mem ck).mr)
    (hregion : ∀ u mr, u ≠ t → regionOf mr = some (.thread u) → regionOf' mr = some (.thread u))
    (hpresent : ∀ u id ck, u ≠ t → w.thread u = .delete id → w.Entry id ck → w'.Entry id ck)
    (hone : ∀ id, p.closed = some id → ∀ u, u ≠ t → (w.thread u).closed ≠ some id)
    (hentry_chunk : ∀ id ck, w'.Entry id ck → (∀ u, (w'.thread u).deleted ≠ some id) →
      chunkOf' ck = some (.entry id))
    (hentry_region : ∀ id ck, w'.Entry id ck → (∀ u, (w'.thread u).closed ≠ some id) →
      regionOf' (w'.mem ck).mr = some (.entry id)) : w'.Inv chunkOf' regionOf' := by
  refine ⟨hchunks, hregions, honce, ?_, hentry_chunk, hentry_region, ?_⟩
  · intro u
    rw [hthread]
    by_cases hu : u = t
    · rw [hu, Function.update_self]
      exact hself
    · rw [Function.update_of_ne hu]
      have hp := h.placed u
      refine ⟨fun ck hck => ?_, fun mr hmr => ?_, fun c ck mr hins => ?_, hp.tested,
        fun id hdel => ?_⟩
      · obtain ⟨hne, hown⟩ := hp.chunk ck hck
        exact ⟨hne, (hchunk u ck hu hown).1⟩
      · exact hregion u mr hu (hp.region mr hmr)
      · have hck : (w.thread u).chunk = some ck := by rw [hins]; rfl
        rw [(hchunk u ck hu (hp.chunk ck hck).2).2]
        exact hp.header c ck mr hins
      · obtain ⟨ck, hck⟩ := hp.present id hdel
        exact ⟨ck, hpresent u id ck hu hdel hck⟩
  · intro u v id hu hv
    rw [hthread] at hu hv
    by_cases hut : u = t <;> by_cases hvt : v = t
    · rw [hut, hvt]
    · rw [hut, Function.update_self] at hu
      rw [Function.update_of_ne hvt] at hv
      exact absurd hv (hone id hu v hvt)
    · rw [hvt, Function.update_self] at hv
      rw [Function.update_of_ne hut] at hu
      exact absurd hu (hone id hv u hut)
    · rw [Function.update_of_ne hut] at hu
      rw [Function.update_of_ne hvt] at hv
      exact h.one u v id hu hv

/-- A thread that is not inside the unregistration of a chunk takes a step that changes no
entry, acquires and releases nothing, and gives no chunk a new region. -/
theorem inv_move (h : w.Inv chunkOf regionOf)
    (hthread : w'.thread = Function.update w.thread t p)
    (hentry : ∀ id ck, w'.Entry id ck ↔ w.Entry id ck)
    (hmr : ∀ a, (w'.mem a).mr = (w.mem a).mr)
    (hchunks : w'.chunks = w.chunks) (hregions : w'.regions = w.regions)
    (hself : Placed w'.toRegionWorld chunkOf regionOf t p)
    (hold : (w.thread t).closed = none) (hnew : p.closed = none) : w'.Inv chunkOf regionOf := by
  have hold' : (w.thread t).deleted = none := by
    cases hd : (w.thread t).deleted with
    | none => rfl
    | some id => exact absurd ((deleted_closed hd).symm.trans hold) (by simp)
  refine inv_of_step h hthread (hchunks ▸ h.chunks) (hregions ▸ h.regions) ?_ hself
    (fun _ ck _ hck => ⟨hck, hmr ck⟩) (fun _ _ _ hown => hown)
    (fun _ id ck _ _ hck => (hentry id ck).mpr hck) ?_ ?_ ?_
  · rw [Once, hchunks, hregions]
    exact h.once
  · intro id hid
    exact absurd (hnew.symm.trans hid) (by simp)
  · intro id ck hck hdel
    refine h.entry_chunk id ck ((hentry id ck).mp hck) (not_before _ hthread ?_ hdel)
    exact Or.inr (hold' ▸ (Option.some_ne_none id).symm)
  · intro id ck hck hcl
    rw [hmr]
    refine h.entry_region id ck ((hentry id ck).mp hck) (not_before _ hthread ?_ hcl)
    exact Or.inr (hold ▸ (Option.some_ne_none id).symm)

/-! ### Registration -/

section

variable {c : RegCall} {ck mr : Addr}

theorem inv_make (h : w.Inv chunkOf regionOf) (hp : w.thread t = .make c) (hnull : ck ≠ nullptr)
    (hfree : ¬ w.chunks.InUse ck) :
    Inv (({ w with chunks := w.chunks.acquire ck hfree }.store ck fun _ => {}).goto t
      (.buffer c ck)) (Function.update chunkOf ck (some (.thread t))) regionOf := by
  -- what has an owner is not the new chunk
  have hne : ∀ a k, chunkOf a = some k → a ≠ ck := by
    rintro a k hk rfl
    exact hfree (h.chunks.inUse hk)
  have hdel : ∀ id, (w.thread t).deleted ≠ some id := by simp [hp, RmaPlace.deleted]
  have hcl : ∀ id, (w.thread t).closed ≠ some id := by simp [hp, RmaPlace.closed]
  refine inv_of_step h rfl (h.chunks.acquire hfree _) h.regions ⟨h.once.1, h.once.2.acquire hfree⟩
    ?_ ?_ (fun _ _ _ hown => hown) (fun _ _ _ _ _ hck => hck) (by simp [RmaPlace.closed]) ?_ ?_
  · refine ⟨fun a ha => ?_, by simp [RmaPlace.region], by simp, by simp, by simp⟩
    cases ha
    exact ⟨hnull, Function.update_self ..⟩
  · intro u a _ ha
    refine ⟨(Function.update_of_ne (hne a _ ha) _ _).trans ha, ?_⟩
    exact congrArg Chunk.mr (Function.update_of_ne (hne a _ ha) _ _)
  · intro id a ha hnot
    have hown := h.entry_chunk id a ha (not_before _ rfl (Or.inr (hdel id)) hnot)
    exact (Function.update_of_ne (hne a _ hown) _ _).trans hown
  · intro id a ha hnot
    have hnot' := not_before _ rfl (Or.inr (hcl id)) hnot
    have hown := h.entry_chunk id a ha fun u hu => hnot' u (deleted_closed hu)
    have hmem : Function.update w.mem ck {} a = w.mem a := Function.update_of_ne (hne a _ hown) _ _
    show regionOf (Function.update w.mem ck {} a).mr = _
    rw [hmem]
    exact h.entry_region id a ha hnot'

theorem inv_fi_mr_reg (h : w.Inv chunkOf regionOf) (hp : w.thread t = .fi_mr_reg c ck)
    (hfree : ¬ w.regions.InUse mr) :
    Inv ({ w with regions := w.regions.acquire mr hfree }.goto t (.mr c ck mr)) chunkOf
      (Function.update regionOf mr (some (.thread t))) := by
  have hne : ∀ a k, regionOf a = some k → a ≠ mr := by
    rintro a k hk rfl
    exact hfree (h.regions.inUse hk)
  have hdel : ∀ id, (w.thread t).deleted ≠ some id := by simp [hp, RmaPlace.deleted]
  have hcl : ∀ id, (w.thread t).closed ≠ some id := by simp [hp, RmaPlace.closed]
  have hown : (w.thread t).chunk = some ck := by rw [hp]; rfl
  refine inv_of_step h rfl h.chunks (h.regions.acquire hfree _) ⟨h.once.1.acquire hfree, h.once.2⟩
    ?_ (fun _ _ _ hck => ⟨hck, rfl⟩) ?_ (fun _ _ _ _ _ hck => hck) (by simp [RmaPlace.closed])
    (fun id a ha hnot => h.entry_chunk id a ha (not_before _ rfl (Or.inr (hdel id)) hnot)) ?_
  · refine ⟨fun a ha => ?_, fun a ha => ?_, by simp, by simp, by simp⟩
    · cases ha
      exact (h.placed t).chunk ck hown
    · cases ha
      exact Function.update_self ..
  · intro u a _ ha
    exact (Function.update_of_ne (hne a _ ha) _ _).trans ha
  · intro id a ha hnot
    have hold := h.entry_region id a ha (not_before _ rfl (Or.inr (hcl id)) hnot)
    exact (Function.update_of_ne (hne _ _ hold) _ _).trans hold

/-- `fi_mr_reg` has failed: the chunk goes. -/
theorem inv_fail (h : w.Inv chunkOf regionOf) (hp : w.thread t = .fail ck) :
    Inv ({ w with chunks := w.chunks.release ck }.goto t .idle)
      (Function.update chunkOf ck none) regionOf := by
  have hown : chunkOf ck = some (.thread t) := ((h.placed t).chunk ck (by rw [hp]; rfl)).2
  have hdel : ∀ id, (w.thread t).deleted ≠ some id := by simp [hp, RmaPlace.deleted]
  have hcl : ∀ id, (w.thread t).closed ≠ some id := by simp [hp, RmaPlace.closed]
  refine inv_of_step h rfl (h.chunks.release ck) h.regions
    ⟨h.once.1, h.once.2.release (h.chunks.inUse hown)⟩
    (placed_of_nothing rfl rfl (by simp) (by simp)) ?_ (fun _ _ _ hown => hown)
    (fun _ _ _ _ _ hck => hck) (by simp [RmaPlace.closed]) ?_
    (fun id a ha hnot => h.entry_region id a ha (not_before _ rfl (Or.inr (hcl id)) hnot))
  · intro u a hu ha
    have hua : a ≠ ck := ne_of_owner ha hown (by simpa using hu)
    exact ⟨(Function.update_of_ne hua _ _).trans ha, rfl⟩
  · intro id a ha hnot
    have hold := h.entry_chunk id a ha (not_before _ rfl (Or.inr (hdel id)) hnot)
    exact (Function.update_of_ne (ne_of_owner hold hown (by simp)) _ _).trans hold

/-- `ck->mr = mr`. -/
theorem inv_mr (h : w.Inv chunkOf regionOf) (hp : w.thread t = .mr c ck mr) :
    Inv ((w.store ck fun hd => { hd with mr := mr }).goto t (.insert c ck mr)) chunkOf
      regionOf := by
  have hown := (h.placed t).chunk ck (by rw [hp]; rfl)
  have hdel : ∀ id, (w.thread t).deleted ≠ some id := by simp [hp, RmaPlace.deleted]
  have hcl : ∀ id, (w.thread t).closed ≠ some id := by simp [hp, RmaPlace.closed]
  refine inv_of_step h rfl h.chunks h.regions h.once ?_ ?_ (fun _ _ _ hown => hown)
    (fun _ _ _ _ _ hck => hck) (by simp [RmaPlace.closed])
    (fun id a ha hnot => h.entry_chunk id a ha (not_before _ rfl (Or.inr (hdel id)) hnot)) ?_
  · refine ⟨fun a ha => ?_, fun a ha => ?_, fun c' a mr' ha => ?_, by simp, by simp⟩
    · cases ha
      exact hown
    · cases ha
      exact (h.placed t).region mr (by rw [hp]; rfl)
    · cases ha
      show (Function.update w.mem ck { w.mem ck with mr := mr } ck).mr = mr
      rw [Function.update_self]
  · intro u a hu ha
    have hua : a ≠ ck := ne_of_owner ha hown.2 (by simpa using hu)
    exact ⟨ha, congrArg Chunk.mr (Function.update_of_ne hua _ _)⟩
  · intro id a ha hnot
    have hnot' := not_before _ rfl (Or.inr (hcl id)) hnot
    have hold := h.entry_chunk id a ha fun u hu => hnot' u (deleted_closed hu)
    have hmem : ((w.store ck fun hd => { hd with mr := mr }).mem a) = w.mem a :=
      Function.update_of_ne (ne_of_owner hold hown.2 (by simp)) _ _
    show regionOf ((w.store ck fun hd => { hd with mr := mr }).mem a).mr = _
    rw [hmem]
    exact h.entry_region id a ha hnot'

/-- The chunk goes to the entry, if there is none yet. -/
theorem inv_insert (h : w.Inv chunkOf regionOf) (hp : w.thread t = .insert c ck mr) :
    ∃ chunkOf' regionOf', Inv ({ w with stack := { w.stack with
        rmaChunkMap := w.stack.rmaChunkMap.insertNew c.buffer_id ck } }.goto t .idle)
      chunkOf' regionOf' := by
  obtain ⟨hnull, hown⟩ := (h.placed t).chunk ck (by rw [hp]; rfl)
  have hownR : regionOf mr = some (.thread t) := (h.placed t).region mr (by rw [hp]; rfl)
  have hmr : (w.mem ck).mr = mr := (h.placed t).header c ck mr hp
  have hdel : ∀ id, (w.thread t).deleted ≠ some id := by simp [hp, RmaPlace.deleted]
  have hcl : ∀ id, (w.thread t).closed ≠ some id := by simp [hp, RmaPlace.closed]
  cases hfind : w.stack.rmaChunkMap.find? c.buffer_id with
  | some old =>
    -- the old entry is kept, and the chunk is in none
    refine ⟨chunkOf, regionOf, inv_move h rfl (fun id a => ?_) (fun _ => rfl) rfl rfl
      (placed_of_nothing rfl rfl (by simp) (by simp)) (by rw [hp]; rfl) rfl⟩
    simp only [RegionWorld.Entry, goto, StdMap.insertNew_of_some _ hfind]
  | none =>
    have hentry : ∀ id a, RegionWorld.Entry ({ w with stack := { w.stack with
        rmaChunkMap := w.stack.rmaChunkMap.insertNew c.buffer_id ck } }.goto t .idle).toRegionWorld
          id a ↔ id = c.buffer_id ∧ a = ck ∨ w.Entry id a := by
      intro id a
      show a ≠ nullptr ∧ (w.stack.rmaChunkMap.insertNew c.buffer_id ck).find? id = some a ↔ _
      rw [StdMap.find?_insertNew_eq_some hfind]
      constructor
      · rintro ⟨hne, hid | hid⟩
        · exact Or.inl hid
        · exact Or.inr ⟨hne, hid⟩
      · rintro (⟨rfl, rfl⟩ | ⟨hne, hid⟩)
        · exact ⟨hnull, Or.inl ⟨rfl, rfl⟩⟩
        · exact ⟨hne, Or.inr hid⟩
    refine ⟨Function.update chunkOf ck (some (.entry c.buffer_id)),
      Function.update regionOf mr (some (.entry c.buffer_id)),
      inv_of_step h rfl (h.chunks.pass (hown ▸ Option.some_ne_none _) _)
        (h.regions.pass (hownR ▸ Option.some_ne_none _) _) h.once
        (placed_of_nothing rfl rfl (by simp) (by simp)) ?_ ?_
        (fun u id a _ _ ha => (hentry id a).mpr (Or.inr ha)) (by simp [RmaPlace.closed]) ?_ ?_⟩
    · intro u a hu ha
      have hua : a ≠ ck := ne_of_owner ha hown (by simpa using hu)
      exact ⟨(Function.update_of_ne hua _ _).trans ha, rfl⟩
    · intro u a hu ha
      have hua : a ≠ mr := ne_of_owner ha hownR (by simpa using hu)
      exact (Function.update_of_ne hua _ _).trans ha
    · intro id a ha hnot
      rcases (hentry id a).mp ha with ⟨rfl, rfl⟩ | ha
      · exact Function.update_self ..
      · have hold := h.entry_chunk id a ha (not_before _ rfl (Or.inr (hdel id)) hnot)
        exact (Function.update_of_ne (ne_of_owner hold hown (by simp)) _ _).trans hold
    · intro id a ha hnot
      show Function.update regionOf mr _ (w.mem a).mr = _
      rcases (hentry id a).mp ha with ⟨rfl, rfl⟩ | ha
      · rw [hmr, Function.update_self]
      · have hold := h.entry_region id a ha (not_before _ rfl (Or.inr (hcl id)) hnot)
        rw [Function.update_of_ne (ne_of_owner hold hownR (by simp)), hold]

end

/-! ### Unregistration -/

section

variable {id : ℤ} {ck : Addr}

/-- The region of a registered chunk is closed, which nobody has done yet. -/
theorem inv_close (h : w.Inv chunkOf regionOf) (hp : w.thread t = .close id ck)
    (hfind : w.stack.rmaChunkMap.find? id = some ck)
    (hnot : ∀ u, (w.thread u).closed ≠ some id) :
    Inv ({ w with regions := w.regions.release (w.mem ck).mr }.goto t (.delete id)) chunkOf
      (Function.update regionOf (w.mem ck).mr none) := by
  have hck : w.Entry id ck := ⟨(h.placed t).tested id ck hp, hfind⟩
  have hown : regionOf (w.mem ck).mr = some (.entry id) := h.entry_region id ck hck hnot
  have hdel : ∀ i, (w.thread t).deleted ≠ some i := by simp [hp, RmaPlace.deleted]
  have hcl : ∀ i, (w.thread t).closed ≠ some i := by simp [hp, RmaPlace.closed]
  refine inv_of_step h rfl h.chunks (h.regions.release _)
    ⟨h.once.1.release (h.regions.inUse hown), h.once.2⟩
    (placed_of_nothing rfl rfl (by simp) ?_) (fun _ _ _ hck => ⟨hck, rfl⟩) ?_
    (fun _ _ _ _ _ hck => hck) ?_
    (fun i a ha hnot' => h.entry_chunk i a ha (not_before _ rfl (Or.inr (hdel i)) hnot')) ?_
  · intro i hi
    cases hi
    exact ⟨ck, hck⟩
  · intro u a _ ha
    exact (Function.update_of_ne (ne_of_owner ha hown (by simp)) _ _).trans ha
  · intro i hi u _
    cases hi
    exact hnot u
  · intro i a ha hnot'
    have hold := h.entry_region i a ha (not_before _ rfl (Or.inr (hcl i)) hnot')
    have hi : i ≠ id := by
      rintro rfl
      exact hnot' t (by simp [goto, RmaPlace.closed])
    exact (Function.update_of_ne (ne_of_owner hold hown (by simpa using hi)) _ _).trans hold

/-- The chunk that is found under the id once more is the one whose region was closed. -/
theorem inv_delete (h : w.Inv chunkOf regionOf) (hp : w.thread t = .delete id) :
    ∃ ck, w.Entry id ck ∧ Inv ({ w with chunks := w.chunks.release ck }.goto t (.erase id))
      (Function.update chunkOf ck none) regionOf := by
  obtain ⟨ck, hck⟩ := (h.placed t).present id hp
  refine ⟨ck, hck, ?_⟩
  have hself : (w.thread t).closed = some id := by rw [hp]; rfl
  have hnot : ∀ u, (w.thread u).deleted ≠ some id := by
    intro u hu
    rw [h.one u t id (deleted_closed hu) hself, hp] at hu
    exact absurd hu (by simp [RmaPlace.deleted])
  have hown : chunkOf ck = some (.entry id) := h.entry_chunk id ck hck hnot
  have hdel : ∀ i, (w.thread t).deleted ≠ some i := by simp [hp, RmaPlace.deleted]
  refine inv_of_step h rfl (h.chunks.release ck) h.regions
    ⟨h.once.1, h.once.2.release (h.chunks.inUse hown)⟩
    (placed_of_nothing rfl rfl (by simp) (by simp)) ?_ (fun _ _ _ hown => hown)
    (fun _ _ _ _ _ hck => hck) ?_ ?_
    (fun i a ha hnot' => h.entry_region i a ha (not_before _ rfl (Or.inl (by rw [hp]; rfl)) hnot'))
  · intro u a _ ha
    exact ⟨(Function.update_of_ne (ne_of_owner ha hown (by simp)) _ _).trans ha, rfl⟩
  · intro i hi u hu huc
    cases hi
    exact hu (h.one u t id huc hself)
  · intro i a ha hnot'
    have hold := h.entry_chunk i a ha (not_before _ rfl (Or.inr (hdel i)) hnot')
    have hi : i ≠ id := by
      rintro rfl
      exact hnot' t (by simp [goto, RmaPlace.deleted])
    exact (Function.update_of_ne (ne_of_owner hold hown (by simpa using hi)) _ _).trans hold

theorem inv_erase (h : w.Inv chunkOf regionOf) (hp : w.thread t = .erase id) :
    Inv ({ w with stack := { w.stack with rmaChunkMap := w.stack.rmaChunkMap.remove id } }.goto t
      .idle) chunkOf regionOf := by
  have hself : (w.thread t).closed = some id := by rw [hp]; rfl
  have hentry : ∀ i a, RegionWorld.Entry ({ w with stack := { w.stack with
      rmaChunkMap := w.stack.rmaChunkMap.remove id } }.goto t .idle).toRegionWorld i a ↔
        i ≠ id ∧ w.Entry i a := by
    intro i a
    show a ≠ nullptr ∧ (w.stack.rmaChunkMap.remove id).find? i = some a ↔ _
    rw [StdMap.find?_remove_eq_some, and_left_comm, RegionWorld.Entry]
  refine inv_of_step h rfl h.chunks h.regions h.once
    (placed_of_nothing rfl rfl (by simp) (by simp)) (fun _ _ _ hck => ⟨hck, rfl⟩)
    (fun _ _ _ hown => hown) ?_ (by simp [RmaPlace.closed]) ?_ ?_
  · intro u i a hu hdel ha
    refine (hentry i a).mpr ⟨?_, ha⟩
    rintro rfl
    exact hu (h.one u t i (by rw [hdel]; rfl) hself)
  · intro i a ha hnot
    obtain ⟨hi, ha⟩ := (hentry i a).mp ha
    refine h.entry_chunk i a ha (not_before _ rfl (Or.inr ?_) hnot)
    simp [hp, RmaPlace.deleted, Ne.symm hi]
  · intro i a ha hnot
    obtain ⟨hi, ha⟩ := (hentry i a).mp ha
    refine h.entry_region i a ha (not_before _ rfl (Or.inr ?_) hnot)
    simp [hp, RmaPlace.closed, Ne.symm hi]

end

end

/-! ## Runs -/

section

variable {w w' : RmaThreads n}

/-- A lookup by a thread leaves every entry, and the ledgers, as they were. -/
theorem inv_look {chunkOf regionOf : Addr → Option (RmaOwner n)} (h : w.Inv chunkOf regionOf)
    {t : Fin n} {p : RmaPlace} (i : ℤ) (hp : p.chunk = none) (hregion : p.region = none)
    (hold : (w.thread t).closed = none) (hnew : p.closed = none)
    (htested : ∀ id ck, p ≠ .close id ck) :
    Inv ({ w with stack := (MsgStack.get_rma_chunk w.stack i).1 }.goto t p) chunkOf regionOf := by
  refine inv_move h rfl (RegionWorld.entry_get_rma_chunk w.toRegionWorld i) (fun _ => rfl) rfl rfl
    (placed_of_nothing hp hregion (fun id ck hc => absurd hc (htested id ck)) ?_) hold hnew
  rintro id rfl
  exact absurd hnew (by simp [RmaPlace.closed])

/-- A thread goes on and changes nothing but fields of its own chunk. -/
theorem inv_goto {chunkOf regionOf : Addr → Option (RmaOwner n)} (h : w.Inv chunkOf regionOf)
    {t : Fin n} {p : RmaPlace} {mem : Mem} (hmr : ∀ a, (mem a).mr = (w.mem a).mr)
    (hchunk : ∀ ck, p.chunk = some ck → (w.thread t).chunk = some ck) (hregion : p.region = none)
    (hold : (w.thread t).closed = none) (hnew : p.closed = none)
    (htested : ∀ id ck, p = .close id ck → ck ≠ nullptr) :
    Inv ({ w with mem := mem }.goto t p) chunkOf regionOf := by
  refine inv_move h rfl (fun _ _ => Iff.rfl) hmr rfl rfl
    ⟨fun ck hck => (h.placed t).chunk ck (hchunk ck hck),
      fun mr hr => absurd (hregion.symm.trans hr) (by simp), ?_, htested, ?_⟩ hold hnew
  · rintro c ck mr rfl
    exact absurd hregion (by simp [RmaPlace.region])
  · rintro id rfl
    exact absurd hnew (by simp [RmaPlace.closed])

theorem inv_store {chunkOf regionOf : Addr → Option (RmaOwner n)} (h : w.Inv chunkOf regionOf)
    {t : Fin n} {p : RmaPlace} {ck : Addr} {f : Chunk → Chunk} (hf : ∀ hd, (f hd).mr = hd.mr)
    (hchunk : ∀ ck, p.chunk = some ck → (w.thread t).chunk = some ck) (hregion : p.region = none)
    (hold : (w.thread t).closed = none) (hnew : p.closed = none)
    (htested : ∀ id ck, p = .close id ck → ck ≠ nullptr) :
    Inv ((w.store ck f).goto t p) chunkOf regionOf := by
  refine inv_goto h (fun a => ?_) hchunk hregion hold hnew htested
  by_cases ha : a = ck
  · rw [ha, Function.update_self, hf]
  · rw [Function.update_of_ne ha]

theorem inv_advance {chunkOf regionOf : Addr → Option (RmaOwner n)} {t : Fin n}
    (h : w.Inv chunkOf regionOf) (hguard : w.Guard (.advance t)) (hstep : w.advance t = some w') :
    ∃ chunkOf regionOf, w'.Inv chunkOf regionOf := by
  unfold advance at hstep
  cases hp : w.thread t with
  | idle | make c | fi_mr_reg c ck =>
    rw [hp] at hstep
    cases hstep
  | check c =>
    rw [hp] at hstep
    have hold : (w.thread t).closed = none := by rw [hp]; rfl
    simp only at hstep
    split at hstep
    · cases hstep
      exact ⟨_, _, inv_goto h (fun _ => rfl) (by simp [RmaPlace.chunk]) rfl hold rfl (by simp)⟩
    · cases hstep
      exact ⟨_, _, inv_goto h (fun _ => rfl) (by simp [RmaPlace.chunk]) rfl hold rfl (by simp)⟩
  | buffer c ck | capacity c ck | buffer_id c ck =>
    rw [hp] at hstep
    have hold : (w.thread t).closed = none := by rw [hp]; rfl
    cases hstep
    exact ⟨_, _, inv_store h (fun _ => rfl) (by simp [hp, RmaPlace.chunk]) rfl hold rfl (by simp)⟩
  | fail ck =>
    rw [hp] at hstep
    cases hstep
    exact ⟨_, _, inv_fail h hp⟩
  | mr c ck mr =>
    rw [hp] at hstep
    cases hstep
    exact ⟨_, _, inv_mr h hp⟩
  | insert c ck mr =>
    rw [hp] at hstep
    cases hstep
    exact inv_insert h hp
  | look id =>
    rw [hp] at hstep
    have hold : (w.thread t).closed = none := by rw [hp]; rfl
    cases hstep
    exact ⟨_, _, inv_look h id rfl rfl hold rfl (by simp)⟩
  | test id ck =>
    rw [hp] at hstep
    have hold : (w.thread t).closed = none := by rw [hp]; rfl
    simp only at hstep
    split at hstep
    · cases hstep
      exact ⟨_, _, inv_goto h (fun _ => rfl) (by simp [RmaPlace.chunk]) rfl hold rfl (by simp)⟩
    · rename_i hck
      cases hstep
      refine ⟨_, _, inv_goto h (fun _ => rfl) (by simp [RmaPlace.chunk]) rfl hold rfl ?_⟩
      rintro i a hclose
      cases hclose
      exact hck
  | close id ck =>
    rw [hp] at hstep
    cases hstep
    have hfree := hguard.2
    simp only [hp] at hfree
    exact ⟨_, _, inv_close h hp hfree.1 hfree.2⟩
  | delete id =>
    rw [hp] at hstep
    obtain ⟨ck, ⟨hne, hfind⟩, hdelete⟩ := inv_delete h hp
    -- the second lookup finds the entry
    have hget : MsgStack.get_rma_chunk w.stack id = (w.stack, ck) := by
      simp only [MsgStack.get_rma_chunk, StdMap.index_of_some _ hfind, StdMap.value_of_some _ hfind]
    simp only [hget, if_neg hne] at hstep
    cases hstep
    exact ⟨_, _, hdelete⟩
  | erase id =>
    rw [hp] at hstep
    cases hstep
    exact ⟨_, _, inv_erase h hp⟩

/-- **Every step of a thread that meets the guard keeps the owners in order.** -/
theorem inv_step {op : RmaThreadOp n} (hinv : ∃ chunkOf regionOf, w.Inv chunkOf regionOf)
    (hguard : w.Guard op) (hstep : w.step op = some w') :
    ∃ chunkOf regionOf, w'.Inv chunkOf regionOf := by
  obtain ⟨chunkOf, regionOf, h⟩ := hinv
  cases op with
  | reg_rma_buffer t c =>
    rw [step] at hstep
    split at hstep
    · rename_i hidle
      cases hstep
      exact ⟨_, _, inv_goto h (fun _ => rfl) (by simp [RmaPlace.chunk]) rfl (by rw [hidle]; rfl) rfl
        (by simp)⟩
    · cases hstep
  | unreg_rma_buffer t id =>
    rw [step] at hstep
    split at hstep
    · rename_i hidle
      cases hstep
      exact ⟨_, _, inv_goto h (fun _ => rfl) (by simp [RmaPlace.chunk]) rfl (by rw [hidle]; rfl) rfl
        (by simp)⟩
    · cases hstep
  | get_rma_chunk t id =>
    rw [step] at hstep
    split at hstep
    · rename_i hidle
      cases hstep
      have hlook := inv_look (p := .idle) h id rfl rfl (by rw [hidle]; rfl) rfl (by simp)
      rw [goto, ← hidle, Function.update_eq_self] at hlook
      exact ⟨_, _, hlook⟩
    · cases hstep
  | make t ck =>
    simp only [step] at hstep
    split at hstep
    · rename_i c hp
      split at hstep
      · cases hstep
      · rename_i hck
        cases hstep
        exact ⟨_, _, inv_make h hp (not_or.mp hck).1 (not_or.mp hck).2⟩
    · cases hstep
  | fi_mr_reg t mr =>
    simp only [step] at hstep
    split at hstep
    · rename_i c ck hp
      cases hstep
      exact ⟨_, _, inv_goto h (fun _ => rfl) (by simp [hp, RmaPlace.chunk]) rfl (by rw [hp]; rfl)
        rfl (by simp)⟩
    · rename_i c ck mr hp
      split at hstep
      · cases hstep
      · rename_i hmr
        cases hstep
        exact ⟨_, _, inv_fi_mr_reg h hp hmr⟩
    · cases hstep
  | advance t => exact inv_advance h hguard hstep

/-- What a lookup that meets the guard returns is alive. -/
theorem returnsAlive {chunkOf regionOf : Addr → Option (RmaOwner n)} {op : RmaThreadOp n}
    (h : w.Inv chunkOf regionOf) (hguard : w.Guard op) : w.ReturnsAlive op := by
  intro id hid
  by_cases hnull : (MsgStack.get_rma_chunk w.stack id).2 = nullptr
  · exact Or.inl hnull
  · refine Or.inr (h.inUse_entry ⟨hnull, ?_⟩ (hguard.1 id hid))
    show w.stack.rmaChunkMap.find? id = some (w.stack.rmaChunkMap.value id nullptr)
    cases hfind : w.stack.rmaChunkMap.find? id with
    | none =>
      exact absurd (show w.stack.rmaChunkMap.value id nullptr = nullptr by
        rw [StdMap.value, hfind]; rfl) hnull
    | some ck => rw [StdMap.value_of_some _ hfind]

/-- **Each region is closed at most once and each chunk deleted at most once, and no lookup
returns a deleted chunk**, in every run of any number of threads that meets the guard. -/
theorem rma_threads_once (n : ℕ) (initialized : Bool) (mem : Mem) (ops : List (RmaThreadOp n))
    (hguard : Meets step Guard (init n initialized mem) ops) :
    Always step Once (init n initialized mem) ops ∧
      Meets step ReturnsAlive (init n initialized mem) ops := by
  have keep : ∀ (w : RmaThreads n) op w', (∃ chunkOf regionOf, w.Inv chunkOf regionOf) →
      w.Guard op → w.step op = some w' → ∃ chunkOf regionOf, w'.Inv chunkOf regionOf :=
    fun _ _ _ h hg hstep => inv_step h hg hstep
  have hinit : ∃ chunkOf regionOf, (init n initialized mem).Inv chunkOf regionOf :=
    ⟨_, _, inv_init n initialized mem⟩
  constructor
  · exact (always_of_meets keep hinit hguard).mono fun w ⟨_, _, h⟩ => h.once
  · exact meets_of_meets keep (fun _ _ _ ⟨_, _, h⟩ hg _ => returnsAlive h hg) hinit ops hguard

/-- A thread registers a buffer under id 7. -/
def registers (t : Fin 2) : List (RmaThreadOp 2) :=
  [[.reg_rma_buffer t ⟨100, 16, 7⟩, .advance t, .make t 4096], List.replicate 3 (.advance t),
    [.fi_mr_reg t (some 1)], List.replicate 2 (.advance t)].flatten

/-- One thread unregisters the id, and another looks it up before the chunk is deleted. -/
def lookedUpInTime : List (RmaThreadOp 2) :=
  [registers 0, [.unreg_rma_buffer 0 7], List.replicate 3 (.advance 0), [.get_rma_chunk 1 7],
    List.replicate 2 (.advance 0)].flatten

theorem rma_threads_once_lookedUpInTime :
    Always step Once (init 2 true fun _ => {}) lookedUpInTime ∧
      Meets step ReturnsAlive (init 2 true fun _ => {}) lookedUpInTime :=
  rma_threads_once 2 true _ lookedUpInTime (by decide +kernel)

/-- Two threads unregister the id and have both looked the chunk up when they go on. -/
def unregisteredTwice : List (RmaThreadOp 2) :=
  [registers 0, [.unreg_rma_buffer 0 7, .unreg_rma_buffer 1 7], List.replicate 2 (.advance 0),
    List.replicate 3 (.advance 1), [.advance 0]].flatten

/-- The region is closed twice. -/
theorem region_closed_twice :
    ¬ (Always step Once (init 2 true fun _ => {}) unregisteredTwice ∧
      Meets step ReturnsAlive (init 2 true fun _ => {}) unregisteredTwice) := by
  rintro ⟨hall, -⟩
  have hrun : (run step (init 2 true fun _ => {}) unregisteredTwice).map
      (fun w => w.regions.released 0) = some 2 := by
    decide +kernel
  obtain ⟨w, hw, htwo⟩ := Option.map_eq_some_iff.mp hrun
  have hle : w.regions.released 0 ≤ 1 := (hall.last hw).1 0
  omega

/-! ## A thread that runs alone -/

@[simp] theorem goto_self (w : RmaThreads n) (t : Fin n) (p : RmaPlace) :
    (w.goto t p).thread t = p := Function.update_self ..

/-- **A thread that runs alone does what `unreg_rma_buffer` does.** -/
theorem unreg_alone (w : RmaThreads n) (t : Fin n) (id : ℤ) (hidle : w.thread t = .idle) :
    ∃ k w', run step w (.unreg_rma_buffer t id :: List.replicate k (.advance t)) = some w' ∧
      w'.thread = w.thread ∧
      w.toRegionWorld.step (.unreg_rma_buffer id) = some w'.toRegionWorld := by
  rcases RmaWorld.unreg_cases w.stack id with ⟨hnull, hunreg⟩ | ⟨ck, hck, hfind, hunreg⟩
  · -- nothing is registered: the lookup and the test
    refine ⟨2, { w with stack := (MsgStack.get_rma_chunk w.stack id).1 }, ?_, rfl, ?_⟩
    · simp [run, step, advance, hidle, List.replicate, goto, MsgStack.get_rma_chunk, hnull]
    · simp [RegionWorld.step, hunreg]
  · refine ⟨5, { w with
      stack := { w.stack with rmaChunkMap := w.stack.rmaChunkMap.remove id }
      chunks := w.chunks.release ck
      regions := w.regions.release (w.mem ck).mr }, ?_, rfl, ?_⟩
    · simp [run, step, advance, hidle, List.replicate, goto, MsgStack.get_rma_chunk, hck,
        StdMap.index_of_some _ hfind, StdMap.value_of_some _ hfind]
    · have hvalue : (MsgStack.get_rma_chunk w.stack id).2 = ck := StdMap.value_of_some _ hfind
      simp [RegionWorld.step, hunreg, hck, hvalue]

variable {t : Fin n} {c : RegCall} {ck mr : Addr}

/-- The three stores into a new chunk. -/
theorem run_stores (hat : w.thread t = .buffer c ck) :
    run step w [.advance t, .advance t, .advance t] =
      some ((w.store ck fun h => { h with
        buffer := c.buffer
        capacity := c.buffer_size
        buffer_id := toUInt64 c.buffer_id }).goto t (.fi_mr_reg c ck)) := by
  simp only [run, step, advance, hat, goto, store, Function.update_self, Function.update_idem,
    Option.bind_some]

/-- The region is registered, and the chunk is filed. -/
theorem run_file (hat : w.thread t = .fi_mr_reg c ck) (hmr : ¬ w.regions.InUse mr) :
    run step w [.fi_mr_reg t (some mr), .advance t, .advance t] =
      some (({ w with
        stack := { w.stack with rmaChunkMap := w.stack.rmaChunkMap.insertNew c.buffer_id ck }
        regions := w.regions.acquire mr hmr }.store ck fun h => { h with mr := mr }).goto t
          .idle) := by
  simp only [run, step, advance, hat, hmr, goto, store, Function.update_self, Function.update_idem,
    Option.bind_some, dif_neg, not_false_eq_true]

/-- And what `reg_rma_buffer` does when `fi_mr_reg` succeeds. -/
theorem reg_alone (w : RmaThreads n) (t : Fin n) (c : RegCall) (ck mr : Addr) (w' : RegionWorld)
    (hidle : w.thread t = .idle)
    (hcall : w.toRegionWorld.step
      (.reg_rma_buffer c.buffer c.buffer_size c.buffer_id ck (some mr)) = some w') :
    ∃ ops, run step w (.reg_rma_buffer t c :: ops) = some ⟨w', w.thread⟩ := by
  have hcheck : step w (.reg_rma_buffer t c) = some (w.goto t (.check c)) := if_pos hidle
  suffices h : ∃ ops, run step (w.goto t (.check c)) ops = some ⟨w', w.thread⟩ by
    obtain ⟨ops, hrun⟩ := h
    exact ⟨ops, run_step hcheck hrun⟩
  rw [RegionWorld.step] at hcall
  split at hcall
  · rename_i hrej
    cases hcall
    exact ⟨[.advance t], by simp [run, step, advance, goto, hrej, ← hidle]⟩
  rename_i hrej
  rw [RegionWorld.reg] at hcall
  split at hcall
  · cases hcall
  rename_i hck
  simp only [MsgStack.reg_rma_buffer, if_neg hrej] at hcall
  split at hcall
  · cases hcall
  rename_i hmr
  cases hcall
  -- the test, the allocation, the three stores, the registration and the insertion
  have hmake : run step (w.goto t (.check c)) [.advance t, .make t ck] =
      some (({ w with chunks := w.chunks.acquire ck (not_or.mp hck).2 }.store ck fun _ => {}).goto t
        (.buffer c ck)) := by
    simp [run, step, advance, goto, hrej, hck, store]
  refine ⟨_, run_trans hmake (run_trans (run_stores (goto_self ..))
    ((run_file (goto_self ..) (by exact hmr)).trans ?_))⟩
  simp only [goto, store, Function.update_self, Function.update_idem]
  rw [← hidle, Function.update_eq_self]

end

end RmaThreads

end Hpnl
