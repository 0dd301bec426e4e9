import Hpnl.Chunk
import Hpnl.Lib.Transition

/-!
# The registry of RMA buffers

`MsgStack` keeps the chunks of buffers registered for remote access in
`rmaChunkMap` (`src/core/MsgStack.cc`).  A lookup is `rmaChunkMap[id]`, which
enters a null pointer for an id that is absent, and a registration is an
`insert`, which keeps whatever entry there is.

* `MsgStack.reg_rma_buffer`, `unreg_rma_buffer`, `get_rma_chunk` — the code.
* `RmaWorld` — a stack, the heap its chunks are on, and what each id was last
  registered as.
* `Inv`, `inv_reg`, `inv_unreg`, `inv_get` — lookups agree with that record, and
  every chunk in the map is alive and there once.
* `rma_lookup_latest` — **lookups return the latest registration along a run if
  and only if every registration finds its id without an entry**.
-/

namespace Hpnl

open MachineInt Transition

/-! ## The code -/

/-- The part of a `MsgStack` that registers RMA buffers. -/
structure MsgStack.Rma where
  initialized : Bool
  rmaChunkMap : StdMap ℤ Addr

namespace MsgStack

/-- `get_rma_chunk`: the map it leaves behind and its result. -/
def get_rma_chunk (m : Rma) (buffer_id : ℤ) : Rma × Addr :=
  ({ m with rmaChunkMap := m.rmaChunkMap.index buffer_id nullptr },
    m.rmaChunkMap.value buffer_id nullptr)

/-- The calls of `reg_rma_buffer` that are turned away before anything is
allocated. -/
def rejects (m : Rma) (buffer : Addr) (buffer_size : ℕ) : Prop :=
  m.initialized = false ∨ buffer = nullptr ∨ buffer_size = 0

instance (m : Rma) (buffer : Addr) (buffer_size : ℕ) : Decidable (rejects m buffer buffer_size) :=
  inferInstanceAs (Decidable (_ ∨ _))

/-- `reg_rma_buffer`.  `ck` is what `new Chunk()` returns and `mr` the memory
region, if `fi_mr_reg` succeeds. -/
def reg_rma_buffer (m : Rma) (mem : Mem) (buffer : Addr) (buffer_size : ℕ) (buffer_id : ℤ)
    (ck : Addr) (mr : Option Addr) : Rma × Mem × Addr :=
  if rejects m buffer buffer_size then (m, mem, nullptr)
  else
    match mr with
    | none => (m, mem, nullptr)
    | some mr =>
        ({ m with rmaChunkMap := m.rmaChunkMap.insertNew buffer_id ck },
          Function.update mem ck { buffer := buffer
                                   capacity := buffer_size
                                   buffer_id := toUInt64 buffer_id
                                   mr := mr },
          ck)

/-- `unreg_rma_buffer`, with the chunk it deletes (`nullptr` for none). -/
def unreg_rma_buffer (m : Rma) (buffer_id : ℤ) : Rma × Addr :=
  let (m₁, ck) := get_rma_chunk m buffer_id
  if ck = nullptr then (m₁, nullptr)
  else
    ({ m₁ with rmaChunkMap := (m₁.rmaChunkMap.index buffer_id nullptr).remove buffer_id },
      m₁.rmaChunkMap.value buffer_id nullptr)

end MsgStack

/-! ## Runs -/

/-- A stack and the heap.  `latest` is a ghost: the chunk that the latest
registration of an id returned, until it is unregistered. -/
structure RmaWorld where
  stack : MsgStack.Rma
  mem : Mem
  live : Finset Addr
  latest : ℤ → Option Addr

/-- A call, with what the allocator and libfabric answer. -/
inductive RmaOp where
  | reg_rma_buffer (buffer : Addr) (buffer_size : ℕ) (buffer_id : ℤ) (ck : Addr) (mr : Option Addr)
  | unreg_rma_buffer (buffer_id : ℤ)
  | get_rma_chunk (buffer_id : ℤ)
  deriving DecidableEq, Repr

namespace RmaWorld

/-- An initialized stack on which nothing has been registered. -/
def init (mem : Mem) : RmaWorld :=
  { stack := { initialized := true, rmaChunkMap := ∅ }
    mem := mem
    live := ∅
    latest := fun _ => none }

/-- The state after `reg_rma_buffer` has returned `r`. -/
def registered (s : RmaWorld) (id : ℤ) (m : MsgStack.Rma) (mem : Mem) (r : Addr) : RmaWorld :=
  if r = nullptr then { s with stack := m, mem := mem }
  else
    { stack := m
      mem := mem
      live := insert r s.live
      latest := Function.update s.latest id (some r) }

/-- One call.  `new` returns memory that is not in use. -/
def step (s : RmaWorld) : RmaOp → Option RmaWorld
  | .reg_rma_buffer buffer size id ck mr =>
      if ck ≠ nullptr ∧ ck ∉ s.live then
        let (m, mem, r) := MsgStack.reg_rma_buffer s.stack s.mem buffer size id ck mr
        some (s.registered id m mem r)
      else none
  | .unreg_rma_buffer id =>
      let (m, freed) := MsgStack.unreg_rma_buffer s.stack id
      some { s with
        stack := m
        live := s.live.erase freed
        latest := Function.update s.latest id none }
  | .get_rma_chunk id => some { s with stack := (MsgStack.get_rma_chunk s.stack id).1 }

/-- A lookup of any id returns the chunk of its latest registration, and null
when there is none. -/
def LooksUp (s : RmaWorld) : Prop :=
  ∀ id, (MsgStack.get_rma_chunk s.stack id).2 = (s.latest id).getD nullptr

/-- A registration that goes through finds no entry for its id, not even a null
one. -/
def Absent (s : RmaWorld) : RmaOp → Prop
  | .reg_rma_buffer buffer size id _ mr =>
      ¬ MsgStack.rejects s.stack buffer size → mr ≠ none →
        s.stack.rmaChunkMap.find? id = none
  | _ => True

/-- Lookups agree with the record, and a chunk in the map is alive and there
under one id only. -/
structure Inv (s : RmaWorld) : Prop where
  looks : s.LooksUp
  alive : ∀ id ck, s.stack.rmaChunkMap.find? id = some ck → ck ≠ nullptr → ck ∈ s.live
  once : ∀ i j ck, s.stack.rmaChunkMap.find? i = some ck → s.stack.rmaChunkMap.find? j = some ck →
    ck ≠ nullptr → i = j

theorem inv_init (mem : Mem) : (init mem).Inv := by
  have hfind : ∀ id, (init mem).stack.rmaChunkMap.find? id = none := fun id => StdMap.find?_empty id
  refine ⟨?_, ?_, ?_⟩
  · intro id
    show (init mem).stack.rmaChunkMap.value id nullptr = nullptr
    rw [StdMap.value, hfind]
    rfl
  · intro id ck h
    rw [hfind] at h
    exact absurd h (by simp)
  · intro i j ck h
    rw [hfind] at h
    exact absurd h (by simp)

/-! ### What a lookup leaves behind -/

/-- The entries after a lookup: the old ones and perhaps a null one. -/
theorem find?_get_rma_chunk {m : MsgStack.Rma} {i id : ℤ} {ck : Addr}
    (h : (MsgStack.get_rma_chunk m i).1.rmaChunkMap.find? id = some ck) (hck : ck ≠ nullptr) :
    m.rmaChunkMap.find? id = some ck := by
  unfold MsgStack.get_rma_chunk at h
  by_cases hi : i = id
  · subst hi
    simp only [StdMap.find?_index_self, Option.some.injEq] at h
    rw [StdMap.value] at h
    cases hfind : m.rmaChunkMap.find? i with
    | none =>
      rw [hfind] at h
      exact absurd h.symm hck
    | some a =>
      rw [hfind] at h
      exact congrArg some h
  · rwa [StdMap.find?_index_of_ne _ _ hi] at h

/-- A lookup changes no lookup. -/
theorem value_get_rma_chunk (m : MsgStack.Rma) (i id : ℤ) :
    (MsgStack.get_rma_chunk m i).1.rmaChunkMap.value id nullptr =
      m.rmaChunkMap.value id nullptr := by
  unfold MsgStack.get_rma_chunk
  by_cases hi : i = id
  · rw [StdMap.value, hi, StdMap.find?_index_self]
    rfl
  · rw [StdMap.value, StdMap.find?_index_of_ne _ _ hi, StdMap.value]

theorem inv_get {s : RmaWorld} (h : s.Inv) (i : ℤ) :
    Inv { s with stack := (MsgStack.get_rma_chunk s.stack i).1 } :=
  { looks := fun id => (value_get_rma_chunk s.stack i id).trans (h.looks id)
    alive := fun id ck hf hck => h.alive id ck (find?_get_rma_chunk hf hck) hck
    once := fun id j ck hf hf' hck =>
      h.once id j ck (find?_get_rma_chunk hf hck) (find?_get_rma_chunk hf' hck) hck }

/-! ### Unregistration -/

/-- `unreg_rma_buffer` is a lookup when the id has no chunk, and otherwise removes
the entry and deletes its chunk. -/
theorem unreg_cases (m : MsgStack.Rma) (i : ℤ) :
    m.rmaChunkMap.value i nullptr = nullptr ∧
        MsgStack.unreg_rma_buffer m i = ((MsgStack.get_rma_chunk m i).1, nullptr) ∨
      ∃ ck, ck ≠ nullptr ∧ m.rmaChunkMap.find? i = some ck ∧
        MsgStack.unreg_rma_buffer m i = ({ m with rmaChunkMap := m.rmaChunkMap.remove i }, ck) := by
  have hvalue : (MsgStack.get_rma_chunk m i).2 = m.rmaChunkMap.value i nullptr := rfl
  by_cases hck : m.rmaChunkMap.value i nullptr = nullptr
  · left
    refine ⟨hck, ?_⟩
    rw [MsgStack.unreg_rma_buffer]
    simp only [hvalue, if_pos hck]
  · right
    have hfind : m.rmaChunkMap.find? i = some (m.rmaChunkMap.value i nullptr) := by
      rw [StdMap.value] at hck ⊢
      cases hf : m.rmaChunkMap.find? i with
      | none =>
        rw [hf] at hck
        exact absurd rfl hck
      | some a => rfl
    have hindex : m.rmaChunkMap.index i nullptr = m.rmaChunkMap := StdMap.index_of_some _ hfind
    refine ⟨_, hck, hfind, ?_⟩
    rw [MsgStack.unreg_rma_buffer]
    simp only [if_neg hck, MsgStack.get_rma_chunk, hindex]

theorem inv_unreg {s : RmaWorld} (h : s.Inv) (i : ℤ) :
    Inv { s with
      stack := (MsgStack.unreg_rma_buffer s.stack i).1
      live := s.live.erase (MsgStack.unreg_rma_buffer s.stack i).2
      latest := Function.update s.latest i none } := by
  rcases unreg_cases s.stack i with ⟨hnull, hunreg⟩ | ⟨ck, hck, hfind, hunreg⟩
  · -- nothing is registered: the call is a lookup
    have hget := inv_get h i
    rw [hunreg]
    refine ⟨?_, ?_, hget.once⟩
    · intro id
      show (MsgStack.get_rma_chunk (MsgStack.get_rma_chunk s.stack i).1 id).2 =
        (Function.update s.latest i none id).getD nullptr
      rw [hget.looks id]
      by_cases hid : id = i
      · rw [hid, Function.update_self]
        exact (h.looks i).symm.trans hnull
      · rw [Function.update_of_ne hid]
    · intro id ck hf hne
      exact Finset.mem_erase.mpr ⟨hne, hget.alive id ck hf hne⟩
  · rw [hunreg]
    have hother : ∀ id a, (s.stack.rmaChunkMap.remove i).find? id = some a →
        i ≠ id ∧ s.stack.rmaChunkMap.find? id = some a := by
      intro id a hf
      obtain ⟨hne, hfind⟩ := StdMap.find?_remove_eq_some.mp hf
      exact ⟨hne.symm, hfind⟩
    refine ⟨?_, ?_, ?_⟩
    · intro id
      show (s.stack.rmaChunkMap.remove i).value id nullptr =
        (Function.update s.latest i none id).getD nullptr
      by_cases hid : i = id
      · rw [← hid, Function.update_self, StdMap.value, StdMap.find?_remove_self]
      · rw [Function.update_of_ne (Ne.symm hid), StdMap.value, StdMap.find?_remove_of_ne _ hid]
        exact h.looks id
    · intro id a hf hne
      obtain ⟨hid, hold⟩ := hother id a hf
      refine Finset.mem_erase.mpr ⟨?_, h.alive id a hold hne⟩
      intro hac
      exact hid (h.once i id a (hac ▸ hfind) hold hne)
    · intro id j a hf hf' hne
      exact h.once id j a (hother id a hf).2 (hother j a hf').2 hne

/-! ### Registration -/

theorem step_reg {s t : RmaWorld} {buffer : Addr} {size : ℕ} {id : ℤ} {ck : Addr}
    {mr : Option Addr} (h : s.step (.reg_rma_buffer buffer size id ck mr) = some t) :
    ck ≠ nullptr ∧ ck ∉ s.live ∧
      (t = s ∧ (MsgStack.rejects s.stack buffer size ∨ mr = none) ∨
        ¬ MsgStack.rejects s.stack buffer size ∧ mr ≠ none ∧
          t.stack = { s.stack with rmaChunkMap := s.stack.rmaChunkMap.insertNew id ck } ∧
          t.live = insert ck s.live ∧ t.latest = Function.update s.latest id (some ck)) := by
  rw [step] at h
  split at h
  swap
  · exact absurd h (by simp)
  rename_i hck
  refine ⟨hck.1, hck.2, ?_⟩
  rw [Option.some.injEq] at h
  rw [← h]
  by_cases hrej : MsgStack.rejects s.stack buffer size
  · have hreg : MsgStack.reg_rma_buffer s.stack s.mem buffer size id ck mr =
        (s.stack, s.mem, nullptr) := if_pos hrej
    rw [hreg]
    exact Or.inl ⟨rfl, Or.inl hrej⟩
  · cases mr with
    | none =>
      have hreg : MsgStack.reg_rma_buffer s.stack s.mem buffer size id ck none =
          (s.stack, s.mem, nullptr) := if_neg hrej
      rw [hreg]
      exact Or.inl ⟨rfl, Or.inr rfl⟩
    | some mr =>
      right
      rw [MsgStack.reg_rma_buffer, if_neg hrej]
      refine ⟨hrej, Option.some_ne_none mr, ?_⟩
      simp only [registered, if_neg hck.1, and_self]

/-- A registration of an id without an entry keeps the invariant. -/
theorem inv_reg {s t : RmaWorld} {buffer : Addr} {size : ℕ} {id : ℤ} {ck : Addr}
    {mr : Option Addr} (h : s.Inv) (habs : s.Absent (.reg_rma_buffer buffer size id ck mr))
    (hstep : s.step (.reg_rma_buffer buffer size id ck mr) = some t) : t.Inv := by
  obtain ⟨hnull, hfresh, hcases⟩ := step_reg hstep
  rcases hcases with ⟨rfl, -⟩ | ⟨hrej, hmr, hstack, hlive, hlatest⟩
  · exact h
  have hmap : t.stack.rmaChunkMap = s.stack.rmaChunkMap.assign id ck := by
    rw [hstack]
    exact StdMap.insertNew_of_none _ (habs hrej hmr)
  have hfind : ∀ j, t.stack.rmaChunkMap.find? j =
      if id = j then some ck else s.stack.rmaChunkMap.find? j := by
    intro j
    rw [hmap, StdMap.find?_assign]
  have hnew : ∀ j a, s.stack.rmaChunkMap.find? j = some a → a ≠ nullptr → a ≠ ck := by
    rintro j a hf hne rfl
    exact hfresh (h.alive j a hf hne)
  refine ⟨?_, ?_, ?_⟩
  · intro j
    show t.stack.rmaChunkMap.value j nullptr = _
    rw [StdMap.value, hfind, hlatest]
    by_cases hj : id = j
    · rw [if_pos hj, hj, Function.update_self]
    · rw [if_neg hj, Function.update_of_ne (Ne.symm hj)]
      exact h.looks j
  · intro j a hf hne
    rw [hlive, Finset.mem_insert]
    rw [hfind] at hf
    split at hf
    · exact Or.inl (Option.some.inj hf).symm
    · exact Or.inr (h.alive j a hf hne)
  · intro i j a hi hj hne
    rw [hfind] at hi hj
    split at hi
    · rename_i hidi
      split at hj
      · rename_i hidj
        exact hidi.symm.trans hidj
      · exact absurd (Option.some.inj hi).symm (hnew j a hj hne)
    · split at hj
      · exact absurd (Option.some.inj hj).symm (hnew i a hi hne)
      · exact h.once i j a hi hj hne

/-- A registration of an id that has an entry is not found. -/
theorem absent_of_looksUp {s t : RmaWorld} {op : RmaOp} (h : s.Inv) (hstep : s.step op = some t)
    (ht : t.LooksUp) : s.Absent op := by
  cases op with
  | unreg_rma_buffer id => trivial
  | get_rma_chunk id => trivial
  | reg_rma_buffer buffer size id ck mr =>
    intro hrej hmr
    obtain ⟨hnull, hfresh, hcases⟩ := step_reg hstep
    rcases hcases with ⟨-, hbad⟩ | ⟨-, -, hstack, -, hlatest⟩
    · exact absurd hbad (not_or.mpr ⟨hrej, hmr⟩)
    by_contra hpresent
    obtain ⟨a, ha⟩ := Option.ne_none_iff_exists'.mp hpresent
    have hlook : t.stack.rmaChunkMap.value id nullptr = ck := by
      have := ht id
      rwa [hlatest, Function.update_self] at this
    -- the old entry is kept, and it is not the new chunk
    rw [hstack] at hlook
    simp only [StdMap.insertNew_of_some _ ha, StdMap.value_of_some _ ha] at hlook
    exact hfresh (h.alive id ck (hlook ▸ ha) hnull)

/-- **Lookups follow the latest registration.**  In every state of a run a lookup
of any id returns the chunk of the latest registration that has not been
unregistered, or null, if and only if every registration of the run that goes
through is of an id without an entry. -/
theorem rma_lookup_latest (mem : Mem) (ops : List RmaOp) :
    Always step LooksUp (init mem) ops ↔ Meets step Absent (init mem) ops := by
  refine always_iff_meets (fun (s : RmaWorld) (h : s.Inv) => h.looks) ?_ ?_ (inv_init mem) ops
  · intro s op t h habs hstep
    cases op with
    | reg_rma_buffer buffer size id ck mr => exact inv_reg h habs hstep
    | unreg_rma_buffer id =>
      cases hstep
      exact inv_unreg h id
    | get_rma_chunk id =>
      cases hstep
      exact inv_get h id
  · intro s op t h hstep ht
    exact absent_of_looksUp h hstep ht

/-- Looking id 0 up before it is registered leaves a null entry behind, and the
registration that follows is never found. -/
theorem rma_lookup_lost :
    ¬ Always step LooksUp (init fun _ => {})
      [.get_rma_chunk 0, .reg_rma_buffer 100 16 0 4096 (some 1)] := by
  intro h
  have hrun : (run step (init fun _ => {})
      [.get_rma_chunk 0, .reg_rma_buffer 100 16 0 4096 (some 1)]).map
        (fun t => ((MsgStack.get_rma_chunk t.stack 0).2, t.latest 0)) =
          some (nullptr, some 4096) := by
    decide +kernel
  obtain ⟨t, ht, hfields⟩ := Option.map_eq_some_iff.mp hrun
  rw [Prod.mk.injEq] at hfields
  have hlook := (h.last ht) 0
  rw [hfields.1, hfields.2] at hlook
  exact absurd hlook (by decide)

end RmaWorld

end Hpnl
