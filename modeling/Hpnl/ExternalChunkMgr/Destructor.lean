import Hpnl.ExternalChunkMgr.Lookups
import Hpnl.Lib.Transition

/-!
# Destroying an external manager

The constructor with sizes makes chunks whose memory it gets from `std::malloc`;
`set_buffer` makes chunks for memory of the caller, which through JNI is a direct buffer
of the JVM.  The destructor frees the memory of every chunk in `buf_map`, whose entries
`reclaim` makes only for new ids and `get(int)` makes for any id.

* `ExternalMgrHeap` — a manager, the chunks ever added to it and the memory that it has
  obtained itself; `sized` — the constructor with sizes.
* `DestroyOk` — destroying the manager now is right; `Damaged` — something is wrong with
  the map that no call mends.
* `Guard` — calls that add no memory of the caller, repeat no id and look up no absent one.
* `destroyOk_iff_meets` — **at the end of any history the manager is destroyed right if and
  only if every call of the history meets the condition**.
-/

namespace Hpnl

open MachineInt Transition

/-- A manager with every chunk that has been added to it, the blocks that it has obtained
from `std::malloc`, and the counter of `get_id`. -/
structure ExternalMgrHeap extends ExternalMgrState where
  buffer_id : ℕ := 0
  chunks : List Addr := []
  blocks : List Addr := []

namespace ExternalMgrHeap

/-- A new chunk is given to the manager. -/
def add (w : ExternalMgrHeap) (ck : Addr) (header : Chunk) (blocks : List Addr) :
    ExternalMgrHeap :=
  let mem := Function.update w.mem ck header
  { w with
    mem := mem
    mgr := (w.mgr.reclaim mem ck none).1
    chunks := ck :: w.chunks
    blocks := blocks }

/-- One turn of the loop in the constructor with sizes, with the addresses of the new chunk
and of the memory (`nullptr` when there is none). -/
def turn (buffer_size : ℕ) (w : ExternalMgrHeap) (answer : Addr × Addr) : ExternalMgrHeap :=
  let header : Chunk :=
    { buffer := answer.2
      capacity := toUInt64 (toInt32 buffer_size)
      buffer_id := w.buffer_id
      mr := nullptr }
  { w.add answer.1 header (if answer.2 = nullptr then w.blocks else answer.2 :: w.blocks) with
    buffer_id := (w.buffer_id + 1) % 2 ^ 32 }

/-- `ExternalChunkMgr(buffer_num_, buffer_size_)`, an answer for each turn of its loop; with
no turns, `ExternalChunkMgr()`. -/
def sized (buffer_size : ℕ) (answers : List (Addr × Addr)) : ExternalMgrHeap :=
  answers.foldl (turn buffer_size) {}

/-- The turns of the loop: `for (int i = 0; i < buffer_num*2; i++)`. -/
def turns (buffer_num : Int32) : ℕ := (toInt32 (buffer_num.toInt * 2)).toNat

/-- `new` and `std::malloc` return memory that is not in use. -/
structure Fresh (answers : List (Addr × Addr)) : Prop where
  chunks : (answers.map Prod.fst).Nodup
  nonnull : nullptr ∉ answers.map Prod.fst
  blocks : ((answers.map Prod.snd).filter (· ≠ nullptr)).Nodup

/-- What callers may do: the chunk that `set_buffer` makes is new and its memory is the
caller's, and chunks that are reclaimed have been added. -/
def Allowed (w : ExternalMgrHeap) : MgrCall → Prop
  | .set_buffer ck buffer _ _ => ck ≠ nullptr ∧ ck ∉ w.chunks ∧ buffer ∉ w.blocks
  | .reclaim ck _ => ck ∈ w.chunks
  | _ => True

instance (w : ExternalMgrHeap) : (op : MgrCall) → Decidable (w.Allowed op)
  | .set_buffer .. => inferInstanceAs (Decidable (_ ∧ _))
  | .reclaim .. => inferInstanceAs (Decidable (_ ∈ _))
  | .get _ | .get_by_id _ | .send .. | .free_size | .destroy => isTrue trivial

/-- The chunks that have been added after a call. -/
def addedBy (w : ExternalMgrHeap) : MgrCall → List Addr
  | .set_buffer ck _ _ _ => ck :: w.chunks
  | _ => w.chunks

/-- One call.  A crash and the destructor end the history. -/
def step (w : ExternalMgrHeap) (op : MgrCall) : Option ExternalMgrHeap :=
  if w.Allowed op then
    (w.toExternalMgrState.call op).2.map fun s =>
      { w with toExternalMgrState := s, chunks := w.addedBy op }
  else none

/-- **Destroying the manager now is right**: it comes upon no null entry, deletes each chunk
ever added exactly once, and frees the blocks of the manager, each once, and nothing
else. -/
structure DestroyOk (w : ExternalMgrHeap) : Prop where
  finished : (w.mgr.destroy w.mem).finished = true
  deleted : ∀ ck ∈ w.chunks, (w.mgr.destroy w.mem).deleted.count ck = 1
  freed : ∀ b, b ≠ nullptr →
    (w.mgr.destroy w.mem).freed.count b = if b ∈ w.blocks then 1 else 0

/-- **The condition.**  `set_buffer` is called without memory and under an id that has no
entry yet, and only ids with an entry are looked up. -/
def Guard (w : ExternalMgrHeap) : MgrCall → Prop
  | .set_buffer _ buffer _ id => buffer = nullptr ∧ w.mgr.buf_map.find? id.toInt = none
  | .get_by_id id => w.mgr.buf_map.has id.toInt = true
  | _ => True

instance (w : ExternalMgrHeap) : (op : MgrCall) → Decidable (w.Guard op)
  | .set_buffer .. => inferInstanceAs (Decidable (_ ∧ _))
  | .get_by_id _ => inferInstanceAs (Decidable (_ = true))
  | .get _ | .reclaim .. | .send .. | .free_size | .destroy => isTrue trivial

/-! ## The destructor's loop -/

/-- The loop gets to the end when no entry is null. -/
theorem destroyLoop_finished (mem : Mem) (bufs : List (ℤ × Addr)) :
    (destroyLoop mem bufs).finished = true ↔ ∀ e ∈ bufs, e.2 ≠ nullptr := by
  induction bufs with
  | nil => simp [destroyLoop]
  | cons e bufs ih =>
    obtain ⟨k, ck⟩ := e
    unfold destroyLoop
    by_cases hck : ck = nullptr
    · simp [hck]
    · rw [if_neg hck, List.forall_mem_cons]
      exact ⟨fun h => ⟨hck, ih.mp h⟩, fun h => ih.mpr h.2⟩

/-- Then it has freed the memory of every entry and deleted its chunk. -/
theorem destroyLoop_eq {mem : Mem} {bufs : List (ℤ × Addr)} (h : ∀ e ∈ bufs, e.2 ≠ nullptr) :
    (destroyLoop mem bufs).freed = bufs.map (fun e => (mem e.2).buffer) ∧
      (destroyLoop mem bufs).deleted = bufs.map Prod.snd := by
  induction bufs with
  | nil => exact ⟨rfl, rfl⟩
  | cons e bufs ih =>
    obtain ⟨k, ck⟩ := e
    rw [List.forall_mem_cons] at h
    obtain ⟨hfreed, hdeleted⟩ := ih h.2
    unfold destroyLoop
    rw [if_neg h.1]
    exact ⟨congrArg _ hfreed, congrArg _ hdeleted⟩

/-! ## Damage -/

/-- What every history keeps: an entry is null or a chunk under its own id, every chunk's id
has an entry, and each block is the memory of one chunk. -/
structure Base (w : ExternalMgrHeap) : Prop where
  nonnull : nullptr ∉ w.chunks
  entry : ∀ k ck, w.mgr.buf_map.find? k = some ck →
    ck = nullptr ∨ ck ∈ w.chunks ∧ (w.mem ck).key = k
  taken : ∀ ck ∈ w.chunks, ∃ v, w.mgr.buf_map.find? (w.mem ck).key = some v
  block : ∀ b ∈ w.blocks, ∃! ck, ck ∈ w.chunks ∧ (w.mem ck).buffer = b

/-- A null entry, a chunk that is not in the map, or a chunk in the map whose memory is not
the manager's. -/
def Damaged (w : ExternalMgrHeap) : Prop :=
  (∃ k, w.mgr.buf_map.find? k = some nullptr) ∨
    (∃ ck ∈ w.chunks, w.mgr.buf_map.find? (w.mem ck).key ≠ some ck) ∨
    ∃ ck ∈ w.chunks, (w.mem ck).buffer ≠ nullptr ∧ (w.mem ck).buffer ∉ w.blocks

variable {w w' : ExternalMgrHeap} {ck : Addr} {header : Chunk} {blocks : List Addr}

/-- In an undamaged manager the entries are the chunks. -/
theorem Base.entry_iff (h : w.Base) (hd : ¬ w.Damaged) (k : ℤ) (ck : Addr) :
    w.mgr.buf_map.find? k = some ck ↔ ck ∈ w.chunks ∧ (w.mem ck).key = k := by
  constructor
  · intro hk
    obtain rfl | hck := h.entry k ck hk
    · exact absurd (Or.inl ⟨k, hk⟩) hd
    · exact hck
  · rintro ⟨hck, rfl⟩
    by_contra hne
    exact hd (Or.inr (Or.inl ⟨ck, hck, hne⟩))

theorem finished_iff (w : ExternalMgrHeap) : (w.mgr.destroy w.mem).finished = true ↔
    ∀ k, w.mgr.buf_map.find? k ≠ some nullptr := by
  unfold ExternalChunkMgr.destroy
  rw [destroyLoop_finished]
  constructor
  · intro hall k hk
    exact hall (k, nullptr) (StdMap.mem_entries.mpr hk) rfl
  · rintro hall ⟨k, ck⟩ he rfl
    exact hall k (StdMap.mem_entries.mp he)

/-- What the destructor does when it gets to the end. -/
theorem destroy_eq (h : (w.mgr.destroy w.mem).finished = true) :
    (w.mgr.destroy w.mem).freed =
        w.mgr.buf_map.entries.filterMap (fun e => some (w.mem e.2).buffer) ∧
      (w.mgr.destroy w.mem).deleted = w.mgr.buf_map.entries.filterMap fun e => some e.2 := by
  have hnull := (destroyLoop_finished w.mem w.mgr.buf_map.entries).mp h
  rw [List.filterMap_eq_map', List.filterMap_eq_map']
  exact destroyLoop_eq hnull

theorem mem_freed (h : (w.mgr.destroy w.mem).finished = true) {b : Addr} :
    b ∈ (w.mgr.destroy w.mem).freed ↔
      ∃ k ck, w.mgr.buf_map.find? k = some ck ∧ (w.mem ck).buffer = b := by
  rw [(destroy_eq h).1, List.mem_filterMap]
  constructor
  · rintro ⟨⟨k, ck⟩, he, hb⟩
    exact ⟨k, ck, StdMap.mem_entries.mp he, Option.some.inj hb⟩
  · rintro ⟨k, ck, hk, hb⟩
    exact ⟨(k, ck), StdMap.mem_entries.mpr hk, congrArg some hb⟩

/-- A chunk is deleted once when one id leads to it. -/
theorem count_deleted (h : (w.mgr.destroy w.mem).finished = true) (ck : Addr) :
    (w.mgr.destroy w.mem).deleted.count ck = 1 ↔ ∃! k, w.mgr.buf_map.find? k = some ck := by
  rw [(destroy_eq h).2, StdMap.count_entries_eq_one w.mgr.buf_map some ck]
  refine existsUnique_congr fun k => ?_
  simp

/-- A block is freed once when one id leads to a chunk with it. -/
theorem count_freed (h : (w.mgr.destroy w.mem).finished = true) (b : Addr) :
    (w.mgr.destroy w.mem).freed.count b = 1 ↔
      ∃! k, ∃ ck, w.mgr.buf_map.find? k = some ck ∧ (w.mem ck).buffer = b := by
  rw [(destroy_eq h).1,
    StdMap.count_entries_eq_one w.mgr.buf_map (fun ck => some (w.mem ck).buffer) b]
  simp only [Option.some.injEq]

/-- **The manager can be destroyed when it is undamaged**, and only then. -/
theorem destroyOk_iff (h : w.Base) : w.DestroyOk ↔ ¬ w.Damaged := by
  constructor
  · intro hok hdamaged
    have hfiled : ∀ ck ∈ w.chunks, w.mgr.buf_map.find? (w.mem ck).key = some ck := by
      intro ck hck
      obtain ⟨k, hk, -⟩ := (count_deleted hok.finished ck).mp (hok.deleted ck hck)
      obtain hz | ⟨-, hkey⟩ := h.entry k ck hk
      · exact absurd (hz ▸ hck) h.nonnull
      · rwa [hkey]
    obtain ⟨k, hk⟩ | ⟨ck, hck, hne⟩ | ⟨ck, hck, hbuffer, hforeign⟩ := hdamaged
    · exact w.finished_iff.mp hok.finished k hk
    · exact hne (hfiled ck hck)
    · have hzero := hok.freed _ hbuffer
      rw [if_neg hforeign, List.count_eq_zero, mem_freed hok.finished] at hzero
      exact hzero ⟨_, ck, hfiled ck hck, rfl⟩
  · intro hd
    have hfin : (w.mgr.destroy w.mem).finished = true :=
      w.finished_iff.mpr fun k hk => hd (Or.inl ⟨k, hk⟩)
    refine ⟨hfin, fun ck hck => ?_, fun b hb => ?_⟩
    · rw [count_deleted hfin]
      refine ⟨(w.mem ck).key, (h.entry_iff hd _ _).mpr ⟨hck, rfl⟩, fun k hk => ?_⟩
      exact ((h.entry_iff hd k ck).mp hk).2.symm
    by_cases hblock : b ∈ w.blocks
    · rw [if_pos hblock, count_freed hfin]
      obtain ⟨ck, ⟨hck, hbuffer⟩, hunique⟩ := h.block b hblock
      refine ⟨(w.mem ck).key, ⟨ck, (h.entry_iff hd _ _).mpr ⟨hck, rfl⟩, hbuffer⟩, ?_⟩
      rintro k ⟨a, hk, ha⟩
      obtain ⟨hmem, hkey⟩ := (h.entry_iff hd k a).mp hk
      rw [← hunique a ⟨hmem, ha⟩]
      exact hkey.symm
    · rw [if_neg hblock, List.count_eq_zero, mem_freed hfin]
      rintro ⟨k, ck, hk, rfl⟩
      have hck := ((h.entry_iff hd k ck).mp hk).1
      exact hd (Or.inr (Or.inr ⟨ck, hck, hb, hblock⟩))

/-! ## Adding a chunk -/

/-- The entry that a new chunk is given. -/
theorem find?_add (w : ExternalMgrHeap) (ck : Addr) (header : Chunk) (blocks : List Addr) :
    (w.add ck header blocks).mgr.buf_map = w.mgr.buf_map.insertNew header.key ck := by
  show w.mgr.buf_map.insertNew (Function.update w.mem ck header ck).key ck = _
  rw [Function.update_self]

theorem mem_add_self (w : ExternalMgrHeap) (ck : Addr) (header : Chunk) (blocks : List Addr) :
    (w.add ck header blocks).mem ck = header :=
  Function.update_self ..

theorem mem_add_of_ne (w : ExternalMgrHeap) {ck a : Addr} (header : Chunk) (blocks : List Addr)
    (h : a ≠ ck) : (w.add ck header blocks).mem a = w.mem a :=
  Function.update_of_ne h ..

/-- What adding a new chunk keeps, wherever its memory comes from. -/
theorem Base.add (h : w.Base) (hck : ck ≠ nullptr) (hnew : ck ∉ w.chunks)
    (hbuffer : header.buffer ∉ w.blocks)
    (hblocks : blocks = w.blocks ∨ blocks = header.buffer :: w.blocks ∧
      ∀ a ∈ w.chunks, (w.mem a).buffer ≠ header.buffer) :
    (w.add ck header blocks).Base := by
  have hold : ∀ a ∈ w.chunks, (w.add ck header blocks).mem a = w.mem a := fun a ha =>
    w.mem_add_of_ne header blocks fun heq => hnew (heq ▸ ha)
  have hmem : ∀ a, a ∈ (w.add ck header blocks).chunks ↔ a = ck ∨ a ∈ w.chunks :=
    fun a => List.mem_cons
  refine ⟨?_, fun k a hk => ?_, fun a ha => ?_, fun b hb => ?_⟩
  · rw [hmem, not_or]
    exact ⟨Ne.symm hck, h.nonnull⟩
  · rw [find?_add] at hk
    have hcases : (k = header.key ∧ a = ck) ∨ w.mgr.buf_map.find? k = some a := by
      cases hfree : w.mgr.buf_map.find? header.key with
      | none => exact (StdMap.find?_insertNew_eq_some hfree).mp hk
      | some v => exact Or.inr (StdMap.insertNew_of_some ck hfree ▸ hk)
    obtain ⟨rfl, rfl⟩ | hk := hcases
    · exact Or.inr ⟨(hmem a).mpr (Or.inl rfl), by rw [mem_add_self]⟩
    · refine (h.entry k a hk).imp_right fun ha => ⟨(hmem a).mpr (Or.inr ha.1), ?_⟩
      rw [hold a ha.1]
      exact ha.2
  · rw [find?_add]
    have hkept : ∀ k v, w.mgr.buf_map.find? k = some v →
        ∃ v, (w.mgr.buf_map.insertNew header.key ck).find? k = some v := by
      intro k v hk
      by_cases hkey : header.key = k
      · rw [hkey, StdMap.insertNew_of_some ck hk]
        exact ⟨v, hk⟩
      · exact ⟨v, by rw [StdMap.find?_insertNew_of_ne _ ck hkey, hk]⟩
    obtain rfl | ha := (hmem a).mp ha
    · rw [mem_add_self]
      cases hfree : w.mgr.buf_map.find? header.key with
      | none => exact ⟨a, (StdMap.find?_insertNew_eq_some hfree).mpr (Or.inl ⟨rfl, rfl⟩)⟩
      | some v => exact hkept _ v hfree
    · rw [hold a ha]
      obtain ⟨v, hv⟩ := h.taken a ha
      exact hkept _ v hv
  · have hcases : (b = header.buffer ∧ ∀ a ∈ w.chunks, (w.mem a).buffer ≠ header.buffer) ∨
        b ∈ w.blocks := by
      obtain rfl | ⟨rfl, hother⟩ := hblocks
      · exact Or.inr hb
      · exact (List.mem_cons.mp hb).imp_left fun heq => ⟨heq, hother⟩
    obtain ⟨rfl, hother⟩ | hin := hcases
    · refine ⟨ck, ⟨(hmem ck).mpr (Or.inl rfl), by rw [mem_add_self]⟩, ?_⟩
      rintro a ⟨ha, hba⟩
      obtain rfl | ha := (hmem a).mp ha
      · rfl
      · rw [hold a ha] at hba
        exact absurd hba (hother a ha)
    · obtain ⟨a, ⟨ha, hba⟩, hunique⟩ := h.block b hin
      refine ⟨a, ⟨(hmem a).mpr (Or.inr ha), by rw [hold a ha, hba]⟩, ?_⟩
      rintro a' ⟨ha', hba'⟩
      obtain rfl | ha' := (hmem a').mp ha'
      · rw [mem_add_self] at hba'
        rw [hba'] at hbuffer
        exact absurd hin hbuffer
      · rw [hold a' ha'] at hba'
        exact hunique a' ⟨ha', hba'⟩

/-- A new chunk under an id without an entry, with memory of the manager or none, does no
damage. -/
theorem not_damaged_add (h : w.Base) (hd : ¬ w.Damaged) (hck : ck ≠ nullptr)
    (hnew : ck ∉ w.chunks) (hfree : w.mgr.buf_map.find? header.key = none)
    (hbuffer : header.buffer ≠ nullptr → header.buffer ∈ blocks)
    (hblocks : ∀ b ∈ w.blocks, b ∈ blocks) : ¬ (w.add ck header blocks).Damaged := by
  have hold : ∀ a ∈ w.chunks, (w.add ck header blocks).mem a = w.mem a := fun a ha =>
    w.mem_add_of_ne header blocks fun heq => hnew (heq ▸ ha)
  have hfind : ∀ k a, (w.add ck header blocks).mgr.buf_map.find? k = some a ↔
      k = header.key ∧ a = ck ∨ w.mgr.buf_map.find? k = some a := by
    intro k a
    rw [find?_add]
    exact StdMap.find?_insertNew_eq_some hfree
  rintro (⟨k, hk⟩ | ⟨a, ha, hne⟩ | ⟨a, ha, hforeign, hout⟩)
  · obtain ⟨-, hnull⟩ | hk := (hfind k nullptr).mp hk
    · exact hck hnull.symm
    · exact hd (Or.inl ⟨k, hk⟩)
  · obtain rfl | ha := List.mem_cons.mp ha
    · rw [mem_add_self] at hne
      exact hne ((hfind _ a).mpr (Or.inl ⟨rfl, rfl⟩))
    · rw [hold a ha] at hne
      exact hne ((hfind _ a).mpr (Or.inr ((h.entry_iff hd _ a).mpr ⟨ha, rfl⟩)))
  · obtain rfl | ha := List.mem_cons.mp ha
    · rw [mem_add_self] at hforeign hout
      exact hout (hbuffer hforeign)
    · rw [hold a ha] at hforeign hout
      exact hd (Or.inr (Or.inr ⟨a, ha, hforeign, fun hb => hout (hblocks _ hb)⟩))

/-- Adding a chunk under an id that has an entry, or one with memory of the caller, does
damage. -/
theorem damaged_add (h : w.Base) (hck : ck ≠ nullptr) (hnew : ck ∉ w.chunks)
    (hbad : w.mgr.buf_map.find? header.key ≠ none ∨
      header.buffer ≠ nullptr ∧ header.buffer ∉ w.blocks) :
    (w.add ck header w.blocks).Damaged := by
  obtain htaken | hforeign := hbad
  · obtain ⟨v, hv⟩ := Option.ne_none_iff_exists'.mp htaken
    refine Or.inr (Or.inl ⟨ck, List.mem_cons_self, ?_⟩)
    rw [mem_add_self, find?_add, StdMap.insertNew_of_some ck hv, hv]
    rintro heq
    obtain rfl : v = ck := Option.some.inj heq
    obtain hz | ⟨hmem, -⟩ := h.entry _ v hv
    · exact hck hz
    · exact hnew hmem
  · refine Or.inr (Or.inr ⟨ck, List.mem_cons_self, ?_⟩)
    rw [mem_add_self]
    exact hforeign

/-- Adding a chunk mends nothing. -/
theorem Damaged.add (h : w.Base) (hd : w.Damaged) (hnew : ck ∉ w.chunks) :
    (w.add ck header w.blocks).Damaged := by
  have hold : ∀ a ∈ w.chunks, (w.add ck header w.blocks).mem a = w.mem a := fun a ha =>
    w.mem_add_of_ne header w.blocks fun heq => hnew (heq ▸ ha)
  have hkept : ∀ k v, w.mgr.buf_map.find? k = some v →
      (w.mgr.buf_map.insertNew header.key ck).find? k = some v := by
    intro k v hk
    by_cases hkey : header.key = k
    · rw [hkey, StdMap.insertNew_of_some ck hk, hk]
    · rw [StdMap.find?_insertNew_of_ne _ ck hkey, hk]
  obtain ⟨k, hk⟩ | ⟨a, ha, hne⟩ | ⟨a, ha, hforeign⟩ := hd
  · refine Or.inl ⟨k, ?_⟩
    rw [find?_add]
    exact hkept k nullptr hk
  · refine Or.inr (Or.inl ⟨a, List.mem_cons_of_mem _ ha, ?_⟩)
    obtain ⟨v, hv⟩ := h.taken a ha
    rw [hold a ha, find?_add, hkept _ v hv, ← hv]
    exact hne
  · refine Or.inr (Or.inr ⟨a, List.mem_cons_of_mem _ ha, ?_⟩)
    rw [hold a ha]
    exact hforeign

/-! ## The other calls -/

/-- A call that leaves alone what the destructor looks at. -/
structure Quiet (w w' : ExternalMgrHeap) : Prop where
  buf_map : w'.mgr.buf_map = w.mgr.buf_map
  chunks : w'.chunks = w.chunks
  blocks : w'.blocks = w.blocks
  header : ∀ ck, (w'.mem ck).key = (w.mem ck).key ∧ (w'.mem ck).buffer = (w.mem ck).buffer

theorem Quiet.base (hq : w.Quiet w') (h : w.Base) : w'.Base := by
  refine ⟨hq.chunks ▸ h.nonnull, fun k ck hk => ?_, fun ck hck => ?_, fun b hb => ?_⟩
  · rw [hq.chunks, (hq.header ck).1]
    exact h.entry k ck (hq.buf_map ▸ hk)
  · rw [hq.buf_map, (hq.header ck).1]
    exact h.taken ck (hq.chunks ▸ hck)
  · simp only [hq.chunks, (hq.header _).2]
    exact h.block b (hq.blocks ▸ hb)

theorem Quiet.damaged_iff (hq : w.Quiet w') : w'.Damaged ↔ w.Damaged := by
  unfold Damaged
  simp only [hq.buf_map, hq.chunks, hq.blocks, (hq.header _).1, (hq.header _).2]

/-- A lookup of an id without an entry. -/
theorem find?_lookup_of_none {id : Int32} (hnone : w.mgr.buf_map.find? id.toInt = none) (k : ℤ)
    (a : Addr) : (w.toExternalMgrState.lookup id).mgr.buf_map.find? k = some a ↔
      k = id.toInt ∧ a = nullptr ∨ w.mgr.buf_map.find? k = some a :=
  StdMap.find?_insertNew_eq_some hnone

/-- **What a call does**: it adds a chunk, or enters a null one, or it meets the condition
and leaves alone what the destructor looks at. -/
theorem step_cases {op : MgrCall} (h : w.Base) (hstep : w.step op = some w') :
    (∃ ck buffer size id, op = .set_buffer ck buffer size id ∧ ck ≠ nullptr ∧ ck ∉ w.chunks ∧
        buffer ∉ w.blocks ∧ w' = w.add ck (ExternalMgrState.newChunk buffer size id) w.blocks) ∨
      (∃ id, op = .get_by_id id ∧ w.mgr.buf_map.find? id.toInt = none ∧
        w' = { w with toExternalMgrState := w.toExternalMgrState.lookup id }) ∨
      w.Guard op ∧ w.Quiet w' := by
  unfold step at hstep
  split at hstep
  swap
  · exact absurd hstep (by simp)
  rename_i hallowed
  obtain ⟨s, hs, rfl⟩ := Option.map_eq_some_iff.mp hstep
  cases op with
  | set_buffer ck buffer size id =>
    cases hs
    exact Or.inl ⟨ck, buffer, size, id, rfl, hallowed.1, hallowed.2.1, hallowed.2.2, rfl⟩
  | get con =>
    refine Or.inr (Or.inr ⟨trivial, ?_⟩)
    cases hget : w.mgr.get (w.conAt con) with
    | none => simp [ExternalMgrState.call, hget] at hs
    | some r =>
      simp only [ExternalMgrState.call, hget, Option.some.injEq] at hs
      subst hs
      refine ⟨?_, rfl, rfl, fun ck => ⟨rfl, rfl⟩⟩
      show r.1.buf_map = w.mgr.buf_map
      unfold ExternalChunkMgr.get at hget
      split at hget
      · cases hget
        rfl
      · split at hget
        · cases hget
        · cases hget
          rfl
  | get_by_id id =>
    cases hs
    cases hfind : w.mgr.buf_map.find? id.toInt with
    | none => exact Or.inr (Or.inl ⟨id, rfl, hfind, rfl⟩)
    | some v =>
      have hhas : w.mgr.buf_map.has id.toInt = true := StdMap.has_eq_true_iff.mpr ⟨v, hfind⟩
      refine Or.inr (Or.inr ⟨hhas, ?_, rfl, rfl, fun ck => ⟨rfl, rfl⟩⟩)
      exact StdMap.index_of_some nullptr hfind
  | reclaim ck con =>
    cases hs
    obtain ⟨v, hv⟩ := h.taken ck hallowed
    refine Or.inr (Or.inr ⟨trivial, ?_, rfl, rfl, fun ck => ⟨rfl, rfl⟩⟩)
    exact StdMap.insertNew_of_some ck hv
  | send con buffer_size id res =>
    refine Or.inr (Or.inr ⟨trivial, ?_⟩)
    simp only [ExternalMgrState.call] at hs
    split at hs
    · cases hs
    · rename_i hfound
      cases hs
      have hhas : w.mgr.buf_map.has id.toInt = true := by
        by_contra hno
        refine hfound ?_
        show (w.mgr.buf_map.find? id.toInt).getD nullptr = nullptr
        rw [StdMap.has_eq_false_iff.mp (Bool.not_eq_true _ ▸ hno)]
        rfl
      refine ⟨?_, rfl, rfl, fun ck => ?_⟩
      · exact congrArg (fun s => s.mgr.buf_map) (w.lookup_of_has id hhas)
      · -- only the size and the connection of the chunk are written
        show (Function.update w.mem _ _ ck).key = _ ∧ (Function.update w.mem _ _ ck).buffer = _
        by_cases hck : ck = w.found id
        · rw [hck, Function.update_self]
          exact ⟨rfl, rfl⟩
        · rw [Function.update_of_ne hck]
          exact ⟨rfl, rfl⟩
  | free_size =>
    cases hs
    exact Or.inr (Or.inr ⟨trivial, rfl, rfl, rfl, fun ck => ⟨rfl, rfl⟩⟩)
  | destroy => cases hs

/-! ## Histories -/

theorem base_step {op : MgrCall} (h : w.Base) (hstep : w.step op = some w') : w'.Base := by
  obtain ⟨ck, buffer, size, id, -, hck, hnew, hbuffer, rfl⟩ | ⟨id, -, hnone, rfl⟩ | ⟨-, hq⟩ :=
    step_cases h hstep
  · exact h.add hck hnew hbuffer (Or.inl rfl)
  · refine ⟨h.nonnull, fun k ck hk => ?_, fun ck hck => ?_, h.block⟩
    · obtain ⟨-, hz⟩ | hk := (find?_lookup_of_none hnone k ck).mp hk
      · exact Or.inl hz
      · exact h.entry k ck hk
    · obtain ⟨v, hv⟩ := h.taken ck hck
      exact ⟨v, (find?_lookup_of_none hnone _ v).mpr (Or.inr hv)⟩
  · exact hq.base h

/-- A call that breaks the condition does damage. -/
theorem damaged_of_not_guard {op : MgrCall} (h : w.Base) (hstep : w.step op = some w')
    (hbad : ¬ w.Guard op) : w'.Damaged := by
  obtain ⟨ck, buffer, size, id, rfl, hck, hnew, hbuffer, rfl⟩ | ⟨id, -, hnone, rfl⟩ | ⟨hg, -⟩ :=
    step_cases h hstep
  · refine damaged_add h hck hnew ?_
    rw [ExternalMgrState.key_newChunk]
    by_cases hfree : w.mgr.buf_map.find? id.toInt = none
    · exact Or.inr ⟨fun hz => hbad ⟨hz, hfree⟩, hbuffer⟩
    · exact Or.inl hfree
  · exact Or.inl ⟨id.toInt, (find?_lookup_of_none hnone _ _).mpr (Or.inl ⟨rfl, rfl⟩)⟩
  · exact absurd hg hbad

/-- No call mends the damage. -/
theorem damaged_step {op : MgrCall} (h : w.Base) (hstep : w.step op = some w')
    (hd : w.Damaged) : w'.Damaged := by
  obtain ⟨ck, buffer, size, id, -, hck, hnew, hbuffer, rfl⟩ | ⟨id, -, hnone, rfl⟩ | ⟨-, hq⟩ :=
    step_cases h hstep
  · exact hd.add h hnew
  · exact Or.inl ⟨id.toInt, (find?_lookup_of_none hnone _ _).mpr (Or.inl ⟨rfl, rfl⟩)⟩
  · exact hq.damaged_iff.mpr hd

/-- A call that meets the condition does none. -/
theorem not_damaged_step {op : MgrCall} (h : w.Base) (hd : ¬ w.Damaged) (hg : w.Guard op)
    (hstep : w.step op = some w') : ¬ w'.Damaged := by
  obtain ⟨ck, buffer, size, id, rfl, hck, hnew, -, rfl⟩ | ⟨id, rfl, hnone, rfl⟩ | ⟨-, hq⟩ :=
    step_cases h hstep
  · refine not_damaged_add h hd hck hnew ?_ (fun hz => absurd hg.1 hz) fun b hb => hb
    rw [ExternalMgrState.key_newChunk]
    exact hg.2
  · have hhas : w.mgr.buf_map.has id.toInt = true := hg
    rw [StdMap.has_eq_false_iff.mpr hnone] at hhas
    exact absurd hhas (by decide)
  · rwa [hq.damaged_iff]

/-! ## The constructor -/

/-- What the loop of the constructor with sizes keeps: no damage, and ids below the
counter. -/
structure Built (w : ExternalMgrHeap) : Prop where
  base : w.Base
  undamaged : ¬ w.Damaged
  real : nullptr ∉ w.blocks
  below : ∀ ck ∈ w.chunks, (w.mem ck).key < w.buffer_id

theorem built_empty : Built {} where
  base := by
    refine ⟨List.not_mem_nil, fun k ck hk => ?_, fun ck hck => absurd hck List.not_mem_nil,
      fun b hb => absurd hb List.not_mem_nil⟩
    have hk : (∅ : StdMap ℤ Addr).find? k = some ck := hk
    exact absurd hk (by simp)
  undamaged := by
    rintro (⟨k, hk⟩ | ⟨ck, hck, -⟩ | ⟨ck, hck, -⟩)
    · have hk : (∅ : StdMap ℤ Addr).find? k = some nullptr := hk
      exact absurd hk (by simp)
    · exact absurd hck List.not_mem_nil
    · exact absurd hck List.not_mem_nil
  real := List.not_mem_nil
  below := fun ck hck => absurd hck List.not_mem_nil

/-- One turn of the loop, while the ids are still below 2³¹. -/
theorem Built.turn (h : w.Built) (buffer_size : ℕ) (hid : w.buffer_id < 2 ^ 31) {block : Addr}
    (hck : ck ≠ nullptr) (hnew : ck ∉ w.chunks) (hblock : block ∉ w.blocks) :
    (turn buffer_size w (ck, block)).Built := by
  set header : Chunk :=
    { buffer := block, capacity := toUInt64 (toInt32 buffer_size), buffer_id := w.buffer_id,
      mr := nullptr } with hheader
  set blocks := if block = nullptr then w.blocks else block :: w.blocks with hblocks
  have hkey : header.key = w.buffer_id := by
    show toInt32 (w.buffer_id : ℤ) = w.buffer_id
    exact toInt32_eq_self (by omega) (by omega)
  have hfree : w.mgr.buf_map.find? header.key = none := by
    by_contra htaken
    obtain ⟨v, hv⟩ := Option.ne_none_iff_exists'.mp htaken
    obtain ⟨hmem, hvkey⟩ := (h.base.entry_iff h.undamaged _ v).mp hv
    have hlt := h.below v hmem
    rw [hvkey, hkey] at hlt
    exact absurd hlt (lt_irrefl _)
  have hnewblocks : blocks = w.blocks ∨ blocks = block :: w.blocks ∧
      ∀ a ∈ w.chunks, (w.mem a).buffer ≠ block := by
    by_cases hz : block = nullptr
    · exact Or.inl (if_pos hz)
    · refine Or.inr ⟨if_neg hz, ?_⟩
      rintro a ha rfl
      exact h.undamaged (Or.inr (Or.inr ⟨a, ha, hz, hblock⟩))
  have hown : block ≠ nullptr → block ∈ blocks := by
    intro hz
    rw [hblocks, if_neg hz]
    exact List.mem_cons_self
  have hold : ∀ b ∈ w.blocks, b ∈ blocks := by
    intro b hb
    obtain heq | ⟨heq, -⟩ := hnewblocks
    · rwa [heq]
    · rw [heq]
      exact List.mem_cons_of_mem _ hb
  have hq : (w.add ck header blocks).Quiet (ExternalMgrHeap.turn buffer_size w (ck, block)) :=
    ⟨rfl, rfl, rfl, fun a => ⟨rfl, rfl⟩⟩
  have hnext : (ExternalMgrHeap.turn buffer_size w (ck, block)).buffer_id = w.buffer_id + 1 :=
    Nat.mod_eq_of_lt (by omega)
  refine ⟨hq.base (h.base.add hck hnew hblock hnewblocks), ?_, ?_, fun a ha => ?_⟩
  · rw [hq.damaged_iff]
    exact not_damaged_add h.base h.undamaged hck hnew hfree hown hold
  · show nullptr ∉ blocks
    rw [hblocks]
    split
    · exact h.real
    · rename_i hz
      exact List.not_mem_cons_of_ne_of_not_mem (Ne.symm hz) h.real
  · rw [hnext]
    obtain rfl | ha := List.mem_cons.mp ha
    · show ((w.add a header blocks).mem a).key < _
      rw [mem_add_self, hkey]
      omega
    · have hne : a ≠ ck := fun heq => hnew (heq ▸ ha)
      show ((w.add ck header blocks).mem a).key < _
      rw [w.mem_add_of_ne header blocks hne]
      have := h.below a ha
      omega

/-- The whole loop, when `new` and `std::malloc` return memory that is not in use. -/
theorem Built.foldl (buffer_size : ℕ) : ∀ (answers : List (Addr × Addr)) (w : ExternalMgrHeap),
    w.Built → w.buffer_id + answers.length ≤ 2 ^ 31 → Fresh answers →
      (∀ a ∈ answers, a.1 ∉ w.chunks ∧ a.2 ∉ w.blocks) →
        (answers.foldl (ExternalMgrHeap.turn buffer_size) w).Built := by
  intro answers
  induction answers with
  | nil => intro w h _ _ _; exact h
  | cons answer answers ih =>
    intro w h hlen hfresh hnew
    obtain ⟨ck, block⟩ := answer
    rw [List.length_cons] at hlen
    obtain ⟨hchunks, hnonnull, hblocks⟩ := hfresh
    rw [List.map_cons, List.nodup_cons] at hchunks
    rw [List.map_cons, List.mem_cons, not_or] at hnonnull
    rw [List.map_cons] at hblocks
    rw [List.forall_mem_cons] at hnew
    have hnext : (ExternalMgrHeap.turn buffer_size w (ck, block)).buffer_id = w.buffer_id + 1 :=
      Nat.mod_eq_of_lt (by omega)
    have hturn := h.turn buffer_size (by omega) (Ne.symm hnonnull.1) hnew.1.1 hnew.1.2
    refine ih _ hturn (by rw [hnext]; omega) ⟨hchunks.2, hnonnull.2, ?_⟩ fun a ha => ⟨?_, ?_⟩
    · rw [List.filter_cons] at hblocks
      split at hblocks
      · exact (List.nodup_cons.mp hblocks).2
      · exact hblocks
    · have hmem : a.1 ∈ answers.map Prod.fst := List.mem_map_of_mem ha
      show a.1 ∉ ck :: w.chunks
      exact List.not_mem_cons_of_ne_of_not_mem (fun heq => hchunks.1 (heq ▸ hmem)) (hnew.2 a ha).1
    · show a.2 ∉ if block = nullptr then w.blocks else block :: w.blocks
      split
      · exact (hnew.2 a ha).2
      · rename_i hz
        have hmem : a.2 ∈ answers.map Prod.snd := List.mem_map_of_mem ha
        have hreal : decide (block ≠ nullptr) = true := by simpa using hz
        rw [List.filter_cons, if_pos hreal, List.nodup_cons] at hblocks
        refine List.not_mem_cons_of_ne_of_not_mem (fun heq => ?_) (hnew.2 a ha).2
        exact hblocks.1 (List.mem_filter.mpr ⟨heq ▸ hmem, hreal⟩)

theorem built_sized {buffer_num : Int32} {answers : List (Addr × Addr)}
    (hturns : answers.length = turns buffer_num) (hfresh : Fresh answers) (buffer_size : ℕ) :
    (sized buffer_size answers).Built := by
  have hlt := toInt32_lt (buffer_num.toInt * 2)
  unfold turns at hturns
  refine Built.foldl buffer_size answers {} built_empty ?_ hfresh fun a _ => ⟨?_, ?_⟩
  · show 0 + answers.length ≤ 2 ^ 31
    omega
  · exact List.not_mem_nil
  · exact List.not_mem_nil

/-- **When a manager is destroyed right**, whichever constructor made it and whatever calls
it has had. -/
theorem destroyOk_iff_meets (buffer_num : Int32) (buffer_size : ℕ)
    (answers : List (Addr × Addr)) (hturns : answers.length = turns buffer_num)
    (hfresh : Fresh answers) (ops : List MgrCall) (w : ExternalMgrHeap)
    (hrun : run step (sized buffer_size answers) ops = some w) :
    w.DestroyOk ↔ Meets step Guard (sized buffer_size answers) ops := by
  have hbuilt := built_sized hturns hfresh buffer_size
  obtain ⟨hmeets, hbase, hw⟩ | ⟨hnot, hbase, hw⟩ := good_or_damaged
    (fun (w : ExternalMgrHeap) op w' (hw : w.Base ∧ ¬ w.Damaged) (hg : w.Guard op) hstep =>
      ⟨base_step hw.1 hstep, not_damaged_step hw.1 hw.2 hg hstep⟩)
    (fun w op w' hw hg hstep => ⟨base_step hw.1 hstep, damaged_of_not_guard hw.1 hstep hg⟩)
    (fun w op w' (hw : w.Base ∧ w.Damaged) hstep =>
      ⟨base_step hw.1 hstep, damaged_step hw.1 hstep hw.2⟩)
    ⟨hbuilt.base, hbuilt.undamaged⟩ hrun
  · exact iff_of_true ((destroyOk_iff hbase).mpr hw) hmeets
  · exact iff_of_false (fun hok => (destroyOk_iff hbase).mp hok hw) hnot

/-- Two chunks from the constructor, looked up, handed out and taken back. -/
theorem destroyOk_sized : ∃ w : ExternalMgrHeap,
    run step (sized 16 [(1000, 5000), (2000, 6000)])
        [.get_by_id 1, .get 7, .reclaim 2000 7] = some w ∧ w.DestroyOk := by
  obtain ⟨w, hw⟩ : ∃ w, run step (sized 16 [(1000, 5000), (2000, 6000)])
      [.get_by_id 1, .get 7, .reclaim 2000 7] = some w :=
    Option.isSome_iff_exists.mp (by decide +kernel)
  refine ⟨w, hw, (destroyOk_iff_meets 1 16 _ (by decide +kernel) ?_ _ w hw).mpr ?_⟩
  · exact ⟨by decide, by decide, by decide⟩
  · decide +kernel

/-- Memory of the caller is freed; a chunk whose id is taken is not deleted; an id that was
looked up leads to a null dereference. -/
theorem destroy_wrong :
    (∃ w, run step {} [.set_buffer 1000 5000 16 0] = some w ∧ ¬ w.DestroyOk) ∧
      (∃ w, run step {} [.set_buffer 1000 nullptr 16 0, .set_buffer 2000 nullptr 16 0] = some w ∧
        ¬ w.DestroyOk) ∧
      ∃ w, run step {} [.get_by_id 0] = some w ∧ ¬ w.DestroyOk := by
  have hview : ∀ ops, ∀ d : Destruction × List Addr × List Addr,
      (run step {} ops).map (fun w => (w.mgr.destroy w.mem, w.chunks, w.blocks)) = some d →
        ∃ w : ExternalMgrHeap, run step {} ops = some w ∧ w.mgr.destroy w.mem = d.1 ∧
          w.chunks = d.2.1 ∧ w.blocks = d.2.2 := by
    intro ops d h
    obtain ⟨w, hw, rfl⟩ := Option.map_eq_some_iff.mp h
    exact ⟨w, hw, rfl, rfl, rfl⟩
  refine ⟨?_, ?_, ?_⟩
  · obtain ⟨w, hw, hd, -, hblocks⟩ := hview [.set_buffer 1000 5000 16 0]
      ({ freed := [5000], deleted := [1000], finished := true }, [1000], []) (by decide +kernel)
    refine ⟨w, hw, fun h => ?_⟩
    have hfreed := h.freed 5000 (by decide)
    rw [hd, hblocks] at hfreed
    exact absurd hfreed (by decide)
  · obtain ⟨w, hw, hd, hchunks, -⟩ :=
      hview [.set_buffer 1000 nullptr 16 0, .set_buffer 2000 nullptr 16 0]
        ({ freed := [0], deleted := [1000], finished := true }, [2000, 1000], [])
        (by decide +kernel)
    refine ⟨w, hw, fun h => ?_⟩
    have hdeleted := h.deleted 2000 (by rw [hchunks]; decide)
    rw [hd] at hdeleted
    exact absurd hdeleted (by decide)
  · obtain ⟨w, hw, hd, -, -⟩ := hview [.get_by_id 0]
      ({ finished := false }, [], []) (by decide +kernel)
    refine ⟨w, hw, fun h => ?_⟩
    have hfin := h.finished
    rw [hd] at hfin
    exact absurd hfin (by decide)

end ExternalMgrHeap

end Hpnl
