import Hpnl.ExternalChunkMgr

/-!
# Looking up an id in an external manager

`ExternalChunkMgr::get(int)` reads `buf_map[id]` and so enters a null chunk under an id
that is not there; `reclaim` takes the entry for a chunk and the destructor dereferences
it.

* `ExternalMgrState`, `call` — a manager with its chunks and connections, and what the
  calls on it return; `results` — what a whole sequence of calls returns.
* `Destruction` — what the destructor's loop frees and deletes.
* `Unnoticed`, `FoundOnceAdded` — what the users of a lookup rely on.
* `lookup_iff` — **no later call can tell that an id was looked up if and only if the id
  has an entry, and a chunk added later is found if and only if that entry is a chunk**.
-/

namespace Hpnl

open MachineInt

/-! ## The destructor -/

/-- What the loop of the destructor passes to `std::free` and deletes, and whether it gets
to the end of the map. -/
structure Destruction where
  freed : List Addr := []
  deleted : List Addr := []
  finished : Bool
  deriving DecidableEq, Repr

/-- The loop of `~ExternalChunkMgr` over the entries of `buf_map`; it ends early at a null
chunk, whose buffer it reads. -/
def destroyLoop (mem : Mem) : List (ℤ × Addr) → Destruction
  | [] => { finished := true }
  | (_, ck) :: bufs =>
      if ck = nullptr then { finished := false }
      else
        let rest := destroyLoop mem bufs
        { rest with freed := (mem ck).buffer :: rest.freed, deleted := ck :: rest.deleted }

/-- `ExternalChunkMgr::~ExternalChunkMgr`. -/
def ExternalChunkMgr.destroy (m : ExternalChunkMgr) (mem : Mem) : Destruction :=
  destroyLoop mem m.buf_map.entries

/-! ## Calls and what they return -/

/-- A manager with the chunk headers and the connections. -/
structure ExternalMgrState where
  mem : Mem := fun _ => {}
  mgr : ExternalChunkMgr := {}
  cons : ConId → ConnectionImpl := fun _ => {}

/-- A call.  In `set_buffer` and `send` the environment gives the address of the new chunk
and the answer of `fi_send`. -/
inductive MgrCall where
  | set_buffer (ck buffer : Addr) (size : ℕ) (buffer_id : Int32)
  | get (con : ConId)
  | get_by_id (id : Int32)
  | reclaim (ck : Addr) (con : ConId)
  /-- `MsgConnection::send(buffer_size, id)` on a connection of the manager. -/
  | send (con : ConId) (buffer_size id : Int32) (res : ℤ)
  | free_size
  | destroy
  deriving DecidableEq

/-- What a caller sees of a call. -/
inductive MgrResult where
  | done
  | chunk (ck : Addr)
  | size (n : ℤ)
  /-- `fi_send` was called for a chunk, with its buffer, size and region, and answered. -/
  | sent (ck buffer : Addr) (size : ℕ) (mr : Addr) (res : ℤ)
  | destroyed (d : Destruction)
  /-- A null pointer was dereferenced. -/
  | crashed
  deriving DecidableEq

namespace ExternalMgrState

/-- The connection object behind an argument. -/
def conAt (s : ExternalMgrState) (con : ConId) : Option ConnectionImpl :=
  if con = nullptr then none else some (s.cons con)

/-- What a call has done to the connection. -/
def putBack (s : ExternalMgrState) (con : ConId) (c : Option ConnectionImpl) :
    ConId → ConnectionImpl :=
  (c.map fun c => Function.update s.cons con c).getD s.cons

/-- The chunk that `ExternalEqService::set_buffer` makes. -/
def newChunk (buffer : Addr) (size : ℕ) (buffer_id : Int32) : Chunk :=
  { buffer := buffer, buffer_id := toUInt64 buffer_id.toInt, capacity := size, mr := nullptr }

/-- The state after `ExternalEqService::set_buffer`. -/
def set_buffer (s : ExternalMgrState) (ck buffer : Addr) (size : ℕ) (buffer_id : Int32) :
    ExternalMgrState :=
  let mem := Function.update s.mem ck (newChunk buffer size buffer_id)
  { s with mem := mem, mgr := (s.mgr.reclaim mem ck none).1 }

/-- The state after `get(id)`. -/
def lookup (s : ExternalMgrState) (id : Int32) : ExternalMgrState :=
  { s with mgr := (s.mgr.get_by_id id.toInt).1 }

/-- What `get(id)` returns. -/
def found (s : ExternalMgrState) (id : Int32) : Addr := (s.mgr.get_by_id id.toInt).2

/-- One call: its result, and the state after it unless the manager or the process is
gone.  `send` writes `ck->size` before it tests `ck`. -/
def call (s : ExternalMgrState) : MgrCall → MgrResult × Option ExternalMgrState
  | .set_buffer ck buffer size buffer_id => (.done, some (s.set_buffer ck buffer size buffer_id))
  | .get con =>
      match s.mgr.get (s.conAt con) with
      | none => (.crashed, none)
      | some (mgr, c, ck) => (.chunk ck, some { s with mgr := mgr, cons := s.putBack con c })
  | .get_by_id id => (.chunk (s.found id), some (s.lookup id))
  | .reclaim ck con =>
      let (mgr, c) := s.mgr.reclaim s.mem ck (s.conAt con)
      (.done, some { s with mgr := mgr, cons := s.putBack con c })
  | .send con buffer_size id res =>
      let ck := s.found id
      if ck = nullptr then (.crashed, none)
      else
        let header := { s.mem ck with size := toUInt64 buffer_size.toInt, con := con }
        (.sent ck header.buffer header.size header.mr res,
          some { s.lookup id with mem := Function.update s.mem ck header })
  | .free_size => (.size s.mgr.free_size, some s)
  | .destroy => (.destroyed (s.mgr.destroy s.mem), none)

/-- What a sequence of calls returns, as far as it gets. -/
def results (s : ExternalMgrState) : List MgrCall → List MgrResult
  | [] => []
  | op :: ops =>
      (s.call op).1 ::
        match (s.call op).2 with
        | none => []
        | some t => t.results ops

/-! ## Lookups -/

/-- **Nobody notices the lookup**: every sequence of calls returns the same with it as
without it. -/
def Unnoticed (s : ExternalMgrState) (id : Int32) : Prop :=
  ∀ ops, (s.lookup id).results ops = s.results ops

/-- An id that was looked up is found after a chunk has been added under it. -/
def FoundOnceAdded (s : ExternalMgrState) (id : Int32) : Prop :=
  ∀ ck buffer size, ck ≠ nullptr →
    ((s.lookup id).set_buffer ck buffer size id).found id ≠ nullptr

variable (s : ExternalMgrState) (id : Int32)

theorem toInt32_toInt : toInt32 id.toInt = id.toInt :=
  toInt32_eq_self (Int32.le_toInt id) (Int32.toInt_lt id)

theorem key_newChunk (buffer : Addr) (size : ℕ) : (newChunk buffer size id).key = id.toInt := by
  unfold Chunk.key newChunk
  dsimp only
  rw [toInt32_toUInt64, toInt32_toInt]

/-- What a lookup finds after a chunk has been added: the entry that was there, if any. -/
theorem found_set_buffer (ck buffer : Addr) (size : ℕ) :
    (s.set_buffer ck buffer size id).found id =
      (s.mgr.buf_map.find? id.toInt).getD ck := by
  have hkey : (Function.update s.mem ck (newChunk buffer size id) ck).key = id.toInt := by
    rw [Function.update_self, key_newChunk]
  show ((s.mgr.buf_map.insertNew _ ck).find? id.toInt).getD nullptr = _
  rw [hkey]
  cases hfind : s.mgr.buf_map.find? id.toInt with
  | none => rw [StdMap.insertNew_of_none ck hfind, StdMap.find?_assign_self]; rfl
  | some w => rw [StdMap.insertNew_of_some ck hfind, hfind]; rfl

/-- A lookup of an id that has an entry changes nothing. -/
theorem lookup_of_has (h : s.mgr.buf_map.has id.toInt = true) : s.lookup id = s := by
  obtain ⟨w, hw⟩ := StdMap.has_eq_true_iff.mp h
  unfold lookup ExternalChunkMgr.get_by_id
  rw [StdMap.index_of_some nullptr hw]

/-- After a lookup the id has the entry that the lookup returned. -/
theorem find?_lookup : (s.lookup id).mgr.buf_map.find? id.toInt = some (s.found id) :=
  StdMap.find?_index_self s.mgr.buf_map id.toInt nullptr

/-- Adding a chunk under an id without an entry and looking it up tells whether the id had
been looked up, whichever chunk it is. -/
theorem results_ne (hnone : s.mgr.buf_map.find? id.toInt = none) {ck : Addr} (hck : ck ≠ nullptr)
    (buffer : Addr) (size : ℕ) :
    (s.lookup id).results [.set_buffer ck buffer size id, .get_by_id id] ≠
      s.results [.set_buffer ck buffer size id, .get_by_id id] := by
  intro hsame
  simp only [results, call, List.cons.injEq, MgrResult.chunk.injEq, and_true, true_and] at hsame
  rw [found_set_buffer, found_set_buffer, find?_lookup, hnone, Option.getD_some,
    Option.getD_none] at hsame
  have hnull : s.found id = nullptr := by
    show (s.mgr.buf_map.find? id.toInt).getD nullptr = nullptr
    rw [hnone]
    rfl
  exact hck (hsame.symm.trans hnull)

theorem unnoticed_iff : s.Unnoticed id ↔ s.mgr.buf_map.has id.toInt = true := by
  constructor
  · intro h
    by_contra hno
    have hnone : s.mgr.buf_map.find? id.toInt = none :=
      StdMap.has_eq_false_iff.mp (Bool.not_eq_true _ ▸ hno)
    exact s.results_ne id hnone (by decide : (1 : Addr) ≠ nullptr) nullptr 0 (h _)
  · intro h ops
    rw [lookup_of_has s id h]

theorem foundOnceAdded_iff :
    s.FoundOnceAdded id ↔ ∃ ck, ck ≠ nullptr ∧ s.mgr.buf_map.find? id.toInt = some ck := by
  have hentry : s.FoundOnceAdded id ↔ s.found id ≠ nullptr := by
    unfold FoundOnceAdded
    constructor
    · intro h
      have hfound := h 1 nullptr 0 (by decide)
      rwa [found_set_buffer, find?_lookup] at hfound
    · intro h ck buffer size _
      rwa [found_set_buffer, find?_lookup]
  rw [hentry]
  show (s.mgr.buf_map.find? id.toInt).getD nullptr ≠ nullptr ↔ _
  cases s.mgr.buf_map.find? id.toInt with
  | none => simp
  | some w => simp

/-- **When a lookup does no harm.** -/
theorem lookup_iff :
    (s.Unnoticed id ↔ s.mgr.buf_map.has id.toInt = true) ∧
      (s.FoundOnceAdded id ↔ ∃ ck, ck ≠ nullptr ∧ s.mgr.buf_map.find? id.toInt = some ck) :=
  ⟨s.unnoticed_iff id, s.foundOnceAdded_iff id⟩

/-- On a new manager: a lookup of the id 0 makes the destructor dereference null, and hides
a chunk that is added under 0 afterwards. -/
theorem lookup_noticed :
    ({} : ExternalMgrState).results [.destroy] = [.destroyed { finished := true }] ∧
      (({} : ExternalMgrState).lookup 0).results [.destroy] = [.destroyed { finished := false }] ∧
      ¬ ({} : ExternalMgrState).Unnoticed 0 ∧ ¬ ({} : ExternalMgrState).FoundOnceAdded 0 := by
  have hplain : ({} : ExternalMgrState).results [.destroy] = [.destroyed { finished := true }] := by
    decide +kernel
  have hlooked : (({} : ExternalMgrState).lookup 0).results [.destroy] =
      [.destroyed { finished := false }] := by
    decide +kernel
  refine ⟨hplain, hlooked, fun h => ?_, fun h => ?_⟩
  · have hsame := h [.destroy]
    rw [hplain, hlooked] at hsame
    exact absurd hsame (by decide)
  · exact h 1 nullptr 0 (by decide) (by decide +kernel)

end ExternalMgrState

end Hpnl
