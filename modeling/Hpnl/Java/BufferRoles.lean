import Hpnl.Connection.Basic
import Hpnl.Java.MemPool
import Hpnl.Lib.Places

/-!
# What the buffers of a Java service are used for

The buffers that a `MemPool` allocates are known to Java and to the native side by their ids.
`MsgConnection::init` takes two chunks a round: it posts the first as a receive and keeps the
second for sends.  When the connection is established, `wait_eq_event1` pushes the ids of the
second ones to Java, one by one.  `Connection.send` takes an id from `sendBufferList`, writes
into the buffer, and hands the id to the native `send`; the completion puts it back.  A receive
chunk is posted again by the JNI layer after its callback.

* `BufferWorld` — the pool and the manager, and the places of the ids.
* `Apart` — no id has two uses, and the memory that `put` writes is not posted.
* `Guard` — buffers are allocated only as long as there are ids.
* `Stock`, `stock_allocs` — what the pool and the manager have to do with each other.
* `buffers_apart` — **ids, and the memory under them, stay apart** along every run of at most
  2³² allocations.
-/

namespace Hpnl

open MachineInt Transition Places

/-- What the buffer under an id is used for. -/
inductive BufferPlace where
  /-- Posted as a receive on the connection's endpoint. -/
  | receive (con : ConId)
  /-- Received into, and with `wait_cq_event` until it is posted again. -/
  | received (con : ConId)
  /-- In the native `send_chunks`, and not pushed to Java yet. -/
  | send_chunks (con : ConId)
  | sendBufferList (con : ConId)
  /-- Taken by `Connection.send`, which writes into it. -/
  | taken (con : ConId)
  /-- In flight as a send. -/
  | sent (con : ConId)
  deriving DecidableEq, Repr

/-- How far a connection is: `init`, and whether Java knows it. -/
structure BufferConnection where
  phase : InitPhase
  established : Bool := false
  deriving DecidableEq, Repr

/-- A service: its pool and its chunk manager, the connections, and the ids in their places.
`allocated` is a ghost, the number of buffers there are. -/
structure BufferWorld extends EqServicePool where
  allocated : ℕ
  cons : ConId → Option BufferConnection
  places : BufferPlace → List ℤ

/-- A step of the service, of a connection or of the fabric. -/
inductive BufferOp where
  | initBufferPool (bufferSize nextBufferNum : ℤ) (answers : List (Addr × Addr))
  | reallocBufferPool (answers : List (Addr × Addr))
  /-- `accept` or `connect`, as far as `fi_enable`. -/
  | construct (con : ConId) (buffer_num : ℕ)
  /-- The receive chunk of a round of `init`. -/
  | init_recv (con : ConId)
  /-- The send chunk of a round of `init`. -/
  | init_send (con : ConId)
  | establishConnection (con : ConId)
  | pushSendBuffer (con : ConId) (bufferId : ℤ)
  /-- `takeSendBuffer`, and `put` into the buffer. -/
  | takeSendBuffer (con : ConId) (bufferId : ℤ)
  /-- The native `send`; whether `fi_send` accepts. -/
  | send (con : ConId) (bufferId : ℤ) (ok : Bool)
  /-- A send completes: `handleCallback` puts the buffer back. -/
  | sendEvent (con : ConId) (bufferId : ℤ)
  /-- A receive completes. -/
  | recvEvent (con : ConId) (bufferId : ℤ)
  /-- `activate_recv_chunk(ck)`; whether `fi_recv` accepts. -/
  | activate_recv_chunk (con : ConId) (bufferId : ℤ) (ok : Bool)
  /-- A receive or a send fails, and the error is printed. -/
  | error (p : BufferPlace) (bufferId : ℤ)

namespace BufferWorld

/-- A service without a pool, and no connections. -/
def init (mem : Mem) : BufferWorld :=
  { EqServicePool.init mem with
    allocated := 0
    cons := fun _ => none
    places := fun _ => [] }

def setCon (w : BufferWorld) (con : ConId) (c : BufferConnection) : BufferWorld :=
  { w with cons := Function.update w.cons con (some c) }

/-- `allocateDirect` answers with memory that no other buffer has. -/
def FreshMemory (pool : MemPool) (answers : List (Addr × Addr)) : Prop :=
  (answers.map Prod.fst).Nodup ∧
    ∀ a ∈ answers, ∀ e ∈ pool.bufferMap.entries, e.2.memory ≠ a.1

instance (pool : MemPool) (answers : List (Addr × Addr)) : Decidable (FreshMemory pool answers) :=
  inferInstanceAs (Decidable (_ ∧ _))

/-- `chunk_mgr->get(this)`, and the chunk's id goes to `p`.  Without a chunk `init` fails, and
the connection is deleted. -/
def getFor (w : BufferWorld) (p : BufferPlace) : Option BufferWorld :=
  match w.chkMgr.bufs with
  | [] => none
  | ck :: _ =>
      (w.toEqServicePool.step .get).map fun s =>
        { w with toEqServicePool := s, places := put w.places p (s.mem ck).key }

/-- An id goes from `p` to `q`. -/
def pass (w : BufferWorld) (p q : BufferPlace) (bufferId : ℤ) : Option BufferWorld :=
  if bufferId ∈ w.places p then some { w with places := move w.places p q bufferId } else none

/-- An id is lost. -/
def drop (w : BufferWorld) (p : BufferPlace) (bufferId : ℤ) : Option BufferWorld :=
  if bufferId ∈ w.places p then some { w with places := take w.places p bufferId } else none

/-- `MsgConnection::send(buffer_size, id)`: the chunk that is known under the id is sent.  When
`fi_send` does not accept it, nobody has it any more. -/
def nativeSend (w : BufferWorld) (con : ConId) (bufferId : ℤ) (ok : Bool) : Option BufferWorld :=
  let (chkMgr, ck) := w.chkMgr.get_by_id bufferId
  if bufferId ∈ w.places (.taken con) ∧ ck ≠ nullptr then
    let places := take w.places (.taken con) bufferId
    some { w with
      chkMgr := chkMgr
      places := if ok then put places (.sent con) (w.mem ck).key else places }
  else none

/-- One step.  No connection is destroyed. -/
def step (w : BufferWorld) : BufferOp → Option BufferWorld
  | .initBufferPool bufferSize nextBufferNum answers =>
      if w.bufferPool.isNone ∧ (answers.map Prod.fst).Nodup then
        (w.toEqServicePool.initBufferPool bufferSize nextBufferNum answers).map fun s =>
          { w with toEqServicePool := s, allocated := answers.length }
      else none
  | .reallocBufferPool answers =>
      w.bufferPool.bind fun pool =>
        if FreshMemory pool answers then
          (w.toEqServicePool.reallocBufferPool answers).map fun s =>
            { w with toEqServicePool := s, allocated := w.allocated + answers.length }
        else none
  | .construct con buffer_num =>
      if (w.cons con).isNone then some (w.setCon con { phase := InitPhase.loop buffer_num })
      else none
  | .init_recv con =>
      (w.cons con).bind fun c =>
        match c.phase with
        | .recv n =>
            (w.getFor (.receive con)).map fun w' => w'.setCon con { c with phase := .send n }
        | _ => none
  | .init_send con =>
      (w.cons con).bind fun c =>
        match c.phase with
        | .send n =>
            (w.getFor (.send_chunks con)).map fun w' =>
              w'.setCon con { c with phase := InitPhase.loop n }
        | _ => none
  | .establishConnection con =>
      (w.cons con).bind fun c =>
        if c.phase = .ready then some (w.setCon con { c with established := true }) else none
  | .pushSendBuffer con bufferId =>
      (w.cons con).bind fun c =>
        if c.established then w.pass (.send_chunks con) (.sendBufferList con) bufferId else none
  | .takeSendBuffer con bufferId => w.pass (.sendBufferList con) (.taken con) bufferId
  | .send con bufferId ok => w.nativeSend con bufferId ok
  | .sendEvent con bufferId => w.pass (.sent con) (.sendBufferList con) bufferId
  | .recvEvent con bufferId => w.pass (.receive con) (.received con) bufferId
  | .activate_recv_chunk con bufferId ok =>
      if ok then w.pass (.received con) (.receive con) bufferId else w.drop (.received con) bufferId
  | .error p bufferId =>
      match p with
      | .receive _ => w.drop p bufferId
      | .sent _ => w.drop p bufferId
      | _ => none

/-! ## What is to hold -/

/-- **Buffers stay apart.**  What is posted as a receive is in no `sendBufferList`, is not being
written and is not in flight as a send; what is posted on, or in the list of, one connection is
not with another; and the memory that `put` writes, which Java finds under an id, is not that of
a posted chunk. -/
structure Apart (w : BufferWorld) : Prop where
  receive : ∀ con other id, id ∈ w.places (.receive con) →
    id ∉ w.places (.sendBufferList other) ∧ id ∉ w.places (.taken other) ∧
      id ∉ w.places (.sent other)
  connections : ∀ con other id,
    id ∈ w.places (.receive con) ∨ id ∈ w.places (.sendBufferList con) →
      id ∈ w.places (.receive other) ∨ id ∈ w.places (.sendBufferList other) → con = other
  memory : ∀ con other id id' pool b, id ∈ w.places (.taken con) →
    id' ∈ w.places (.receive other) → w.bufferPool = some pool → pool.getBuffer id = some b →
      (w.mem (w.chkMgr.get_by_id id').2).buffer ≠ b.memory

/-- Buffers are allocated as long as there are ids, of which an `int` has 2³². -/
def Guard (w : BufferWorld) : BufferOp → Prop
  | .initBufferPool _ _ answers => answers.length ≤ 2 ^ 32
  | .reallocBufferPool answers => w.allocated + answers.length ≤ 2 ^ 32
  | _ => True

instance (w : BufferWorld) : DecidablePred w.Guard
  | .initBufferPool .. => by unfold Guard; infer_instance
  | .reallocBufferPool _ => by unfold Guard; infer_instance
  | .construct .. => isTrue trivial
  | .init_recv _ => isTrue trivial
  | .init_send _ => isTrue trivial
  | .establishConnection _ => isTrue trivial
  | .pushSendBuffer .. => isTrue trivial
  | .takeSendBuffer .. => isTrue trivial
  | .send .. => isTrue trivial
  | .sendEvent .. => isTrue trivial
  | .recvEvent .. => isTrue trivial
  | .activate_recv_chunk .. => isTrue trivial
  | .error .. => isTrue trivial

end BufferWorld

/-! ## The pool and the manager -/

namespace EqServicePool

/-- A pool that has allocated `n` buffers, and the manager: they are linked, each chunk is free
or out, the ids are the first `n`, and each buffer has memory of its own. -/
structure Stock (s : EqServicePool) (pool : MemPool) (n : ℕ) : Prop where
  linked : s.Linked pool
  nodup : s.chkMgr.bufs.Nodup
  free : ∀ ck ∈ s.chkMgr.bufs, ck ∉ s.out
  seqId : pool.seqId = toInt32 n
  ids : ∀ id ck, s.chkMgr.buf_map.find? id = some ck → ∃ i < n, id = toInt32 i
  own : ∀ id id' b b', pool.getBuffer id = some b → pool.getBuffer id' = some b' →
    b.memory = b'.memory → id = id'

section

variable {s s' : EqServicePool} {pool pool' : MemPool} {n : ℕ}

/-- The next id has not been given yet. -/
theorem Stock.fresh_id (h : s.Stock pool n) (hn : n < 2 ^ 32) :
    s.chkMgr.buf_map.find? pool.seqId = none := by
  by_contra hsome
  obtain ⟨ck, hck⟩ := Option.ne_none_iff_exists'.mp hsome
  obtain ⟨i, hi, hid⟩ := h.ids pool.seqId ck hck
  have heq : n = i := toInt32_inj hn (hi.trans hn) (h.seqId.symm.trans hid)
  omega

theorem stock_newPool (hbufs : s.chkMgr.bufs = []) (hout : s.out = [])
    (hmap : s.chkMgr.buf_map.entries = []) (bufferSize nextBufferNum : ℤ) :
    s.Stock (newPool bufferSize nextBufferNum) 0 := by
  refine ⟨linked_newPool (fun ck hck => ?_) hmap _ _, hbufs ▸ List.nodup_nil, fun ck hck => ?_,
    toInt32_zero.symm, fun id ck hfind => ?_, fun id id' b b' hb => ?_⟩
  · rw [hbufs, hout] at hck
    exact absurd hck (by simp)
  · rw [hbufs] at hck
    exact absurd hck List.not_mem_nil
  · have hmem := StdMap.mem_entries.mpr hfind
    rw [hmap] at hmem
    exact absurd hmem List.not_mem_nil
  · exact absurd hb (by simp [MemPool.getBuffer, newPool])

/-- **One allocation.** -/
theorem stock_alloc {byteBuffer ck : Addr} (h : s.Stock pool n) (hn : n < 2 ^ 32)
    (hck : s.FreshChunk ck) (hown : ∀ id b, pool.getBuffer id = some b → b.memory ≠ byteBuffer) :
    (s.alloc pool byteBuffer ck).2.Stock (s.alloc pool byteBuffer ck).1 (n + 1) := by
  have hid : s.chkMgr.buf_map.find? pool.seqId = none := h.fresh_id hn
  refine ⟨linked_alloc h.linked hck hid, List.nodup_cons.mpr ⟨hck.2.1, h.nodup⟩, fun a ha => ?_, ?_,
    fun id a hfind => ?_, fun id id' b b' hb hb' hsame => ?_⟩
  · rcases List.mem_cons.mp ha with rfl | ha
    · exact hck.2.2
    · exact h.free a ha
  · show toInt32 (pool.seqId + 1) = _
    rw [h.seqId, toInt32_toInt32_add]
    push_cast
    rfl
  · rw [buf_map_alloc h.linked, StdMap.find?_insertNew_eq_some hid] at hfind
    rcases hfind with ⟨rfl, -⟩ | hfind
    · exact ⟨n, Nat.lt_succ_self n, h.seqId⟩
    · obtain ⟨i, hi, heq⟩ := h.ids id a hfind
      exact ⟨i, hi.trans (Nat.lt_succ_self n), heq⟩
  · have hnew : ∀ k b, (s.alloc pool byteBuffer ck).1.getBuffer k = some b →
        k = pool.seqId ∧ b.memory = byteBuffer ∨ k ≠ pool.seqId ∧ pool.getBuffer k = some b := by
      intro k b hk
      change (pool.bufferMap.assign pool.seqId ⟨pool.seqId, byteBuffer⟩).find? k = some b at hk
      by_cases hks : k = pool.seqId
      · rw [hks, StdMap.find?_assign_self] at hk
        cases hk
        exact Or.inl ⟨hks, rfl⟩
      · rw [StdMap.find?_assign_of_ne _ _ (Ne.symm hks)] at hk
        exact Or.inr ⟨hks, hk⟩
    rcases hnew id b hb with ⟨hk, hm⟩ | ⟨-, hb⟩
    · rcases hnew id' b' hb' with ⟨hk', -⟩ | ⟨-, hb'⟩
      · exact hk.trans hk'.symm
      · exact absurd (hsame.symm.trans hm) (hown id' b' hb')
    · rcases hnew id' b' hb' with ⟨-, hm'⟩ | ⟨-, hb'⟩
      · exact absurd (hsame.trans hm') (hown id b hb)
      · exact h.own id id' b b' hb hb' hsame

/-- **All the allocations of a call.**  The chunks that are out stay what they are. -/
theorem stock_allocs : ∀ {answers : List (Addr × Addr)} {s : EqServicePool} {pool : MemPool}
    {n : ℕ}, s.Stock pool n → n + answers.length ≤ 2 ^ 32 →
      BufferWorld.FreshMemory pool answers → s.allocs pool answers = some (pool', s') →
        s'.Stock pool' (n + answers.length) ∧ s'.out = s.out ∧
          ∀ ck ∈ s.out, s'.mem ck = s.mem ck := by
  intro answers
  induction answers with
  | nil =>
    intro s pool n h _ _ hallocs
    cases hallocs
    exact ⟨h, rfl, fun _ _ => rfl⟩
  | cons answer answers ih =>
    intro s pool n h hn hmem hallocs
    obtain ⟨byteBuffer, ck⟩ := answer
    obtain ⟨hnodup, hold⟩ := hmem
    obtain ⟨hnot, hnodup⟩ := List.nodup_cons.mp hnodup
    rw [List.length_cons] at hn
    rw [allocs] at hallocs
    split at hallocs
    · rename_i hck
      have hown : ∀ id b, pool.getBuffer id = some b → b.memory ≠ byteBuffer := fun id b hb =>
        hold _ List.mem_cons_self (id, b) (StdMap.mem_entries.mpr hb)
      have hstock := stock_alloc h (by omega) hck hown
      have hfresh : BufferWorld.FreshMemory (s.alloc pool byteBuffer ck).1 answers := by
        refine ⟨hnodup, fun a ha e he => ?_⟩
        have hfind := StdMap.mem_entries.mp he
        change (pool.bufferMap.assign pool.seqId ⟨pool.seqId, byteBuffer⟩).find? e.1 = some e.2
          at hfind
        by_cases hes : e.1 = pool.seqId
        · rw [hes, StdMap.find?_assign_self] at hfind
          rw [← Option.some.inj hfind]
          rintro rfl
          exact hnot (List.mem_map.mpr ⟨a, ha, rfl⟩)
        · rw [StdMap.find?_assign_of_ne _ _ (Ne.symm hes)] at hfind
          exact hold a (List.mem_cons_of_mem _ ha) e (StdMap.mem_entries.mpr hfind)
      obtain ⟨hstock', hout, hkept⟩ := ih hstock (by omega) hfresh hallocs
      refine ⟨?_, hout, fun a ha => (hkept a ha).trans ?_⟩
      · rw [List.length_cons]
        convert hstock' using 1
        omega
      · refine Function.update_of_ne ?_ _ _
        rintro rfl
        exact hck.2.2 ha
    · cases hallocs

/-- The service remembers the pool. -/
theorem Stock.remember (h : s.Stock pool n) (bufferPool : Option MemPool) :
    Stock { s with bufferPool := bufferPool } pool n :=
  ⟨linked_congr h.linked rfl rfl fun _ => Iff.rfl, h.nodup, h.free, h.seqId, h.ids, h.own⟩

end

end EqServicePool

namespace BufferWorld

/-! ## The invariant -/

/-- The pool has its stock, or there is none yet; each id in use is that of a chunk that is out,
and has one use. -/
structure Inv (w : BufferWorld) : Prop where
  stock : (∃ pool, w.bufferPool = some pool ∧ w.toEqServicePool.Stock pool w.allocated) ∨
    w.bufferPool = none ∧ w.chkMgr.bufs = [] ∧ w.out = [] ∧ w.chkMgr.buf_map.entries = []
  sorted : Sorted w.places
  out : ∀ id, Lies w.places id → ∃ ck ∈ w.out, (w.mem ck).key = id

section

variable {w w' : BufferWorld} {p q : BufferPlace} {id : ℤ}

theorem inv_init (mem : Mem) : (init mem).Inv where
  stock := Or.inr ⟨rfl, rfl, rfl, StdMap.entries_empty⟩
  sorted := sorted_empty
  out := fun _ ⟨_, hmem⟩ => absurd hmem List.not_mem_nil

/-- An id in use is that of one chunk, which both sides know. -/
theorem Inv.known (h : w.Inv) (hid : Lies w.places id) : ∃ pool, ∃ ck ∈ w.out,
    w.bufferPool = some pool ∧ w.toEqServicePool.Stock pool w.allocated ∧ (w.mem ck).key = id ∧
      ck ≠ nullptr ∧ w.chkMgr.get_by_id id = (w.chkMgr, ck) := by
  obtain ⟨ck, hck, hkey⟩ := h.out id hid
  rcases h.stock with ⟨pool, hpool, hstock⟩ | ⟨-, -, hout, -⟩
  · exact ⟨pool, ck, hck, hpool, hstock, hkey, (hstock.linked.known ck (Or.inr hck)).1,
      hkey ▸ EqServicePool.get_by_id_of_known hstock.linked hck⟩
  · rw [hout] at hck
    exact absurd hck List.not_mem_nil

/-- **Apart.**  Two ids in use are two chunks with memory of their own. -/
theorem Inv.apart (h : w.Inv) : w.Apart := by
  refine ⟨fun con other id hid => ⟨fun hl => ?_, fun hl => ?_, fun hl => ?_⟩,
    fun con other id hid hid' => ?_, fun con other id id' pool b hid hid' hpool hb hsame => ?_⟩
  · cases h.sorted.one hid hl
  · cases h.sorted.one hid hl
  · cases h.sorted.one hid hl
  · rcases hid with hid | hid <;> rcases hid' with hid' | hid' <;>
      cases h.sorted.one hid hid' <;> rfl
  · obtain ⟨pool', ck, hck, hpool', hstock, hkey, -, hget⟩ := h.known ⟨_, hid'⟩
    obtain rfl : pool = pool' := Option.some.inj (hpool.symm.trans hpool')
    obtain ⟨-, hfind⟩ := hstock.linked.known ck (Or.inr hck)
    obtain ⟨-, b', hb', hbuffer⟩ := hstock.linked.same _ ck hfind
    rw [hget] at hsame
    have hids : (w.mem ck).key = id := hstock.own _ _ b' b hb' hb (hbuffer.symm.trans hsame)
    rw [hkey] at hids
    cases h.sorted.one hid (hids ▸ hid')

/-- What changes no place but moves ids between them. -/
theorem inv_pass (h : w.Inv) (hstep : w.pass p q id = some w') : w'.Inv := by
  rw [pass] at hstep
  split at hstep
  · rename_i hid
    cases hstep
    exact ⟨h.stock, h.sorted.move hid q, fun a ha => h.out a ((h.sorted.lies_move hid).mp ha)⟩
  · cases hstep

theorem inv_drop (h : w.Inv) (hstep : w.drop p id = some w') : w'.Inv := by
  rw [drop] at hstep
  split at hstep
  · rename_i hid
    cases hstep
    exact ⟨h.stock, h.sorted.take hid, fun a ha => h.out a ((h.sorted.lies_take hid).mp ha).2⟩
  · cases hstep

/-- **A chunk is taken from the manager.**  Its id was not in use. -/
theorem inv_getFor (h : w.Inv) (hstep : w.getFor p = some w') : w'.Inv := by
  rw [getFor] at hstep
  split at hstep
  · cases hstep
  · rename_i ck bufs hbufs
    rcases h.stock with ⟨pool, hpool, hstock⟩ | ⟨-, hnil, -, -⟩
    swap
    · rw [hnil] at hbufs
      cases hbufs
    have hmem : ck ∈ w.chkMgr.bufs := hbufs ▸ List.mem_cons_self
    obtain ⟨hnull, hfind⟩ := hstock.linked.known ck (Or.inl hmem)
    rw [EqServicePool.step, ExternalChunkMgr.get, hbufs] at hstep
    simp only [Option.map_some, if_neg hnull, Option.some.injEq] at hstep
    subst hstep
    have hnew : ¬ Lies w.places (w.mem ck).key := by
      intro hlies
      obtain ⟨a, ha, hkey⟩ := h.out _ hlies
      have hfind' := (hstock.linked.known a (Or.inr ha)).2
      rw [hkey, hfind, Option.some.injEq] at hfind'
      exact hstock.free ck hmem (hfind' ▸ ha)
    have hnodup := hbufs ▸ hstock.nodup
    refine ⟨Or.inl ⟨pool, hpool, ⟨EqServicePool.linked_congr hstock.linked rfl rfl fun a => ?_,
      (List.nodup_cons.mp hnodup).2, fun a ha => ?_, hstock.seqId, hstock.ids, hstock.own⟩⟩,
      h.sorted.put hnew p, fun a ha => ?_⟩
    · show a ∈ bufs ∨ a ∈ ck :: w.out ↔ a ∈ w.chkMgr.bufs ∨ a ∈ w.out
      rw [hbufs, List.mem_cons, List.mem_cons]
      tauto
    · show a ∉ ck :: w.out
      refine mt List.mem_cons.mp (not_or.mpr ⟨?_, ?_⟩)
      · rintro rfl
        exact (List.nodup_cons.mp hnodup).1 ha
      · exact hstock.free a (hbufs ▸ List.mem_cons_of_mem ck ha)
    · rcases lies_put.mp ha with rfl | ha
      · exact ⟨ck, List.mem_cons_self, rfl⟩
      · obtain ⟨d, hd, hkey⟩ := h.out a ha
        exact ⟨d, List.mem_cons_of_mem ck hd, hkey⟩

theorem inv_setCon (h : w.Inv) (con : ConId) (c : BufferConnection) : (w.setCon con c).Inv :=
  ⟨h.stock, h.sorted, h.out⟩

/-- **The native send** finds the chunk of the id that it is given. -/
theorem inv_nativeSend {con : ConId} {ok : Bool} (h : w.Inv)
    (hstep : w.nativeSend con id ok = some w') : w'.Inv := by
  simp only [nativeSend] at hstep
  split at hstep
  · rename_i hcan
    have hid := hcan.1
    obtain ⟨pool, ck, hck, hpool, hstock, hkey, -, hget⟩ := h.known ⟨_, hid⟩
    rw [hget, hkey] at hstep
    cases hstep
    refine ⟨h.stock, ?_, fun a ha => ?_⟩
    · show Sorted (if ok = true then move w.places (.taken con) (.sent con) id
        else take w.places (.taken con) id)
      split
      · exact h.sorted.move hid _
      · exact h.sorted.take hid
    · change Lies (if ok = true then move w.places (.taken con) (.sent con) id
        else take w.places (.taken con) id) a at ha
      split at ha
      · exact h.out a ((h.sorted.lies_move hid).mp ha)
      · exact h.out a ((h.sorted.lies_take hid).mp ha).2
  · cases hstep

/-- Buffers are allocated, and what is out stays what it is. -/
theorem inv_allocs {s : EqServicePool} {pool pool' : MemPool} {n : ℕ}
    {answers : List (Addr × Addr)} (h : w.Inv) (hstock : w.toEqServicePool.Stock pool n)
    (hn : n + answers.length ≤ 2 ^ 32) (hmem : FreshMemory pool answers)
    (hallocs : w.toEqServicePool.allocs pool answers = some (pool', s)) :
    Inv { w with
      toEqServicePool := { s with bufferPool := some pool' }
      allocated := n + answers.length } := by
  obtain ⟨hstock', hout, hkept⟩ := EqServicePool.stock_allocs hstock hn hmem hallocs
  refine ⟨Or.inl ⟨pool', rfl, hstock'.remember _⟩, h.sorted, fun id hid => ?_⟩
  obtain ⟨ck, hck, hkey⟩ := h.out id hid
  refine ⟨ck, hout ▸ hck, ?_⟩
  show (s.mem ck).key = id
  rw [hkept ck hck, hkey]

/-- **Every step that meets the guard keeps the invariant.** -/
theorem inv_step {op : BufferOp} (h : w.Inv) (hguard : w.Guard op) (hstep : w.step op = some w') :
    w'.Inv := by
  cases op with
  | initBufferPool bufferSize nextBufferNum answers =>
    simp only [step] at hstep
    split at hstep
    · rename_i hcan
      obtain ⟨s, hs, rfl⟩ := Option.map_eq_some_iff.mp hstep
      obtain ⟨⟨pool', s'⟩, hallocs, rfl⟩ := Option.map_eq_some_iff.mp hs
      rcases h.stock with ⟨pool, hpool, -⟩ | ⟨-, hbufs, hout, hmap⟩
      · rw [hpool] at hcan
        exact absurd hcan.1 (by simp)
      · have hnew := EqServicePool.stock_newPool hbufs hout hmap bufferSize nextBufferNum
        have hinv := inv_allocs h hnew (by rw [Nat.zero_add]; exact hguard)
          ⟨hcan.2, fun a _ e he => absurd he (by simp [EqServicePool.newPool])⟩ hallocs
        rwa [Nat.zero_add] at hinv
    · cases hstep
  | reallocBufferPool answers =>
    obtain ⟨pool, hpool, hstep⟩ := Option.bind_eq_some_iff.mp hstep
    split at hstep
    · rename_i hmem
      obtain ⟨s, hs, rfl⟩ := Option.map_eq_some_iff.mp hstep
      rcases h.stock with ⟨pool', hpool', hstock⟩ | ⟨hnone, -⟩
      · obtain rfl : pool = pool' := Option.some.inj (hpool.symm.trans hpool')
        simp only [EqServicePool.reallocBufferPool, hpool] at hs
        split at hs
        · obtain ⟨⟨pool', s'⟩, hallocs, rfl⟩ := Option.map_eq_some_iff.mp hs
          exact inv_allocs h hstock hguard hmem hallocs
        · cases hs
      · exact absurd (hnone.symm.trans hpool) (by simp)
    · cases hstep
  | construct con buffer_num =>
    simp only [step] at hstep
    split at hstep
    · cases hstep
      exact inv_setCon h con _
    · cases hstep
  | init_recv con =>
    obtain ⟨c, -, hstep⟩ := Option.bind_eq_some_iff.mp hstep
    split at hstep
    · obtain ⟨w₁, hget, rfl⟩ := Option.map_eq_some_iff.mp hstep
      exact inv_setCon (inv_getFor h hget) con _
    · cases hstep
  | init_send con =>
    obtain ⟨c, -, hstep⟩ := Option.bind_eq_some_iff.mp hstep
    split at hstep
    · obtain ⟨w₁, hget, rfl⟩ := Option.map_eq_some_iff.mp hstep
      exact inv_setCon (inv_getFor h hget) con _
    · cases hstep
  | establishConnection con =>
    obtain ⟨c, -, hstep⟩ := Option.bind_eq_some_iff.mp hstep
    split at hstep
    · cases hstep
      exact inv_setCon h con _
    · cases hstep
  | pushSendBuffer con bufferId =>
    obtain ⟨c, -, hstep⟩ := Option.bind_eq_some_iff.mp hstep
    split at hstep
    · exact inv_pass h hstep
    · cases hstep
  | takeSendBuffer con bufferId => exact inv_pass h hstep
  | send con bufferId ok => exact inv_nativeSend h hstep
  | sendEvent con bufferId => exact inv_pass h hstep
  | recvEvent con bufferId => exact inv_pass h hstep
  | activate_recv_chunk con bufferId ok =>
    simp only [step] at hstep
    split at hstep
    · exact inv_pass h hstep
    · exact inv_drop h hstep
  | error p bufferId =>
    simp only [step] at hstep
    split at hstep
    · exact inv_drop h hstep
    · exact inv_drop h hstep
    · cases hstep

end

/-! ## Runs -/

/-- **Buffers stay apart.**  In every run of a service with one pool and any number of
reallocations and of connections, none of them destroyed, in which at most 2³² buffers are
allocated, no id is posted as a receive while it is in a `sendBufferList` or in flight as a
send, none is with two connections, and `put` writes no memory that is posted. -/
theorem buffers_apart (mem : Mem) (ops : List BufferOp)
    (hguard : Meets step Guard (init mem) ops) : Always step Apart (init mem) ops := by
  have keep : ∀ w op w', Inv w → w.Guard op → step w op = some w' → Inv w' :=
    fun _ _ _ h hg hstep => inv_step h hg hstep
  exact (always_of_meets keep (inv_init mem) hguard).mono fun _ h => h.apart

/-- Two connections; the first sends twice, and the second send is not accepted. -/
def sentTwice : List BufferOp :=
  [.initBufferPool 64 2 [(64, 1), (128, 2)], .construct 1 1, .init_recv 1, .init_send 1,
    .reallocBufferPool [(192, 3), (256, 4)], .construct 2 1, .init_recv 2, .init_send 2,
    .establishConnection 1, .pushSendBuffer 1 0, .takeSendBuffer 1 0, .send 1 0 true,
    .recvEvent 1 1, .activate_recv_chunk 1 1 true, .sendEvent 1 0, .takeSendBuffer 1 0,
    .send 1 0 false, .establishConnection 2, .pushSendBuffer 2 2]

theorem buffers_apart_sentTwice : Always step Apart (init fun _ => {}) sentTwice :=
  buffers_apart _ sentTwice (by decide +kernel)

/-! ## When the ids wrap -/

/-- The memory and the chunk of buffer number `j`. -/
def answer (j : ℕ) : Addr × Addr := ((j + 1) * 64, j + 1)

/-- `k` reallocations of two buffers, from number `j` on. -/
def reallocs : ℕ → ℕ → List BufferOp
  | _, 0 => []
  | j, k + 1 => .reallocBufferPool [answer j, answer (j + 1)] :: reallocs (j + 2) k

/-- A connection takes the first two buffers. -/
def firstTwo : List BufferOp :=
  [.initBufferPool 64 2 [answer 0, answer 1], .construct 1 1, .init_recv 1, .init_send 1]

/-- After `k` reallocations there are two more buffers, and another connection takes a chunk. -/
def wrapped (k : ℕ) : List BufferOp :=
  firstTwo ++ (reallocs 2 k ++
    [.reallocBufferPool [answer (2 + 2 * k), answer (2 + 2 * k + 1)], .construct 2 1,
      .init_recv 2])

/-- The pool has allocated `j` buffers, which lie below those that come next. -/
structure Aged (s : EqServicePool) (pool : MemPool) (j : ℕ) : Prop where
  seqId : pool.seqId = toInt32 j
  bufs : ∀ ck ∈ s.chkMgr.bufs, ck ≤ j
  out : ∀ ck ∈ s.out, ck ≤ j
  memory : ∀ id b, pool.getBuffer id = some b → b.memory ≤ j * 64

section

variable {s : EqServicePool} {pool : MemPool} {j : ℕ}

theorem Aged.freshChunk (h : Aged s pool j) : s.FreshChunk (answer j).2 := by
  refine ⟨Nat.succ_ne_zero j, fun hck => ?_, fun hck => ?_⟩
  · exact absurd (h.bufs _ hck) (Nat.not_succ_le_self j)
  · exact absurd (h.out _ hck) (Nat.not_succ_le_self j)

theorem Aged.alloc (h : Aged s pool j) :
    Aged (s.alloc pool (answer j).1 (answer j).2).2 (s.alloc pool (answer j).1 (answer j).2).1
      (j + 1) := by
  refine ⟨?_, fun ck hck => ?_, fun ck hck => (h.out ck hck).trans (Nat.le_succ j),
    fun id b hb => ?_⟩
  · show toInt32 (pool.seqId + 1) = _
    rw [h.seqId, toInt32_toInt32_add]
    push_cast
    rfl
  · rcases List.mem_cons.mp hck with rfl | hck
    · exact le_rfl
    · exact (h.bufs ck hck).trans (Nat.le_succ j)
  · change (pool.bufferMap.assign pool.seqId ⟨pool.seqId, (answer j).1⟩).find? id = some b at hb
    by_cases hid : id = pool.seqId
    · rw [hid, StdMap.find?_assign_self] at hb
      cases hb
      exact le_rfl
    · rw [StdMap.find?_assign_of_ne _ _ (Ne.symm hid)] at hb
      exact (h.memory id b hb).trans (Nat.mul_le_mul_right 64 (Nat.le_succ j))

theorem key_alloc (s : EqServicePool) (pool : MemPool) (byteBuffer ck : Addr) :
    ((s.alloc pool byteBuffer ck).2.mem ck).key = toInt32 pool.seqId := by
  simp only [EqServicePool.alloc, EqServicePool.set_buffer, Function.update_self, Chunk.key,
    toInt32_toUInt64]

theorem Aged.freshMemory (h : Aged s pool j) : FreshMemory pool [answer j, answer (j + 1)] := by
  refine ⟨by simp [answer], fun a ha e he => ?_⟩
  have hle : e.2.memory ≤ j * 64 := h.memory e.1 e.2 (StdMap.mem_entries.mp he)
  have hlt : j * 64 < a.1 := by
    rcases List.mem_cons.mp ha with rfl | ha
    · show j * 64 < (j + 1) * 64
      omega
    · rw [List.mem_singleton.mp ha]
      show j * 64 < (j + 1 + 1) * 64
      omega
  exact (lt_of_le_of_lt hle hlt).ne

end

/-- **A reallocation** of two buffers. -/
theorem aged_realloc {w : BufferWorld} {pool : MemPool} {j : ℕ} (hpool : w.bufferPool = some pool)
    (hnext : pool.nextBufferNum = 2) (h : Aged w.toEqServicePool pool j) :
    ∃ w' pool', w.step (.reallocBufferPool [answer j, answer (j + 1)]) = some w' ∧
      w'.bufferPool = some pool' ∧ pool'.nextBufferNum = 2 ∧
      Aged w'.toEqServicePool pool' (j + 2) ∧ w'.cons = w.cons ∧ w'.places = w.places ∧
      w'.chkMgr.bufs.head? = some (j + 2) ∧ (w'.mem (j + 2)).key = toInt32 (j + 1 : ℕ) := by
  have hstep : w.step (.reallocBufferPool [answer j, answer (j + 1)]) =
      (w.toEqServicePool.reallocBufferPool [answer j, answer (j + 1)]).map fun s =>
        { w with toEqServicePool := s, allocated := w.allocated + 2 } := by
    simp only [step, hpool, Option.bind_some, if_pos h.freshMemory]
    rfl
  let first := w.toEqServicePool.alloc pool (answer j).1 (answer j).2
  let second := first.2.alloc first.1 (answer (j + 1)).1 (answer (j + 1)).2
  have hfirst : Aged first.2 first.1 (j + 1) := h.alloc
  have hsecond : Aged second.2 second.1 (j + 2) := hfirst.alloc
  have hallocs : w.toEqServicePool.reallocBufferPool [answer j, answer (j + 1)] =
      some { second.2 with bufferPool := some second.1 } := by
    simp only [EqServicePool.reallocBufferPool, hpool, hnext]
    rw [if_pos (by rfl), EqServicePool.allocs, if_pos h.freshChunk]
    show ((first.2.allocs first.1 [answer (j + 1)]).map _) = _
    rw [EqServicePool.allocs, if_pos hfirst.freshChunk]
    rfl
  refine ⟨{ w with
      toEqServicePool := { second.2 with bufferPool := some second.1 }
      allocated := w.allocated + 2 }, second.1, ?_, rfl, hnext, ?_, rfl, rfl, rfl, ?_⟩
  · rw [hstep, hallocs, Option.map_some]
  · exact ⟨hsecond.seqId, hsecond.bufs, hsecond.out, hsecond.memory⟩
  · show ((first.2.alloc first.1 (answer (j + 1)).1 (j + 2)).2.mem (j + 2)).key = _
    rw [key_alloc, hfirst.seqId, toInt32_toInt32]

/-- **Any number of reallocations.** -/
theorem aged_reallocs : ∀ {k j : ℕ} {w : BufferWorld} {pool : MemPool},
    w.bufferPool = some pool → pool.nextBufferNum = 2 → Aged w.toEqServicePool pool j →
      ∃ w' pool', run step w (reallocs j k) = some w' ∧ w'.bufferPool = some pool' ∧
        pool'.nextBufferNum = 2 ∧ Aged w'.toEqServicePool pool' (j + 2 * k) ∧
        w'.cons = w.cons ∧ w'.places = w.places := by
  intro k
  induction k with
  | zero =>
    intro j w pool hpool hnext h
    exact ⟨w, pool, rfl, hpool, hnext, h, rfl, rfl⟩
  | succ k ih =>
    intro j w pool hpool hnext h
    obtain ⟨w₁, pool₁, hstep, hpool₁, hnext₁, h₁, hcons₁, hplaces₁, -⟩ := aged_realloc hpool hnext h
    obtain ⟨w₂, pool₂, hrun, hpool₂, hnext₂, h₂, hcons₂, hplaces₂⟩ := ih hpool₁ hnext₁ h₁
    refine ⟨w₂, pool₂, ?_, hpool₂, hnext₂, ?_, hcons₂.trans hcons₁, hplaces₂.trans hplaces₁⟩
    · rw [reallocs]
      exact run_step hstep hrun
    · rwa [show j + 2 * (k + 1) = j + 2 + 2 * k by ring]

/-- The first two buffers are out, and the id 1 is posted on the first connection. -/
theorem aged_firstTwo : ∃ w pool, run step (init fun _ => {}) firstTwo = some w ∧
    w.bufferPool = some pool ∧ pool.nextBufferNum = 2 ∧ Aged w.toEqServicePool pool 2 ∧
      w.places (.receive 1) = [1] ∧ w.cons 2 = none := by
  have hstart : (run step (init fun _ => {}) firstTwo).map (fun w =>
      w.bufferPool.map fun pool => (pool.nextBufferNum, pool.seqId, pool.bufferMap.entries)) =
        some (some (2, 2, [(0, ⟨0, 64⟩), (1, ⟨1, 128⟩)])) := by
    decide +kernel
  have hrest : (run step (init fun _ => {}) firstTwo).map (fun w =>
      (w.chkMgr.bufs, w.out, w.places (.receive 1), (w.cons 2).isNone)) =
        some ([], [1, 2], [1], true) := by
    decide +kernel
  obtain ⟨w, hw, hpool⟩ := Option.map_eq_some_iff.mp hstart
  rw [hw, Option.map_some, Option.some.injEq] at hrest
  simp only [Prod.mk.injEq] at hrest
  obtain ⟨hbufs, hout, hreceive, hcon⟩ := hrest
  obtain ⟨pool, hpool, hfields⟩ := Option.map_eq_some_iff.mp hpool
  simp only [Prod.mk.injEq] at hfields
  obtain ⟨hnext, hseqId, hentries⟩ := hfields
  refine ⟨w, pool, hw, hpool, hnext, ⟨?_, fun ck hck => ?_, fun ck hck => ?_, fun id b hb => ?_⟩,
    hreceive, Option.isNone_iff_eq_none.mp hcon⟩
  · rw [hseqId]
    exact (toInt32_eq_self (by norm_num) (by norm_num)).symm
  · rw [hbufs] at hck
    exact absurd hck List.not_mem_nil
  · rw [hout] at hck
    revert ck
    decide
  · have hmem := StdMap.mem_entries.mpr hb
    rw [hentries] at hmem
    rcases List.mem_cons.mp hmem with heq | hmem
    · cases heq
      decide
    · cases List.mem_singleton.mp hmem
      decide

/-- A new connection posts its first receive under the id of the first free chunk. -/
theorem run_newReceive {w : BufferWorld} {con : ConId} {ck : Addr} {bufs : List Addr}
    (hbufs : w.chkMgr.bufs = ck :: bufs) (hnone : w.cons con = none) :
    ∃ w', run step w [.construct con 1, .init_recv con] = some w' ∧
      w'.places = put w.places (.receive con) (w.mem ck).key := by
  let w₁ := w.setCon con { phase := InitPhase.loop 1 }
  have hconstruct : w.step (.construct con 1) = some w₁ := by
    rw [step, if_pos (Option.isNone_iff_eq_none.mpr hnone)]
  have hcon : w₁.cons con = some { phase := .recv 0 } := Function.update_self ..
  obtain ⟨w₂, hget, hplaces⟩ : ∃ w₂, w₁.getFor (.receive con) = some w₂ ∧
      w₂.places = put w.places (.receive con) (w.mem ck).key := by
    have hbufs₁ : w₁.chkMgr.bufs = ck :: bufs := hbufs
    rw [getFor, hbufs₁]
    simp only [EqServicePool.step, ExternalChunkMgr.get, hbufs₁, Option.map_some]
    exact ⟨_, rfl, rfl⟩
  refine ⟨w₂.setCon con { phase := .send 0 }, ?_, hplaces⟩
  refine run_step hconstruct (run_one ?_)
  simp only [step, hcon, Option.bind_some, hget, Option.map_some]

/-- The new connection posts a receive under an id that the old one has posted. -/
theorem not_apart_of_wrapped {k : ℕ} (hk : toInt32 (2 + 2 * k + 1 : ℕ) = 1) :
    ¬ Always step Apart (init fun _ => {}) (wrapped k) := by
  intro h
  obtain ⟨w, pool, hw, hpool, hnext, haged, hreceive, hcon⟩ := aged_firstTwo
  obtain ⟨w₁, pool₁, hrun₁, hpool₁, hnext₁, haged₁, hcons₁, hplaces₁⟩ :=
    aged_reallocs (k := k) hpool hnext haged
  obtain ⟨w₂, pool₂, hstep₂, -, -, -, hcons₂, hplaces₂, hhead, hkey⟩ :=
    aged_realloc hpool₁ hnext₁ haged₁
  obtain ⟨bufs, hbufs₂⟩ := List.head?_eq_some_iff.mp hhead
  have hnone : w₂.cons 2 = none := by rw [hcons₂, hcons₁, hcon]
  obtain ⟨w₃, hrun₃, hplaces₃⟩ := run_newReceive hbufs₂ hnone
  rw [hkey, hk] at hplaces₃
  have hrun : run step (init fun _ => {}) (wrapped k) = some w₃ :=
    run_trans hw (run_trans hrun₁ (run_step hstep₂ hrun₃))
  have hapart := h.last hrun
  have hold : (1 : ℤ) ∈ w₃.places (.receive 1) := by
    rw [hplaces₃, put_of_ne (by decide), hplaces₂, hplaces₁, hreceive]
    exact List.mem_singleton_self 1
  have hnew : (1 : ℤ) ∈ w₃.places (.receive 2) := by
    rw [hplaces₃, mem_put]
    exact Or.inl ⟨rfl, rfl⟩
  exact absurd (hapart.connections 1 2 1 (Or.inl hold) (Or.inl hnew)) (by decide)

/-- **The ids wrap.**  After 2³² buffers the ids come again: a new connection posts a receive
under an id that is posted on another. -/
theorem ids_wrap : ¬ Always step Apart (init fun _ => {}) (wrapped (2 ^ 31 - 1)) :=
  not_apart_of_wrapped (by simp only [toInt32]; norm_num)

end BufferWorld

end Hpnl
