import Hpnl.Connection.Destructor
import Hpnl.Lib.Places

/-!
# Chunks that are posted, while a connection is destroyed

`~MsgConnection` and `~RdmConnection` first give the chunks in `used_chunks` (and
`send_chunks`, for an external service) back to the chunk manager, one `reclaim` after the
other, and close the endpoint afterwards.  Other connections take chunks from the same
manager in the meantime.

* `EndpointWorld` — the connections of a manager, the chunks posted on their endpoints, and
  where each destructor is; the destructor takes one step for each `reclaim`.
* `Guard` — a chunk is taken only when no destructor has given back a chunk that is still
  posted on its endpoint, and a destructor gives back only what its connection holds.
* `Inv`, `inv_step` — a posted chunk is held by the connection on whose endpoint it is, or has
  been given back by its destructor.
* `posted_once` — **no chunk that is posted on an open endpoint is handed out or posted on a
  second one**, in every run that meets the guard.
-/

namespace Hpnl

open Transition Places

/-! ## Destructors step by step -/

/-- Where a destructor is. -/
inductive DestructorPhase where
  /-- In the loop over `used_chunks`; the entries from the current one on. -/
  | used (rest : List (ℤ × Addr))
  /-- In the loop over `send_chunks`. -/
  | send (rest : List Addr)
  /-- Before `shutdown()`, which only `~MsgConnection` calls. -/
  | shutdown
  /-- Before `fi_close(&ep->fid)`. -/
  | close
  /-- The first loop is to move on from an entry that has been erased. -/
  | undefined
  deriving DecidableEq, Repr

/-- Connections, the chunks posted as receives on their endpoints, and their destructors.
`given` is a ghost, the chunks that a running destructor has given back, and `ids` lists the
connections there have been. -/
structure EndpointWorld extends ConnectionWorld where
  posted : ConId → List Addr
  closing : ConId → Option DestructorPhase
  given : ConId → List Addr
  ids : List ConId

/-- A step of a connection.  `init`, `activate_recv_chunk`, the callbacks and the application
make the first calls in any order. -/
inductive EndpointOp where
  /-- The external manager is given a new chunk. -/
  | set_buffer (ck : Addr) (buffer : Chunk)
  /-- The constructor, and the endpoint opened. -/
  | construct (con : ConId) (kind : ConnectionKind) (external_service : Bool)
  /-- `chunk_mgr->get(this)`. -/
  | get (con : ConId) (r : GetReply)
  /-- `fi_recv(ep, ck->buffer, ..., ck)`, of a chunk that the connection holds. -/
  | fi_recv (con : ConId) (ck : Addr)
  /-- `send_chunks.push_back(ck)`. -/
  | push_back (con : ConId) (ck : Addr)
  /-- A posted receive completes. -/
  | complete (con : ConId) (ck : Addr)
  /-- `reclaim(ck, con)` of a chunk that the connection holds and has not posted. -/
  | reclaim (con : ConId) (ck : Addr) (link : ℕ)
  /-- The destructor begins. -/
  | destroy (con : ConId)
  /-- The next step of the destructor. -/
  | advance (con : ConId) (link : ℕ)
  deriving DecidableEq, Repr

namespace EndpointWorld

/-- A manager without chunks, and no connections. -/
def init (mem : Mem) (chunk_mgr : ChunkMgr) : EndpointWorld :=
  { ConnectionWorld.init mem chunk_mgr with
    posted := fun _ => []
    closing := fun _ => none
    given := fun _ => []
    ids := [] }

/-- The connection, unless its destructor has begun. -/
def conAt (w : EndpointWorld) (con : ConId) : Option Connection :=
  if w.closing con = none then w.cons con else none

/-- The destructor goes on. -/
def goto (w : EndpointWorld) (con : ConId) (p : DestructorPhase) : EndpointWorld :=
  { w with closing := Function.update w.closing con (some p) }

/-- The destructor gives `ck` back. -/
def giveBack (w : EndpointWorld) (con : ConId) (c : Connection) (ck : Addr) (link : ℕ) :
    EndpointWorld :=
  { w with
    toConnectionWorld :=
      (w.toConnectionWorld.reclaim c ck link).1.setCon con
        (w.toConnectionWorld.reclaim c ck link).2
    given := Function.update w.given con (ck :: w.given con) }

/-- The endpoint is closed, and the connection is gone. -/
def close (w : EndpointWorld) (con : ConId) : EndpointWorld :=
  { w with
    cons := Function.update w.cons con none
    posted := Function.update w.posted con []
    closing := Function.update w.closing con none
    given := Function.update w.given con [] }

/-- One step of `~MsgConnection` or `~RdmConnection`.  The loop over `used_chunks` does not
meet the entries that have been erased, and cannot move on from one that it erases. -/
def advance (w : EndpointWorld) (con : ConId) (c : Connection) (link : ℕ) :
    DestructorPhase → Option EndpointWorld
  | .used [] => some (w.goto con (.send (ConnectionWorld.sendChunks c)))
  | .used ((k, ck) :: rest) =>
      if c.used_chunks.has k then
        let w' := w.giveBack con c ck link
        if (w.toConnectionWorld.reclaim c ck link).2.used_chunks.has k then
          some (w'.goto con (.used rest))
        else some (w'.goto con .undefined)
      else some (w.goto con (.used rest))
  | .send [] => some (w.goto con (if c.kind = .msg then .shutdown else .close))
  | .send (ck :: rest) => some ((w.giveBack con c ck link).goto con (.send rest))
  | .shutdown => some (w.goto con .close)
  | .close => some (w.close con)
  | .undefined => none

/-- One step. -/
def step (w : EndpointWorld) : EndpointOp → Option EndpointWorld
  | .set_buffer ck buffer =>
      if ck ∉ w.chunk_mgr.free ∧ w.holder ck = none then
        (w.chunk_mgr.set_buffer (Function.update w.mem ck buffer) ck).map fun mgr =>
          { w with mem := Function.update w.mem ck buffer, chunk_mgr := mgr }
      else none
  | .construct con kind external_service =>
      if con ≠ nullptr ∧ (w.cons con).isNone then
        some { w with
          toConnectionWorld :=
            w.toConnectionWorld.setCon con { kind, external_service, phase := .ready }
          ids := con :: w.ids }
      else none
  | .get con r =>
      (w.conAt con).bind fun c =>
        (w.toConnectionWorld.get con c r).map fun (s, c', _) =>
          { w with toConnectionWorld := s.setCon con c' }
  | .fi_recv con ck =>
      if (w.conAt con).isSome ∧ w.holder ck = some con ∧ ck ∉ w.posted con then
        some { w with posted := Function.update w.posted con (ck :: w.posted con) }
      else none
  | .push_back con ck =>
      (w.conAt con).bind fun c =>
        if w.holder ck = some con then
          some { w with
            toConnectionWorld :=
              w.toConnectionWorld.setCon con { c with send_chunks := c.send_chunks ++ [ck] } }
        else none
  | .complete con ck =>
      if ck ∈ w.posted con then
        some { w with posted := Function.update w.posted con ((w.posted con).erase ck) }
      else none
  | .reclaim con ck link =>
      (w.conAt con).bind fun c =>
        if w.holder ck = some con ∧ ck ∉ w.posted con then
          some { w with
            toConnectionWorld :=
              (w.toConnectionWorld.reclaim c ck link).1.setCon con
                (w.toConnectionWorld.reclaim c ck link).2 }
        else none
  | .destroy con =>
      (w.conAt con).map fun c => w.goto con (.used c.used_chunks.entries)
  | .advance con link =>
      (w.cons con).bind fun c => (w.closing con).bind fun p => w.advance con c link p

/-! ## What must not happen, and when it does not -/

/-- A chunk is handed out only when it is posted nowhere, and posted only when it is posted on
no other endpoint. -/
def Safe (w : EndpointWorld) : EndpointOp → Prop
  | .get con r => ∀ c s c' ck, w.conAt con = some c →
      w.toConnectionWorld.get con c r = some (s, c', ck) → ck ≠ nullptr →
        ∀ other, ck ∉ w.posted other
  | .fi_recv con ck => ∀ other, other ≠ con → ck ∉ w.posted other
  | _ => True

/-- The chunk that the destructor gives back next. -/
def next (w : EndpointWorld) (con : ConId) : Option Addr :=
  match w.cons con, w.closing con with
  | some c, some (.used ((k, ck) :: _)) => if c.used_chunks.has k then some ck else none
  | some _, some (.send (ck :: _)) => some ck
  | _, _ => none

/-- **The condition.**  When a connection takes a chunk, no destructor has given back a chunk
that is still posted on its endpoint; and a destructor gives back only chunks that its
connection holds. -/
def Guard (w : EndpointWorld) : EndpointOp → Prop
  | .get _ _ => ∀ other ∈ w.ids, ∀ ck ∈ w.given other, ck ∉ w.posted other
  | .advance con _ => ∀ ck ∈ w.next con, w.holder ck = some con
  | _ => True

instance (w : EndpointWorld) : DecidablePred w.Guard
  | .get .. => by unfold Guard; infer_instance
  | .advance .. => by unfold Guard; infer_instance
  | .set_buffer .. => isTrue trivial
  | .construct .. => isTrue trivial
  | .fi_recv .. => isTrue trivial
  | .push_back .. => isTrue trivial
  | .complete .. => isTrue trivial
  | .reclaim .. => isTrue trivial
  | .destroy _ => isTrue trivial

/-! ## The invariant -/

/-- The manager's free list is in order, and a posted chunk is held by its connection, or has
been given back by the connection's destructor and taken by nobody since. -/
structure Inv (w : EndpointWorld) : Prop where
  wf : w.chunk_mgr.Wf w.holder
  held : ∀ con ck, ck ∈ w.posted con →
    w.holder ck = some con ∨ w.holder ck = none ∧ ck ∈ w.given con
  known : ∀ con ck, ck ∈ w.given con → con ∈ w.ids
  named : ∀ con c, w.cons con = some c → con ∈ w.ids

section

variable {w w' : EndpointWorld} {op : EndpointOp} {con : ConId} {ck : Addr} {c : Connection}

theorem cons_get {s : ConnectionWorld} {c' : Connection} {r : GetReply}
    (hget : w.toConnectionWorld.get con c r = some (s, c', ck)) : s.cons = w.cons := by
  rw [ConnectionWorld.get] at hget
  split at hget
  · obtain ⟨⟨mgr, mem, impl, a⟩, -, heq⟩ := Option.map_eq_some_iff.mp hget
    cases heq
    rfl
  · cases hget

/-- What a connection takes from the manager was out to nobody. -/
theorem get_cases {s : ConnectionWorld} {c' : Connection} {r : GetReply} (h : w.Inv)
    (hget : w.toConnectionWorld.get con c r = some (s, c', ck)) :
    s.chunk_mgr.Wf s.holder ∧
      s.holder = (if ck = nullptr then w.holder else Function.update w.holder ck (some con)) ∧
      (ck ≠ nullptr → w.holder ck = none) := by
  rw [ConnectionWorld.get] at hget
  split at hget
  · rename_i hans
    obtain ⟨⟨mgr, mem, impl, a⟩, hmgr, heq⟩ := Option.map_eq_some_iff.mp hget
    cases heq
    exact ⟨ChunkMgr.wf_get h.wf hans hmgr con, rfl, ChunkMgr.holder_get h.wf hans hmgr⟩
  · cases hget

/-- A chunk that a connection holds is posted on no other endpoint. -/
theorem Inv.not_posted (h : w.Inv) (hck : w.holder ck = some con) {other : ConId}
    (hother : other ≠ con) : ck ∉ w.posted other := by
  intro hposted
  rcases h.held other ck hposted with hheld | ⟨hnone, -⟩
  · exact hother (Option.some.inj (hheld.symm.trans hck))
  · exact absurd (hnone.symm.trans hck) (by simp)

/-- A chunk that is out to nobody is posted nowhere, unless a destructor has given it back. -/
theorem Inv.not_posted_free (h : w.Inv) (hck : w.holder ck = none)
    (hgiven : ∀ other ∈ w.ids, ∀ a ∈ w.given other, a ∉ w.posted other) (other : ConId) :
    ck ∉ w.posted other := by
  intro hposted
  rcases h.held other ck hposted with hheld | ⟨-, hmem⟩
  · exact absurd (hck.symm.trans hheld) (by simp)
  · exact hgiven other (h.known other ck hmem) ck hmem hposted

/-- **A step that meets the guard is safe.** -/
theorem safe_of_guard (h : w.Inv) (hguard : w.Guard op) (hstep : w.step op = some w') :
    w.Safe op := by
  cases op with
  | get con r =>
    intro c s c' ck _ hget hck
    exact h.not_posted_free ((get_cases h hget).2.2 hck) hguard
  | fi_recv con ck =>
    intro other hother
    simp only [step] at hstep
    split at hstep
    · rename_i hck
      exact h.not_posted hck.2.1 hother
    · cases hstep
  | _ => trivial

theorem inv_init {mem : Mem} {mgr : ChunkMgr} (h : mgr.Wf fun _ => none) :
    (init mem mgr).Inv where
  wf := h
  held := fun con ck hck => absurd hck List.not_mem_nil
  known := fun con ck hck => absurd hck List.not_mem_nil
  named := fun con c hc => absurd hc (by simp [init, ConnectionWorld.init])

theorem named_setCon (h : w.Inv) {s : ConnectionWorld} (hcons : s.cons = w.cons)
    (hc : w.cons con ≠ none) (c' : Connection) (other : ConId) (d : Connection)
    (hd : (s.setCon con c').cons other = some d) : other ∈ w.ids := by
  rcases of_update hd with ⟨rfl, -⟩ | ⟨-, hd⟩
  · obtain ⟨c, hsome⟩ := Option.ne_none_iff_exists'.mp hc
    exact h.named other c hsome
  · exact h.named other d (hcons ▸ hd)

theorem cons_ne_none (hc : w.conAt con = some c) : w.cons con ≠ none := by
  rw [conAt] at hc
  split at hc
  · exact hc ▸ Option.some_ne_none c
  · cases hc

theorem inv_get {s : ConnectionWorld} {c' : Connection} {r : GetReply} (h : w.Inv)
    (hc : w.cons con ≠ none)
    (hgiven : ∀ other ∈ w.ids, ∀ a ∈ w.given other, a ∉ w.posted other)
    (hget : w.toConnectionWorld.get con c r = some (s, c', ck)) :
    Inv { w with toConnectionWorld := s.setCon con c' } := by
  obtain ⟨hwf, hholder, hnone⟩ := get_cases h hget
  refine ⟨hwf, fun other a ha => ?_, h.known, named_setCon h (cons_get hget) hc c'⟩
  show s.holder a = some other ∨ s.holder a = none ∧ a ∈ w.given other
  rw [hholder]
  split
  · exact h.held other a ha
  · rename_i hck
    have hac : a ≠ ck := by
      rintro rfl
      exact h.not_posted_free (hnone hck) hgiven other ha
    rw [Function.update_of_ne hac]
    exact h.held other a ha

/-- A chunk that its connection holds goes back to the manager. -/
theorem inv_reclaim (h : w.Inv) (hc : w.cons con ≠ none) (hck : w.holder ck = some con) {link : ℕ}
    {given : ConId → List Addr} (hgiven : ∀ other a, a ∈ w.given other → a ∈ given other)
    (hback : ck ∈ w.posted con → ck ∈ given con)
    (hknown : ∀ other a, a ∈ given other → other ∈ w.ids) :
    Inv { w with
      toConnectionWorld := (w.toConnectionWorld.reclaim c ck link).1.setCon con
        (w.toConnectionWorld.reclaim c ck link).2
      given := given } := by
  have hout : w.holder ck ≠ none := hck ▸ Option.some_ne_none con
  refine ⟨ChunkMgr.wf_reclaim h.wf w.mem c.toConnectionImpl link hout, fun other a ha => ?_,
    hknown, named_setCon h rfl hc _⟩
  show Function.update w.holder ck none a = some other ∨
    Function.update w.holder ck none a = none ∧ a ∈ given other
  by_cases hac : a = ck
  · rw [hac, Function.update_self]
    have hoc : other = con := by
      by_contra hne
      exact h.not_posted (hac ▸ hck) hne ha
    exact Or.inr ⟨rfl, hoc ▸ hback (hac ▸ hoc ▸ ha)⟩
  · rw [Function.update_of_ne hac]
    exact (h.held other a ha).imp_right fun ⟨hnone, hmem⟩ => ⟨hnone, hgiven other a hmem⟩

theorem inv_giveBack (h : w.Inv) (hc : w.cons con = some c) (hck : w.holder ck = some con)
    {link : ℕ} : (w.giveBack con c ck link).Inv := by
  have hid : con ∈ w.ids := h.named con c hc
  have hcon : w.cons con ≠ none := hc ▸ Option.some_ne_none c
  refine inv_reclaim h hcon hck (fun other a ha => ?_) (fun _ => ?_) fun other a ha => ?_
  · exact mem_put.mpr (Or.inr ha)
  · exact mem_put.mpr (Or.inl ⟨rfl, rfl⟩)
  · rcases mem_put.mp ha with ⟨rfl, -⟩ | ha
    · exact hid
    · exact h.known other a ha

theorem inv_goto (h : w.Inv) (con : ConId) (p : DestructorPhase) : (w.goto con p).Inv :=
  ⟨h.wf, h.held, h.known, h.named⟩

/-- **A closed endpoint has no posted chunk.** -/
theorem inv_close (h : w.Inv) (con : ConId) : (w.close con).Inv := by
  refine ⟨h.wf, fun other ck hck => ?_, fun other ck hck => ?_, fun other d hd => ?_⟩
  · change ck ∈ Function.update w.posted con [] other at hck
    show _ ∨ _ ∧ ck ∈ Function.update w.given con [] other
    by_cases ho : other = con
    · rw [ho, Function.update_self] at hck
      exact absurd hck List.not_mem_nil
    · rw [Function.update_of_ne ho] at hck ⊢
      exact h.held other ck hck
  · change ck ∈ Function.update w.given con [] other at hck
    by_cases ho : other = con
    · rw [ho, Function.update_self] at hck
      exact absurd hck List.not_mem_nil
    · rw [Function.update_of_ne ho] at hck
      exact h.known other ck hck
  · rcases of_update hd with ⟨-, hd⟩ | ⟨-, hd⟩
    · cases hd
    · exact h.named other d hd

/-- One step of a destructor. -/
theorem inv_advance (h : w.Inv) {p : DestructorPhase} {link : ℕ} (hc : w.cons con = some c)
    (hp : w.closing con = some p) (hguard : w.Guard (.advance con link))
    (hstep : w.advance con c link p = some w') : w'.Inv := by
  cases p with
  | used rest =>
    cases rest with
    | nil =>
      cases hstep
      exact inv_goto h con _
    | cons e rest =>
      obtain ⟨k, ck⟩ := e
      simp only [advance] at hstep
      split at hstep
      · rename_i hhas
        have hnext : w.next con = some ck := by simp only [next, hc, hp, if_pos hhas]
        have hback : (w.giveBack con c ck link).Inv := inv_giveBack h hc (hguard ck hnext)
        split at hstep <;> cases hstep <;> exact inv_goto hback con _
      · cases hstep
        exact inv_goto h con _
  | send rest =>
    cases rest with
    | nil =>
      cases hstep
      exact inv_goto h con _
    | cons ck rest =>
      have hnext : w.next con = some ck := by simp only [next, hc, hp]
      cases hstep
      exact inv_goto (inv_giveBack h hc (hguard ck hnext)) con _
  | shutdown =>
    cases hstep
    exact inv_goto h con _
  | close =>
    cases hstep
    exact inv_close h con
  | undefined => cases hstep

/-- **Every step that meets the guard keeps the invariant.** -/
theorem inv_step (h : w.Inv) (hguard : w.Guard op) (hstep : w.step op = some w') : w'.Inv := by
  cases op with
  | set_buffer ck buffer =>
    simp only [step] at hstep
    split at hstep
    · rename_i hck
      obtain ⟨mgr, hmgr, rfl⟩ := Option.map_eq_some_iff.mp hstep
      exact ⟨ChunkMgr.wf_set_buffer h.wf hck.1 hck.2 hmgr, h.held, h.known, h.named⟩
    · cases hstep
  | construct con kind external_service =>
    simp only [step] at hstep
    split at hstep
    · cases hstep
      refine ⟨h.wf, h.held, fun other ck hck => List.mem_cons_of_mem con (h.known other ck hck),
        fun other d hd => ?_⟩
      rcases of_update hd with ⟨rfl, -⟩ | ⟨-, hd⟩
      · exact List.mem_cons_self
      · exact List.mem_cons_of_mem con (h.named other d hd)
    · cases hstep
  | get con r =>
    obtain ⟨c, hc, hstep⟩ := Option.bind_eq_some_iff.mp hstep
    obtain ⟨⟨s, c', ck⟩, hget, rfl⟩ := Option.map_eq_some_iff.mp hstep
    exact inv_get h (cons_ne_none hc) hguard hget
  | fi_recv con ck =>
    simp only [step] at hstep
    split at hstep
    · rename_i hck
      cases hstep
      refine ⟨h.wf, fun other a ha => ?_, h.known, h.named⟩
      rcases mem_put.mp ha with ⟨rfl, rfl⟩ | ha
      · exact Or.inl hck.2.1
      · exact h.held other a ha
    · cases hstep
  | push_back con ck =>
    obtain ⟨c, hc, hstep⟩ := Option.bind_eq_some_iff.mp hstep
    split at hstep
    · cases hstep
      exact ⟨h.wf, h.held, h.known, named_setCon h rfl (cons_ne_none hc) _⟩
    · cases hstep
  | complete con ck =>
    simp only [step] at hstep
    split at hstep
    · cases hstep
      refine ⟨h.wf, fun other a ha => ?_, h.known, h.named⟩
      exact h.held other a (mem_of_mem_take ha)
    · cases hstep
  | reclaim con ck link =>
    obtain ⟨c, hc, hstep⟩ := Option.bind_eq_some_iff.mp hstep
    split at hstep
    · rename_i hck
      cases hstep
      exact inv_reclaim h (cons_ne_none hc) hck.1 (fun _ _ ha => ha)
        (fun ha => absurd ha hck.2) h.known
    · cases hstep
  | destroy con =>
    obtain ⟨c, -, rfl⟩ := Option.map_eq_some_iff.mp hstep
    exact inv_goto h con _
  | advance con link =>
    obtain ⟨c, hc, hstep⟩ := Option.bind_eq_some_iff.mp hstep
    obtain ⟨p, hp, hstep⟩ := Option.bind_eq_some_iff.mp hstep
    exact inv_advance h hc hp hguard hstep

end

/-! ## Runs -/

/-- **A posted chunk is nowhere else.**  From a new manager of either kind, in every run in
which a connection takes a chunk only while no destructor has given back a chunk that is still
posted on its endpoint, and destructors give back only what their connections hold, no chunk
that is posted on an open endpoint is handed out or posted on a second one. -/
theorem posted_once (mem : Mem) {mgr : ChunkMgr} (hnew : ConnectionWorld.New mgr)
    (ops : List EndpointOp) (hguard : Meets step Guard (init mem mgr) ops) :
    Meets step Safe (init mem mgr) ops := by
  have hwf : mgr.Wf fun _ => none := by
    cases hnew with
    | pool domain size n => exact ConnectionWorld.wf_init_pool mem domain size n
    | external => exact ConnectionWorld.wf_init_external
  have keep : ∀ w op w', Inv w → w.Guard op → step w op = some w' → Inv w' :=
    fun _ _ _ h hg hstep => inv_step h hg hstep
  exact meets_of_meets keep (fun _ _ _ h hg hstep => safe_of_guard h hg hstep) (inv_init hwf) ops
    hguard

/-- Two connections on a pool of one chunk, at 4096; the first posts it and is destroyed as
far as the first `reclaim`. -/
def givenBack : List EndpointOp :=
  [.construct 1 .msg false, .construct 2 .msg false,
    .get 1 ⟨⟨4096, none⟩, ⟨nullptr, none⟩, 4096⟩, .fi_recv 1 4096, .destroy 1, .advance 1 0]

/-- The second takes the chunk while it is posted on the first one's endpoint. -/
theorem posted_handed_out :
    ¬ Meets step Safe (init (fun _ => {}) (.pool (ChunkPool.new nullptr 8 1)))
      (givenBack ++ [.get 2 ⟨⟨nullptr, none⟩, ⟨nullptr, none⟩, 4096⟩]) := by
  intro h
  have hrun : (run step (init (fun _ => {}) (.pool (ChunkPool.new nullptr 8 1))) givenBack).map
      (fun w => (w.posted 1, ((w.conAt 2).bind fun c => w.toConnectionWorld.get 2 c
        ⟨⟨nullptr, none⟩, ⟨nullptr, none⟩, 4096⟩).map fun t => t.2.2)) =
          some ([4096], some 4096) := by
    decide +kernel
  obtain ⟨w, hw, hfields⟩ := Option.map_eq_some_iff.mp hrun
  obtain ⟨hposted, hget⟩ := Prod.mk.inj hfields
  obtain ⟨⟨s, c', ck⟩, hget, rfl⟩ := Option.map_eq_some_iff.mp hget
  obtain ⟨c, hc, hget⟩ := Option.bind_eq_some_iff.mp hget
  have hstep : w.step (.get 2 ⟨⟨nullptr, none⟩, ⟨nullptr, none⟩, 4096⟩) =
      some { w with toConnectionWorld := s.setCon 2 c' } := by
    simp only [step, hc, Option.bind_some, hget, Option.map_some]
  have hsafe := h.at_step hw hstep c s c' _ hc hget (by decide) 1
  rw [hposted] at hsafe
  exact hsafe List.mem_cons_self

/-- A connection is destroyed whose receive has completed, and the chunk is taken again. -/
def takenAgain : List EndpointOp :=
  [.construct 1 .rdm false, .construct 2 .rdm false,
    .get 1 ⟨⟨4096, none⟩, ⟨nullptr, none⟩, 4096⟩, .fi_recv 1 4096, .complete 1 4096, .destroy 1,
    .advance 1 0, .get 2 ⟨⟨nullptr, none⟩, ⟨nullptr, none⟩, 4096⟩, .fi_recv 2 4096]

theorem posted_once_takenAgain :
    Meets step Safe (init (fun _ => {}) (.pool (ChunkPool.new nullptr 8 1))) takenAgain :=
  posted_once _ (.pool nullptr 8 1) takenAgain (by decide +kernel)

end EndpointWorld

end Hpnl
