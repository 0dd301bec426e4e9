import Hpnl.Connection.Destructor

/-!
# The memory regions of an external service

For an external service `MsgConnection::init` registers every chunk that it takes and writes
the region into `ck->mr`.  The chunks go back to the `ExternalChunkMgr` and on to later
connections, which register them anew.  `~MsgConnection` closes the endpoint and the event
queue, `~ExternalChunkMgr` frees the chunks, and nobody closes a region.

* `MrWorld` — the connections on one external manager, and the libfabric objects that are open.
* `Right` — a chunk has at most one open region, and none is open in the end.
* `Posts` — a chunk that is posted or sent carries an open region of its own.
* `Inv`, `inv_step`, `posts_of_inv` — what every step keeps; **`ck->mr` is right whenever a
  chunk is posted or sent**, in every run.
* `regions_accounted_iff` — **the regions are accounted for if and only if** no chunk is
  registered that has been registered before, and none at all in a run that ends.
-/

namespace Hpnl

open Transition

/-- What an open libfabric object belongs to. -/
inductive FidOwner where
  | stack
  /-- The endpoint and the event queue of a connection. -/
  | connection (con : ConId)
  /-- A memory region. -/
  | region (ck : Addr)
  deriving DecidableEq, Repr

/-- The connections of an external service.  `fids` holds the objects that are open, under the
handles that libfabric has given them; `endpoint` the `ep` and `conEq` of a connection.  The
rest are ghosts: the chunks that `init` has passed to `fi_recv`, those that have ever been
registered, and the connections there have been.  `finished` is whether the stack and the
manager have been destroyed. -/
structure MrWorld extends ConnectionWorld where
  fids : Addr → Option FidOwner
  endpoint : ConId → Option (Addr × Addr)
  posted : ConId → List Addr
  registered : List Addr
  ids : List ConId
  finished : Bool

inductive MrOp where
  /-- `set_buffer`: the manager is given a new chunk. -/
  | set_buffer (ck buffer : Addr) (size buffer_id : ℕ)
  | construct (con : ConId) (buffer_num : ℤ)
  /-- `init` up to `fi_enable`: the endpoint and the event queue, unless a call fails; then
  what has been opened is closed again. -/
  | open (con : ConId) (fids : Option (Addr × Addr))
  /-- The receive chunk of a round of `init`. -/
  | init_recv (con : ConId) (r : GetReply) (fab : FabricReply)
  /-- The send chunk of a round of `init`. -/
  | init_send (con : ConId) (r : GetReply) (fab : FabricReply)
  /-- `activate_recv_chunk(ck)`, of a chunk whose receive has completed. -/
  | activate_recv_chunk (con : ConId) (ck : Addr)
  /-- `send`, of one of the connection's send chunks. -/
  | send (con : ConId) (ck : Addr) (size : ℕ)
  | destroy (con : ConId)
  /-- `~MsgStack` and `~ExternalChunkMgr`. -/
  | finish
  deriving DecidableEq, Repr

namespace MrWorld

/-- A stack that has opened the objects `stack`, and a manager without chunks. -/
def init (mem : Mem) (stack : List Addr) : MrWorld :=
  { ConnectionWorld.init mem (.external {}) with
    fids := fun h => if h ∈ stack then some .stack else none
    endpoint := fun _ => none
    posted := fun _ => []
    registered := []
    ids := []
    finished := false }

/-- libfabric can answer with this handle. -/
def Fresh (w : MrWorld) (h : Addr) : Prop := h ≠ nullptr ∧ w.fids h = none

instance (w : MrWorld) (h : Addr) : Decidable (w.Fresh h) := inferInstanceAs (Decidable (_ ∧ _))

/-- The chunk that a round of `init` registers, and its new region. -/
def opens (w : MrWorld) (mr : Option Addr) : Option (Addr × Addr) :=
  match w.chunk_mgr.free.head?, mr with
  | some ck, some h => if ck = nullptr then none else some (ck, h)
  | _, _ => none

/-- The region is open, if there is one. -/
def openRegion (fids : Addr → Option FidOwner) :
    Option (Addr × Addr) → Addr → Option FidOwner
  | none => fids
  | some (ck, h) => Function.update fids h (some (.region ck))

/-- A chunk and its region, if `fi_mr_reg` has opened one. -/
def register (w : MrWorld) (opened : Option (Addr × Addr)) : MrWorld :=
  { w with
    fids := openRegion w.fids opened
    registered := (opened.map Prod.fst).toList ++ w.registered }

/-- `fi_close(&ep->fid)` and `fi_close(&conEq->fid)`. -/
def closed (w : MrWorld) (con : ConId) : Addr → Option FidOwner :=
  match w.endpoint con with
  | none => w.fids
  | some (ep, conEq) => Function.update (Function.update w.fids ep none) conEq none

/-- The connection has passed the chunk to `fi_recv`, or has it in `send_chunks`. -/
def Has (w : MrWorld) (con : ConId) (ck : Addr) : Prop :=
  ∃ c, w.cons con = some c ∧ (ck ∈ w.posted con ∨ ck ∈ c.send_chunks)

/-- What a step does to the chunks and connections. -/
def stepConnection (w : MrWorld) (op : ConnectionOp) : Option MrWorld :=
  (w.toConnectionWorld.step op).map fun s => { w with toConnectionWorld := s }

/-- One step.  Nothing happens after the end. -/
def step (w : MrWorld) (op : MrOp) : Option MrWorld :=
  if w.finished then none
  else
    match op with
    | .set_buffer ck buffer size buffer_id =>
        w.stepConnection (.set_buffer ck { buffer, capacity := size, buffer_id })
    | .construct con buffer_num =>
        (w.stepConnection (.construct con .msg true buffer_num)).map fun w' =>
          { w' with
            endpoint := Function.update w.endpoint con none
            posted := Function.update w.posted con []
            ids := con :: w.ids }
    | .open con none => w.stepConnection (.open con false)
    | .open con (some (ep, conEq)) =>
        if w.Fresh ep ∧ w.Fresh conEq ∧ ep ≠ conEq then
          (w.stepConnection (.open con true)).map fun w' =>
            { w' with
              fids := Function.update (Function.update w.fids ep (some (.connection con)))
                conEq (some (.connection con))
              endpoint := Function.update w.endpoint con (some (ep, conEq)) }
        else none
    | .init_recv con r fab =>
        if ∀ h ∈ fab.mr, w.Fresh h then
          (w.stepConnection (.init_recv con r fab)).map fun w' =>
            { w'.register (w.opens fab.mr) with
              posted := Function.update w.posted con
                (((w.opens fab.mr).map Prod.fst).toList ++ w.posted con) }
        else none
    | .init_send con r fab =>
        if ∀ h ∈ fab.mr, w.Fresh h then
          (w.stepConnection (.init_send con r fab)).map fun w' => w'.register (w.opens fab.mr)
        else none
    | .activate_recv_chunk con ck =>
        if (w.cons con).isSome ∧ ck ∈ w.posted con then
          some { w with toConnectionWorld := w.toConnectionWorld.stamp con ck none }
        else none
    | .send con ck size =>
        (w.cons con).bind fun c =>
          if ck ∈ c.send_chunks then w.stepConnection (.send con ck size) else none
    | .destroy con =>
        (w.stepConnection (.destroy con (fun _ => 0) fun _ => 0)).map fun w' =>
          { w' with
            fids := w.closed con
            endpoint := Function.update w.endpoint con none
            posted := Function.update w.posted con [] }
    | .finish =>
        if ∀ con ∈ w.ids, (w.cons con).isNone then
          some { w with
            fids := fun h => if w.fids h = some .stack then none else w.fids h
            finished := true }
        else none

/-! ## The properties, and the condition -/

/-- No chunk has two open regions, and no region is open after the end. -/
def Right (w : MrWorld) : Prop :=
  (∀ h h' ck, w.fids h = some (.region ck) → w.fids h' = some (.region ck) → h = h') ∧
    (w.finished → ∀ h ck, w.fids h ≠ some (.region ck))

/-- The chunk that a step registers, and its new region. -/
def obtains (w : MrWorld) : MrOp → Option (Addr × Addr)
  | .init_recv _ _ fab => w.opens fab.mr
  | .init_send _ _ fab => w.opens fab.mr
  | _ => none

/-- The chunk that a step posts or sends. -/
def used (w : MrWorld) : MrOp → Option Addr
  | .init_recv _ _ fab => (w.opens fab.mr).map Prod.fst
  | .activate_recv_chunk _ ck => some ck
  | .send _ ck _ => some ck
  | _ => none

/-- A chunk that is posted or sent carries an open region of its own. -/
def Posts (w : MrWorld) (op : MrOp) : Prop :=
  ∀ ck ∈ w.used op, ∀ w', w.step op = some w' → w'.fids (w'.mem ck).mr = some (.region ck)

/-- **The condition.**  A chunk is registered only when it has never been registered before,
and the stack is destroyed only when no chunk ever was. -/
def Guard (w : MrWorld) (op : MrOp) : Prop :=
  (∀ ck h, w.obtains op = some (ck, h) → ck ∉ w.registered) ∧ (op = .finish → w.registered = [])

/-! ## What the steps of a connection do -/

section

variable {s t : ConnectionWorld} {con : ConId} {c c' : Connection} {r : GetReply} {ck : Addr}
  {m : ExternalChunkMgr}

/-- An external manager hands out its first chunk, and records nothing. -/
theorem get_external (hm : s.chunk_mgr = .external m) (hget : s.get con c r = some (t, c', ck)) :
    c' = c ∧ t.mem = s.mem ∧ t.cons = s.cons ∧ (∃ m', t.chunk_mgr = .external m') ∧
      t.holder = (if ck = nullptr then s.holder else Function.update s.holder ck (some con)) ∧
      ((m.bufs = [] ∧ ck = nullptr) ∨ m.bufs.head? = some ck) := by
  rw [ConnectionWorld.get] at hget
  split at hget
  · obtain ⟨⟨mgr, mem, impl, a⟩, hmgr, heq⟩ := Option.map_eq_some_iff.mp hget
    rw [hm] at hmgr
    cases heq
    obtain ⟨rfl, rfl, ⟨hbufs, rfl, rfl⟩ | ⟨bufs, hbufs, rfl⟩⟩ :=
      ChunkMgr.get_external_iff.mp hmgr
    · exact ⟨rfl, rfl, rfl, ⟨_, rfl⟩, rfl, Or.inl ⟨hbufs, rfl⟩⟩
    · refine ⟨rfl, rfl, rfl, ⟨_, rfl⟩, rfl, Or.inr ?_⟩
      rw [hbufs]
      rfl
  · cases hget

/-- What the destructor of a connection that has filed no chunk gives back. -/
theorem freeSend_external {l : List Addr} (hm : s.chunk_mgr = .external m) (links : ℕ → ℕ) :
    (ConnectionWorld.freeSend l links s c).mem = s.mem ∧
      (ConnectionWorld.freeSend l links s c).cons = s.cons ∧
      (∃ m', (ConnectionWorld.freeSend l links s c).chunk_mgr = .external m') ∧
      ∀ a ∉ l, (ConnectionWorld.freeSend l links s c).holder a = s.holder a := by
  induction l generalizing s c m links with
  | nil => exact ⟨rfl, rfl, ⟨m, hm⟩, fun _ _ => rfl⟩
  | cons ck l ih =>
    have hmgr : (s.reclaim c ck (links 0)).1.chunk_mgr =
        .external (m.reclaim s.mem ck (some c.toConnectionImpl)).1 := by
      simp only [ConnectionWorld.reclaim, hm]
      rfl
    have hmem : (s.reclaim c ck (links 0)).1.mem = s.mem := by
      simp only [ConnectionWorld.reclaim, hm]
      rfl
    obtain ⟨hmem', hcons, hext, hholder⟩ :=
      ih (c := (s.reclaim c ck (links 0)).2) hmgr fun i => links (i + 1)
    refine ⟨hmem'.trans hmem, hcons, hext, fun a ha => ?_⟩
    rw [List.mem_cons, not_or] at ha
    refine (hholder a ha.2).trans ?_
    rw [ConnectionWorld.holder_reclaim, Function.update_of_ne ha.1]

end

/-! ## The invariant -/

/-- A connection of an external service: no chunk is recorded in `used_chunks`. -/
def External (c : Connection) : Prop :=
  c.kind = .msg ∧ c.external_service = true ∧ c.used_chunks = ∅ ∧ c.send_chunks.Nodup

/-- The manager is in order; the endpoint of a connection is its own; a chunk that a
connection has carries an open region of its own; and the regions that are open are those of
the chunks that have been registered. -/
structure Inv (w : MrWorld) : Prop where
  external : ∃ m, w.chunk_mgr = .external m
  wf : w.chunk_mgr.Wf w.holder
  con : ∀ con c, w.cons con = some c → External c
  endpoint : ∀ con ep conEq, w.endpoint con = some (ep, conEq) →
    w.fids ep = some (.connection con) ∧ w.fids conEq = some (.connection con)
  has : ∀ con ck, w.Has con ck →
    w.holder ck = some con ∧ w.fids (w.mem ck).mr = some (.region ck)
  registered : ∀ ck, ck ∈ w.registered ↔ ∃ h, w.fids h = some (.region ck)

section

variable {w w' : MrWorld} {s t : ConnectionWorld} {con : ConId} {c c' : Connection}
  {r : GetReply} {fab : FabricReply} {ck : Addr} {op : MrOp}

/-- **What `get` does**: there is no chunk, or the first one, which was out to nobody. -/
theorem get_spec (h : w.Inv) (hget : w.toConnectionWorld.get con c r = some (t, c', ck)) :
    c' = c ∧ t.mem = w.mem ∧ t.cons = w.cons ∧ (∃ m, t.chunk_mgr = .external m) ∧
      t.chunk_mgr.Wf t.holder ∧
      ((ck = nullptr ∧ t.holder = w.holder ∧ ∀ mr, w.opens mr = none) ∨
        (ck ≠ nullptr ∧ w.holder ck = none ∧
          t.holder = Function.update w.holder ck (some con) ∧
          ∀ mr, w.opens mr = mr.map fun h => (ck, h))) := by
  obtain ⟨m, hm⟩ := h.external
  obtain ⟨hc, hmem, hcons, hext, hholder, hfirst⟩ := get_external hm hget
  refine ⟨hc, hmem, hcons, hext, ConnectionWorld.wf_get h.wf hget, ?_⟩
  have hfree : w.chunk_mgr.free = m.bufs := by
    rw [hm]
    rfl
  by_cases hck : ck = nullptr
  · refine Or.inl ⟨hck, by rw [hholder, if_pos hck], fun mr => ?_⟩
    obtain ⟨hnil, -⟩ | hhead := hfirst
    · simp [opens, hfree, hnil]
    · cases mr <;> simp [opens, hfree, hhead, hck]
  · have hhead : m.bufs.head? = some ck := hfirst.resolve_left fun h => hck h.2
    refine Or.inr ⟨hck, ?_, by rw [hholder, if_neg hck], fun mr => ?_⟩
    · have hwf := h.wf
      rw [hm] at hwf
      exact hwf.2 ck (List.mem_of_mem_head? hhead)
    · cases mr <;> simp [opens, hfree, hhead, hck]

/-- A round of `init`: chunks that were out are as they were; a chunk that is registered
was not out, and carries its region.  `sends` are the chunks that join `send_chunks`. -/
structure Round (w : MrWorld) (s : ConnectionWorld) (con : ConId) (mr : Option Addr)
    (sends : List Addr) : Prop where
  external : ∃ m, s.chunk_mgr = .external m
  wf : s.chunk_mgr.Wf s.holder
  holder : ∀ a other, w.holder a = some other → s.holder a = some other
  mem : ∀ a, w.holder a ≠ none → s.mem a = w.mem a
  new : ∀ ck h, w.opens mr = some (ck, h) →
    w.holder ck = none ∧ s.holder ck = some con ∧ (s.mem ck).mr = h
  cons : ∃ c c', w.cons con = some c ∧ s.cons = Function.update w.cons con (some c') ∧
    c'.send_chunks = c.send_chunks ++ sends ∧ External c'

/-- The chunk is null, or cannot be registered: only the manager has changed. -/
theorem round_failed (h : w.Inv) (hc : w.cons con = some c)
    (hget : w.toConnectionWorld.get con c r = some (t, c', ck)) {mr : Option Addr}
    (hnone : w.opens mr = none) :
    Round w (t.setCon con { c' with phase := .failed }) con mr [] := by
  obtain ⟨rfl, hmem, hcons, hext, hwf, hcase⟩ := get_spec h hget
  refine ⟨hext, hwf, fun a other ha => ?_, fun a _ => congrFun hmem a, ?_, ?_⟩
  · show t.holder a = some other
    obtain ⟨-, hholder, -⟩ | ⟨-, hck, hholder, -⟩ := hcase
    · rw [hholder, ha]
    · rw [hholder, Function.update_of_ne, ha]
      rintro rfl
      exact absurd (hck.symm.trans ha) (by simp)
  · intro a x hopens
    exact absurd (hnone.symm.trans hopens) (by simp)
  · refine ⟨c', { c' with phase := .failed }, hc, ?_, (List.append_nil _).symm, h.con con c' hc⟩
    show Function.update t.cons con _ = _
    rw [hcons]

/-- The chunk has been registered. -/
theorem round_registered (h : w.Inv) (hc : w.cons con = some c)
    (hget : w.toConnectionWorld.get con c r = some (t, c', ck)) (hck : ck ≠ nullptr) (x : Addr)
    {sends : List Addr} (hsends : sends = [] ∨ sends = [ck]) (phase : InitPhase) :
    Round w ((t.stamp con ck (some x)).setCon con
      { c' with send_chunks := c'.send_chunks ++ sends, phase := phase }) con (some x) sends := by
  obtain ⟨rfl, hmem, hcons, hext, hwf, hcase⟩ := get_spec h hget
  obtain ⟨-, hnone, hholder, hopens⟩ := hcase.resolve_left fun h => hck h.1
  refine ⟨hext, hwf, fun a other ha => ?_, fun a ha => ?_, ?_, ?_⟩
  · show t.holder a = some other
    rw [hholder, Function.update_of_ne, ha]
    rintro rfl
    exact absurd (hnone.symm.trans ha) (by simp)
  · show Function.update t.mem ck _ a = w.mem a
    rw [Function.update_of_ne, hmem]
    rintro rfl
    exact ha hnone
  · intro a y hy
    rw [hopens, Option.map_some, Option.some.injEq, Prod.mk.injEq] at hy
    obtain ⟨rfl, rfl⟩ := hy
    refine ⟨hnone, ?_, ?_⟩
    · show t.holder ck = some con
      rw [hholder, Function.update_self]
    · show (Function.update t.mem ck _ ck).mr = x
      rw [Function.update_self]
      rfl
  · obtain ⟨hkind, hexternal, hused, hnodup⟩ := h.con con c' hc
    refine ⟨c', { c' with send_chunks := c'.send_chunks ++ sends, phase := phase }, hc, ?_, rfl,
      hkind, hexternal, hused, ?_⟩
    · show Function.update t.cons con _ = _
      rw [hcons]
    · have hnot : ck ∉ c'.send_chunks := fun hmem => by
        have hheld := (h.has con ck ⟨c', hc, Or.inr hmem⟩).1
        exact absurd (hnone.symm.trans hheld) (by simp)
      obtain rfl | rfl := hsends
      · simpa using hnodup
      · exact List.nodup_append.mpr ⟨hnodup, List.nodup_singleton ck, fun a ha b hb hab => by
          rw [List.mem_singleton.mp hb] at hab
          exact hnot (hab ▸ ha)⟩

theorem round_recv (h : w.Inv)
    (hstep : w.toConnectionWorld.step (.init_recv con r fab) = some s) :
    Round w s con fab.mr [] := by
  obtain ⟨c, hc, hstep⟩ := Option.bind_eq_some_iff.mp hstep
  obtain ⟨hkind, hext, -⟩ := h.con con c hc
  split at hstep
  · rename_i n hphase hmsg
    obtain ⟨⟨t, c', ck⟩, hget, rfl⟩ := Option.map_eq_some_iff.mp hstep
    obtain ⟨rfl, -, -, -, -, hcase⟩ := get_spec h hget
    dsimp only
    split
    · rename_i hck
      have hnone := hcase.resolve_right fun h => h.1 hck
      exact round_failed h hc hget (hnone.2.2 fab.mr)
    · rename_i hck
      obtain ⟨-, -, -, hopens⟩ := hcase.resolve_left fun h => hck h.1
      cases hmr : fab.mr with
      | none =>
        rw [if_pos ⟨hext, rfl⟩]
        exact round_failed h hc hget (by rw [hopens]; rfl)
      | some x =>
        rw [if_neg (by simp)]
        have hround := fun phase => round_registered h hc hget hck x (Or.inl rfl) phase
        simp only [List.append_nil] at hround
        split
        · exact hround .failed
        · exact hround _
  · rename_i hrdm
    exact absurd (hkind.symm.trans hrdm) (by simp)
  · cases hstep

theorem round_send (h : w.Inv)
    (hstep : w.toConnectionWorld.step (.init_send con r fab) = some s) :
    Round w s con fab.mr ((w.opens fab.mr).map Prod.fst).toList := by
  obtain ⟨c, hc, hstep⟩ := Option.bind_eq_some_iff.mp hstep
  obtain ⟨hkind, -⟩ := h.con con c hc
  split at hstep
  · obtain ⟨⟨t, c', ck⟩, hget, rfl⟩ := Option.map_eq_some_iff.mp hstep
    obtain ⟨rfl, -, -, -, -, hcase⟩ := get_spec h hget
    dsimp only
    split
    · rename_i hck
      have hnone := (hcase.resolve_right fun h => h.1 hck).2.2 fab.mr
      rw [hnone]
      exact round_failed h hc hget hnone
    · rename_i hck
      obtain ⟨-, -, -, hopens⟩ := hcase.resolve_left fun h => hck h.1
      cases hmr : fab.mr with
      | none =>
        rw [if_pos rfl, hopens]
        exact round_failed h hc hget (by rw [hopens]; rfl)
      | some x =>
        rw [if_neg (by simp), hopens]
        exact round_registered h hc hget hck x (Or.inr rfl) _
  · rename_i hrdm
    exact absurd (hkind.symm.trans hrdm) (by simp)
  · cases hstep

/-! ## Every step keeps the invariant -/

theorem opens_eq_some {mr : Option Addr} {x : Addr} (h : w.opens mr = some (ck, x)) :
    mr = some x := by
  unfold opens at h
  split at h
  · split at h
    · cases h
    · cases h
      rfl
  · cases h

section

variable {fids : Addr → Option FidOwner} {o : Option (Addr × Addr)}

theorem openRegion_of_some (hfresh : ∀ a x, o = some (a, x) → fids x = none) {y : Addr}
    {k : FidOwner} (hy : fids y = some k) : openRegion fids o y = some k := by
  cases o with
  | none => exact hy
  | some p =>
    show Function.update fids p.2 _ y = some k
    rw [Function.update_of_ne, hy]
    rintro rfl
    exact absurd ((hfresh _ _ rfl).symm.trans hy) (by simp)

/-- The regions that are open after a registration. -/
theorem openRegion_iff (hfresh : ∀ a x, o = some (a, x) → fids x = none) (y : Addr) :
    openRegion fids o y = some (.region ck) ↔ fids y = some (.region ck) ∨ o = some (ck, y) := by
  cases o with
  | none => simp [openRegion]
  | some p =>
    obtain ⟨a, x⟩ := p
    show Function.update fids x (some (.region a)) y = _ ↔ _
    by_cases hy : y = x
    · rw [hy, Function.update_self, hfresh a x rfl]
      simp
    · rw [Function.update_of_ne hy]
      simp [Ne.symm hy]

end

/-- A round of `init`, with the region that it opens.  `posted` may grow by the chunk that is
registered. -/
theorem inv_round (h : w.Inv) {mr : Option Addr} {sends : List Addr}
    (hround : Round w s con mr sends) (hfresh : ∀ x ∈ mr, w.Fresh x)
    (hsends : ∀ a ∈ sends, ∃ x, w.opens mr = some (a, x)) {posted : ConId → List Addr}
    (hposted : ∀ other a, a ∈ posted other →
      a ∈ w.posted other ∨ other = con ∧ ∃ x, w.opens mr = some (a, x)) :
    Inv { ({ w with toConnectionWorld := s } : MrWorld).register (w.opens mr) with
      posted := posted } := by
  obtain ⟨c, c', hc, hcons, hadds, hext'⟩ := hround.cons
  have hnew : ∀ a x, w.opens mr = some (a, x) → w.fids x = none :=
    fun a x hx => (hfresh x (opens_eq_some hx)).2
  refine ⟨hround.external, hround.wf, fun other d hd => ?_, fun other ep conEq hep => ?_,
    fun other a ha => ?_, fun a => ?_⟩
  · replace hd : s.cons other = some d := hd
    rw [hcons] at hd
    obtain ⟨-, hd⟩ | ⟨-, hd⟩ := of_update hd
    · exact Option.some.inj hd ▸ hext'
    · exact h.con other d hd
  · obtain ⟨hone, htwo⟩ := h.endpoint other ep conEq hep
    exact ⟨openRegion_of_some hnew hone, openRegion_of_some hnew htwo⟩
  · -- the chunk was there already, or has just been registered
    have hcase : w.Has other a ∨ other = con ∧ ∃ x, w.opens mr = some (a, x) := by
      obtain ⟨d, hd, hmem⟩ := ha
      replace hd : s.cons other = some d := hd
      rw [hcons] at hd
      obtain ⟨rfl, heq⟩ | ⟨-, hd⟩ := of_update hd
      · obtain rfl := Option.some.inj heq
        obtain hmem | hmem := hmem
        · exact (hposted other a hmem).imp_left fun hmem => ⟨c, hc, Or.inl hmem⟩
        · rw [hadds, List.mem_append] at hmem
          obtain hmem | hmem := hmem
          · exact Or.inl ⟨c, hc, Or.inr hmem⟩
          · exact Or.inr ⟨rfl, hsends a hmem⟩
      · obtain hmem | hmem := hmem
        · exact (hposted other a hmem).imp_left fun hmem => ⟨d, hd, Or.inl hmem⟩
        · exact Or.inl ⟨d, hd, Or.inr hmem⟩
    obtain hold | ⟨rfl, x, hx⟩ := hcase
    · obtain ⟨hholder, hregion⟩ := h.has other a hold
      refine ⟨hround.holder a other hholder, ?_⟩
      show openRegion w.fids (w.opens mr) (s.mem a).mr = _
      rw [hround.mem a (hholder ▸ Option.some_ne_none other)]
      exact openRegion_of_some hnew hregion
    · obtain ⟨-, hholder, hmr⟩ := hround.new a x hx
      refine ⟨hholder, ?_⟩
      show openRegion w.fids (w.opens mr) (s.mem a).mr = _
      rw [hmr]
      exact (openRegion_iff hnew x).mpr (Or.inr hx)
  · show a ∈ ((w.opens mr).map Prod.fst).toList ++ w.registered ↔
      ∃ y, openRegion w.fids (w.opens mr) y = some (.region a)
    simp only [openRegion_iff hnew, exists_or, ← h.registered]
    simp [or_comm]

/-- The destructor closes what is the connection's own. -/
theorem closed_of_ne (h : w.Inv) {x : Addr} {k : FidOwner} (hx : w.fids x = some k)
    (hk : k ≠ .connection con) : w.closed con x = some k := by
  cases hep : w.endpoint con with
  | none => simpa only [closed, hep] using hx
  | some p =>
    obtain ⟨ep, conEq⟩ := p
    obtain ⟨hone, htwo⟩ := h.endpoint con ep conEq hep
    have hne : ∀ y, w.fids y = some (.connection con) → x ≠ y := by
      rintro y hy rfl
      exact hk (Option.some.inj (hx.symm.trans hy))
    simp only [closed, hep]
    rw [Function.update_of_ne (hne conEq htwo), Function.update_of_ne (hne ep hone), hx]

theorem of_closed {x : Addr} {k : FidOwner} (hx : w.closed con x = some k) :
    w.fids x = some k := by
  cases hep : w.endpoint con with
  | none => simpa only [closed, hep] using hx
  | some p =>
    simp only [closed, hep] at hx
    obtain ⟨-, hx⟩ | ⟨-, hx⟩ := of_update hx
    · cases hx
    · obtain ⟨-, hx⟩ | ⟨-, hx⟩ := of_update hx
      · cases hx
      · exact hx

/-- The regions that are open when a connection has been destroyed. -/
theorem region_closed (h : w.Inv) (x a : Addr) :
    w.closed con x = some (.region a) ↔ w.fids x = some (.region a) :=
  ⟨of_closed, fun hx => closed_of_ne h hx (by simp)⟩

/-- What the destructor leaves. -/
theorem destroy_external (h : w.Inv) (hc : w.cons con = some c) (links links' : ℕ → ℕ) :
    (w.toConnectionWorld.destroy c links links').world.mem = w.mem ∧
      (∃ m, (w.toConnectionWorld.destroy c links links').world.chunk_mgr = .external m) ∧
      (w.toConnectionWorld.destroy c links links').world.chunk_mgr.Wf
        (w.toConnectionWorld.destroy c links links').world.holder ∧
      ∀ a, w.holder a ≠ some con →
        (w.toConnectionWorld.destroy c links links').world.holder a = w.holder a := by
  obtain ⟨m, hm⟩ := h.external
  obtain ⟨-, hext, hused, hnodup⟩ := h.con con c hc
  have hheld : ∀ a ∈ c.send_chunks, w.holder a = some con :=
    fun a ha => (h.has con a ⟨c, hc, Or.inr ha⟩).1
  have hsend : ConnectionWorld.sendChunks c = c.send_chunks := by
    rw [ConnectionWorld.sendChunks, if_pos hext]
  have heq : (w.toConnectionWorld.destroy c links links').world =
      ConnectionWorld.freeSend c.send_chunks links' w.toConnectionWorld c := by
    unfold ConnectionWorld.destroy
    rw [hused, StdMap.entries_empty, hsend]
    rfl
  rw [heq]
  obtain ⟨hmem, -, hext', hholder⟩ :=
    freeSend_external (c := c) (l := c.send_chunks) hm links'
  refine ⟨hmem, hext', ?_, fun a ha => hholder a fun hin => ha (hheld a hin)⟩
  exact ConnectionWorld.wf_freeSend links' _ c h.wf hnodup
    fun a ha => hheld a ha ▸ Option.some_ne_none con

/-- A step that leaves the regions, and the chunks that connections have, as they are. -/
theorem Inv.quiet (h : w.Inv) (hext : ∃ m, w'.chunk_mgr = .external m)
    (hwf : w'.chunk_mgr.Wf w'.holder) (hcon : ∀ con c, w'.cons con = some c → External c)
    (hendpoint : ∀ con ep conEq, w'.endpoint con = some (ep, conEq) →
      w'.fids ep = some (.connection con) ∧ w'.fids conEq = some (.connection con))
    (hhas : ∀ con a, w'.Has con a → w.Has con a ∧ w'.holder a = w.holder a ∧
      (w'.mem a).mr = (w.mem a).mr)
    (hfids : ∀ x a, w'.fids x = some (.region a) ↔ w.fids x = some (.region a))
    (hregistered : w'.registered = w.registered) : w'.Inv := by
  refine ⟨hext, hwf, hcon, hendpoint, fun con a ha => ?_, fun a => ?_⟩
  · obtain ⟨hold, hholder, hmr⟩ := hhas con a ha
    obtain ⟨hheld, hregion⟩ := h.has con a hold
    exact ⟨hholder.trans hheld, (hfids _ a).mpr (hmr ▸ hregion)⟩
  · simp only [hregistered, hfids]
    exact h.registered a

theorem inv_set_buffer (h : w.Inv) {header : Chunk}
    (hstep : w.toConnectionWorld.step (.set_buffer ck header) = some s) :
    Inv { w with toConnectionWorld := s } := by
  have hset : w.toConnectionWorld.Settled (.set_buffer ck header) := trivial
  have hwf : s.chunk_mgr.Wf s.holder := ConnectionWorld.wf_step h.wf hset hstep
  obtain ⟨m, hm⟩ := h.external
  simp only [ConnectionWorld.step] at hstep
  split at hstep
  · rename_i hnew
    rw [hm] at hstep
    cases hstep
    refine h.quiet ⟨_, rfl⟩ hwf h.con h.endpoint (fun con a ha => ⟨ha, rfl, ?_⟩)
      (fun _ _ => Iff.rfl) rfl
    have hheld := (h.has con a ha).1
    show (Function.update w.mem ck header a).mr = _
    rw [Function.update_of_ne]
    rintro rfl
    exact absurd (hnew.2.symm.trans hheld) (by simp)
  · cases hstep

theorem inv_construct (h : w.Inv) {buffer_num : ℤ} {ids : List ConId}
    (hstep : w.toConnectionWorld.step (.construct con .msg true buffer_num) = some s) :
    Inv { w with
      toConnectionWorld := s
      endpoint := Function.update w.endpoint con none
      posted := Function.update w.posted con []
      ids := ids } := by
  simp only [ConnectionWorld.step] at hstep
  split at hstep
  · cases hstep
    refine h.quiet h.external h.wf (fun other d hd => ?_) (fun other ep conEq hep => ?_)
      (fun other a ha => ?_) (fun _ _ => Iff.rfl) rfl
    · obtain ⟨-, heq⟩ | ⟨-, hd⟩ := of_update hd
      · obtain rfl := Option.some.inj heq
        exact ⟨rfl, rfl, rfl, List.nodup_nil⟩
      · exact h.con other d hd
    · obtain ⟨-, hep⟩ | ⟨-, hep⟩ := of_update hep
      · cases hep
      · exact h.endpoint other ep conEq hep
    · refine ⟨?_, rfl, rfl⟩
      obtain ⟨d, hd, hmem⟩ := ha
      replace hmem : a ∈ Function.update w.posted con [] other ∨ a ∈ d.send_chunks := hmem
      obtain ⟨rfl, heq⟩ | ⟨hne, hd⟩ := of_update hd
      · obtain rfl := Option.some.inj heq
        simp at hmem
      · rw [Function.update_of_ne hne] at hmem
        exact ⟨d, hd, hmem⟩
  · cases hstep

/-- What opening an endpoint, or failing to, does to the connection. -/
theorem open_cases {ok : Bool} (hstep : w.toConnectionWorld.step (.open con ok) = some s) :
    ∃ c phase, w.cons con = some c ∧
      s = w.toConnectionWorld.setCon con { c with phase := phase } := by
  obtain ⟨c, hc, hstep⟩ := Option.bind_eq_some_iff.mp hstep
  split at hstep
  · cases hstep
    exact ⟨c, _, hc, rfl⟩
  · cases hstep

theorem external_setCon (h : w.Inv) (hc : w.cons con = some c) {phase : InitPhase} {other : ConId}
    {d : Connection}
    (hd : (w.toConnectionWorld.setCon con { c with phase := phase }).cons other = some d) :
    External d := by
  obtain ⟨-, heq⟩ | ⟨-, hd⟩ := of_update hd
  · obtain rfl := Option.some.inj heq
    exact h.con con c hc
  · exact h.con other d hd

theorem has_setCon (hc : w.cons con = some c) {phase : InitPhase} {other : ConId} {d : Connection}
    {a : Addr} (hd : (w.toConnectionWorld.setCon con { c with phase := phase }).cons other = some d)
    (hmem : a ∈ w.posted other ∨ a ∈ d.send_chunks) : w.Has other a := by
  obtain ⟨rfl, heq⟩ | ⟨-, hd⟩ := of_update hd
  · obtain rfl := Option.some.inj heq
    exact ⟨c, hc, hmem⟩
  · exact ⟨d, hd, hmem⟩

theorem inv_open_failed (h : w.Inv)
    (hstep : w.toConnectionWorld.step (.open con false) = some s) :
    Inv { w with toConnectionWorld := s } := by
  obtain ⟨c, phase, hc, rfl⟩ := open_cases hstep
  refine h.quiet h.external h.wf (fun other d hd => external_setCon h hc hd) h.endpoint
    (fun other a ha => ?_) (fun _ _ => Iff.rfl) rfl
  obtain ⟨d, hd, hmem⟩ := ha
  exact ⟨has_setCon hc hd hmem, rfl, rfl⟩

theorem openEndpoint_of_some {ep conEq x : Addr} {k : FidOwner} (con : ConId) (hep : w.Fresh ep)
    (heq : w.Fresh conEq) (hx : w.fids x = some k) :
    Function.update (Function.update w.fids ep (some (.connection con)))
      conEq (some (.connection con)) x = some k := by
  rw [Function.update_of_ne, Function.update_of_ne, hx]
  · rintro rfl
    exact absurd (hep.2.symm.trans hx) (by simp)
  · rintro rfl
    exact absurd (heq.2.symm.trans hx) (by simp)

/-- The regions that are open when an endpoint has been opened. -/
theorem region_open {ep conEq : Addr} (hep : w.Fresh ep) (heq : w.Fresh conEq) (x a : Addr) :
    Function.update (Function.update w.fids ep (some (.connection con)))
      conEq (some (.connection con)) x = some (.region a) ↔ w.fids x = some (.region a) := by
  refine ⟨fun hx => ?_, openEndpoint_of_some con hep heq⟩
  obtain ⟨-, hx⟩ | ⟨-, hx⟩ := of_update hx
  · cases hx
  · obtain ⟨-, hx⟩ | ⟨-, hx⟩ := of_update hx
    · cases hx
    · exact hx

theorem inv_open (h : w.Inv) {ep conEq : Addr} (hep : w.Fresh ep) (heq : w.Fresh conEq)
    (hne : ep ≠ conEq) (hstep : w.toConnectionWorld.step (.open con true) = some s) :
    Inv { w with
      toConnectionWorld := s
      fids := Function.update (Function.update w.fids ep (some (.connection con)))
        conEq (some (.connection con))
      endpoint := Function.update w.endpoint con (some (ep, conEq)) } := by
  have hkeep := fun x k => openEndpoint_of_some (x := x) (k := k) con hep heq
  obtain ⟨c, phase, hc, rfl⟩ := open_cases hstep
  refine h.quiet h.external h.wf (fun other d hd => external_setCon h hc hd)
    (fun other ep' conEq' hother => ?_) (fun other a ha => ?_) (fun x a => ?_) rfl
  · obtain ⟨rfl, hnew⟩ | ⟨-, hother⟩ := of_update hother
    · cases hnew
      exact ⟨(Function.update_of_ne hne _ _).trans (Function.update_self ..),
        Function.update_self ..⟩
    · obtain ⟨hone, htwo⟩ := h.endpoint other ep' conEq' hother
      exact ⟨hkeep ep' _ hone, hkeep conEq' _ htwo⟩
  · obtain ⟨d, hd, hmem⟩ := ha
    exact ⟨has_setCon hc hd hmem, rfl, rfl⟩
  · exact region_open hep heq x a

/-- Writing into a header leaves the region. -/
theorem inv_header (h : w.Inv) {header : Chunk} (hmr : header.mr = (w.mem ck).mr) :
    Inv { w with
      toConnectionWorld :=
        { w.toConnectionWorld with mem := Function.update w.mem ck header } } := by
  refine h.quiet h.external h.wf h.con h.endpoint (fun con a ha => ⟨ha, rfl, ?_⟩)
    (fun _ _ => Iff.rfl) rfl
  show (Function.update w.mem ck header a).mr = _
  by_cases ha : a = ck
  · rw [ha, Function.update_self, hmr]
  · rw [Function.update_of_ne ha]

theorem inv_destroy (h : w.Inv) {links links' : ℕ → ℕ}
    (hstep : w.toConnectionWorld.step (.destroy con links links') = some s) :
    Inv { w with
      toConnectionWorld := s
      fids := w.closed con
      endpoint := Function.update w.endpoint con none
      posted := Function.update w.posted con [] } := by
  obtain ⟨c, hc, hstep⟩ := Option.bind_eq_some_iff.mp hstep
  split at hstep
  · cases hstep
    obtain ⟨hmem, hext, hwf, hholder⟩ := destroy_external h hc links links'
    refine h.quiet hext hwf (fun other d hd => ?_) (fun other ep conEq hep => ?_)
      (fun other a ha => ?_)
      (region_closed h) rfl
    · obtain ⟨-, heq⟩ | ⟨-, hd⟩ := of_update hd
      · cases heq
      · exact h.con other d hd
    · obtain ⟨-, heq⟩ | ⟨hne, hep⟩ := of_update hep
      · cases heq
      · obtain ⟨hone, htwo⟩ := h.endpoint other ep conEq hep
        have hother : FidOwner.connection other ≠ .connection con := by
          simpa using hne
        exact ⟨closed_of_ne h hone hother, closed_of_ne h htwo hother⟩
    · obtain ⟨d, hd, hin⟩ := ha
      obtain ⟨-, heq⟩ | ⟨hne, hd⟩ := of_update hd
      · cases heq
      · replace hin : a ∈ Function.update w.posted con [] other ∨ a ∈ d.send_chunks := hin
        rw [Function.update_of_ne hne] at hin
        have hhas : w.Has other a := ⟨d, hd, hin⟩
        refine ⟨hhas, hholder a ?_, congrArg Chunk.mr (congrFun hmem a)⟩
        rw [(h.has other a hhas).1]
        simpa using hne
  · cases hstep

/-- `~MsgStack` closes the stack's own objects. -/
theorem finish_eq_some {x : Addr} {k : FidOwner} (hk : k ≠ .stack) :
    (if w.fids x = some .stack then none else w.fids x) = some k ↔ w.fids x = some k := by
  constructor
  · intro hx
    split at hx
    · cases hx
    · exact hx
  · intro hx
    rw [hx, if_neg fun heq => hk (Option.some.inj heq)]

theorem inv_finish (h : w.Inv) :
    Inv { w with
      fids := fun x => if w.fids x = some .stack then none else w.fids x
      finished := true } := by
  refine h.quiet h.external h.wf h.con (fun con ep conEq hep => ?_)
    (fun con a ha => ⟨ha, rfl, rfl⟩) (fun x a => finish_eq_some (by simp)) rfl
  obtain ⟨hone, htwo⟩ := h.endpoint con ep conEq hep
  exact ⟨(finish_eq_some (by simp)).mpr hone, (finish_eq_some (by simp)).mpr htwo⟩

theorem stepConnection_eq_some {o : ConnectionOp} (h : w.stepConnection o = some w') :
    ∃ s, w.toConnectionWorld.step o = some s ∧ w' = { w with toConnectionWorld := s } := by
  obtain ⟨s, hs, rfl⟩ := Option.map_eq_some_iff.mp h
  exact ⟨s, hs, rfl⟩

/-- **What a step can do.** -/
theorem step_cases (hstep : w.step op = some w') :
    w.finished = false ∧
      match op with
      | .set_buffer ck buffer size buffer_id =>
          ∃ s, w.toConnectionWorld.step
              (.set_buffer ck { buffer, capacity := size, buffer_id }) = some s ∧
            w' = { w with toConnectionWorld := s }
      | .construct con buffer_num =>
          ∃ s, w.toConnectionWorld.step (.construct con .msg true buffer_num) = some s ∧
            w' = { w with
              toConnectionWorld := s
              endpoint := Function.update w.endpoint con none
              posted := Function.update w.posted con []
              ids := con :: w.ids }
      | .open con none =>
          ∃ s, w.toConnectionWorld.step (.open con false) = some s ∧
            w' = { w with toConnectionWorld := s }
      | .open con (some (ep, conEq)) =>
          w.Fresh ep ∧ w.Fresh conEq ∧ ep ≠ conEq ∧
            ∃ s, w.toConnectionWorld.step (.open con true) = some s ∧
              w' = { w with
                toConnectionWorld := s
                fids := Function.update (Function.update w.fids ep (some (.connection con)))
                  conEq (some (.connection con))
                endpoint := Function.update w.endpoint con (some (ep, conEq)) }
      | .init_recv con r fab =>
          (∀ h ∈ fab.mr, w.Fresh h) ∧
            ∃ s, w.toConnectionWorld.step (.init_recv con r fab) = some s ∧
              w' = { ({ w with toConnectionWorld := s } : MrWorld).register (w.opens fab.mr) with
                posted := Function.update w.posted con
                  (((w.opens fab.mr).map Prod.fst).toList ++ w.posted con) }
      | .init_send con r fab =>
          (∀ h ∈ fab.mr, w.Fresh h) ∧
            ∃ s, w.toConnectionWorld.step (.init_send con r fab) = some s ∧
              w' = ({ w with toConnectionWorld := s } : MrWorld).register (w.opens fab.mr)
      | .activate_recv_chunk con ck =>
          (w.cons con).isSome ∧ ck ∈ w.posted con ∧
            w' = { w with toConnectionWorld := w.toConnectionWorld.stamp con ck none }
      | .send con ck size =>
          ∃ c, w.cons con = some c ∧ ck ∈ c.send_chunks ∧
            w' = { w with
              toConnectionWorld :=
                { w.toConnectionWorld with
                  mem := Function.update w.mem ck
                    { w.mem ck with con := con, size := size } } }
      | .destroy con =>
          ∃ s, w.toConnectionWorld.step (.destroy con (fun _ => 0) fun _ => 0) = some s ∧
            w' = { w with
              toConnectionWorld := s
              fids := w.closed con
              endpoint := Function.update w.endpoint con none
              posted := Function.update w.posted con [] }
      | .finish =>
          w' = { w with
            fids := fun h => if w.fids h = some .stack then none else w.fids h
            finished := true } := by
  unfold step at hstep
  split at hstep
  · cases hstep
  rename_i hfinished
  refine ⟨eq_false_of_ne_true hfinished, ?_⟩
  cases op with
  | set_buffer ck buffer size buffer_id => exact stepConnection_eq_some hstep
  | construct con buffer_num =>
    obtain ⟨v, hv, rfl⟩ := Option.map_eq_some_iff.mp hstep
    obtain ⟨s, hs, rfl⟩ := stepConnection_eq_some hv
    exact ⟨s, hs, rfl⟩
  | «open» con fids =>
    cases fids with
    | none => exact stepConnection_eq_some hstep
    | some p =>
      obtain ⟨ep, conEq⟩ := p
      dsimp only at hstep
      split at hstep
      · rename_i hfresh
        obtain ⟨v, hv, rfl⟩ := Option.map_eq_some_iff.mp hstep
        obtain ⟨s, hs, rfl⟩ := stepConnection_eq_some hv
        exact ⟨hfresh.1, hfresh.2.1, hfresh.2.2, s, hs, rfl⟩
      · cases hstep
  | init_recv con r fab =>
    dsimp only at hstep
    split at hstep
    · rename_i hfresh
      obtain ⟨v, hv, rfl⟩ := Option.map_eq_some_iff.mp hstep
      obtain ⟨s, hs, rfl⟩ := stepConnection_eq_some hv
      exact ⟨hfresh, s, hs, rfl⟩
    · cases hstep
  | init_send con r fab =>
    dsimp only at hstep
    split at hstep
    · rename_i hfresh
      obtain ⟨v, hv, rfl⟩ := Option.map_eq_some_iff.mp hstep
      obtain ⟨s, hs, rfl⟩ := stepConnection_eq_some hv
      exact ⟨hfresh, s, hs, rfl⟩
    · cases hstep
  | activate_recv_chunk con ck =>
    dsimp only at hstep
    split at hstep
    · rename_i hin
      cases hstep
      exact ⟨hin.1, hin.2, rfl⟩
    · cases hstep
  | send con ck size =>
    obtain ⟨c, hc, hstep⟩ := Option.bind_eq_some_iff.mp hstep
    split at hstep
    · rename_i hin
      obtain ⟨s, hs, rfl⟩ := stepConnection_eq_some hstep
      simp only [ConnectionWorld.step] at hs
      split at hs
      · cases hs
        exact ⟨c, hc, hin, rfl⟩
      · cases hs
    · cases hstep
  | destroy con =>
    obtain ⟨v, hv, rfl⟩ := Option.map_eq_some_iff.mp hstep
    obtain ⟨s, hs, rfl⟩ := stepConnection_eq_some hv
    exact ⟨s, hs, rfl⟩
  | finish =>
    dsimp only at hstep
    split at hstep
    · exact (Option.some.inj hstep).symm
    · cases hstep

theorem inv_step (h : w.Inv) (hstep : w.step op = some w') : w'.Inv := by
  obtain ⟨-, hcase⟩ := step_cases hstep
  cases op with
  | set_buffer ck buffer size buffer_id =>
    obtain ⟨s, hs, rfl⟩ := hcase
    exact inv_set_buffer h hs
  | construct con buffer_num =>
    obtain ⟨s, hs, rfl⟩ := hcase
    exact inv_construct h hs
  | «open» con fids =>
    cases fids with
    | none =>
      obtain ⟨s, hs, rfl⟩ := hcase
      exact inv_open_failed h hs
    | some p =>
      obtain ⟨hep, heq, hne, s, hs, rfl⟩ := hcase
      exact inv_open h hep heq hne hs
  | init_recv con r fab =>
    obtain ⟨hfresh, s, hs, rfl⟩ := hcase
    refine inv_round h (round_recv h hs) hfresh (by simp) fun other a ha => ?_
    by_cases hother : other = con
    · rw [hother, Function.update_self, List.mem_append] at ha
      rw [hother]
      refine ha.symm.imp_right fun ha => ⟨rfl, ?_⟩
      simpa using ha
    · rw [Function.update_of_ne hother] at ha
      exact Or.inl ha
  | init_send con r fab =>
    obtain ⟨hfresh, s, hs, rfl⟩ := hcase
    exact inv_round h (round_send h hs) hfresh (by simp) fun other a ha => Or.inl ha
  | activate_recv_chunk con ck =>
    obtain ⟨-, -, rfl⟩ := hcase
    exact inv_header h rfl
  | send con ck size =>
    obtain ⟨c, -, -, rfl⟩ := hcase
    exact inv_header h rfl
  | destroy con =>
    obtain ⟨s, hs, rfl⟩ := hcase
    exact inv_destroy h hs
  | finish =>
    rw [hcase]
    exact inv_finish h

/-- **What a step does to the regions**: none is closed, and one may be opened. -/
theorem regions_step (h : w.Inv) (hstep : w.step op = some w') :
    (∀ x a, w'.fids x = some (.region a) ↔
        w.fids x = some (.region a) ∨ w.obtains op = some (a, x)) ∧
      (∀ a x, w.obtains op = some (a, x) → w.fids x = none) ∧
      (w'.finished ↔ op = .finish) := by
  obtain ⟨hfinished, hcase⟩ := step_cases hstep
  have hnew : ∀ mr : Option Addr, (∀ x ∈ mr, w.Fresh x) →
      ∀ a x, w.opens mr = some (a, x) → w.fids x = none :=
    fun mr hfresh a x hx => (hfresh x (opens_eq_some hx)).2
  cases op with
  | set_buffer ck buffer size buffer_id =>
    obtain ⟨s, -, rfl⟩ := hcase
    simp [obtains, hfinished]
  | construct con buffer_num =>
    obtain ⟨s, -, rfl⟩ := hcase
    simp [obtains, hfinished]
  | «open» con fids =>
    cases fids with
    | none =>
      obtain ⟨s, -, rfl⟩ := hcase
      simp [obtains, hfinished]
    | some p =>
      obtain ⟨hep, heq, -, s, -, rfl⟩ := hcase
      simp [obtains, hfinished, region_open hep heq]
  | init_recv con r fab =>
    obtain ⟨hfresh, s, -, rfl⟩ := hcase
    exact ⟨fun x a => openRegion_iff (hnew fab.mr hfresh) x, hnew fab.mr hfresh,
      by simp [register, hfinished]⟩
  | init_send con r fab =>
    obtain ⟨hfresh, s, -, rfl⟩ := hcase
    exact ⟨fun x a => openRegion_iff (hnew fab.mr hfresh) x, hnew fab.mr hfresh,
      by simp [register, hfinished]⟩
  | activate_recv_chunk con ck =>
    obtain ⟨-, -, rfl⟩ := hcase
    simp [obtains, hfinished]
  | send con ck size =>
    obtain ⟨c, -, -, rfl⟩ := hcase
    simp [obtains, hfinished]
  | destroy con =>
    obtain ⟨s, -, rfl⟩ := hcase
    simp [obtains, hfinished, region_closed h]
  | finish =>
    rw [hcase]
    exact ⟨fun x a => (finish_eq_some (by simp)).trans (by simp [obtains]), by simp [obtains],
      by simp⟩

/-! ## The results -/

/-- **`ck->mr` is right when a chunk is posted or sent.** -/
theorem posts_of_inv (h : w.Inv) : w.Posts op := by
  intro ck hck w' hstep
  have h' : w'.Inv := inv_step h hstep
  have hhas : ∃ con, w'.Has con ck := by
    obtain ⟨-, hcase⟩ := step_cases hstep
    cases op with
    | init_recv con r fab =>
      obtain ⟨-, s, hs, rfl⟩ := hcase
      obtain ⟨c, c', -, hcons, -⟩ := (round_recv h hs).cons
      refine ⟨con, c', ?_, Or.inl ?_⟩
      · show s.cons con = some c'
        rw [hcons, Function.update_self]
      · have hnew : ck ∈ ((w.opens fab.mr).map Prod.fst).toList := Option.mem_toList.mpr hck
        show ck ∈ Function.update w.posted con _ con
        rw [Function.update_self]
        exact List.mem_append_left _ hnew
    | activate_recv_chunk con ck' =>
      obtain rfl : ck' = ck := Option.some.inj hck
      obtain ⟨hsome, hin, rfl⟩ := hcase
      obtain ⟨c, hc⟩ := Option.isSome_iff_exists.mp hsome
      exact ⟨con, c, hc, Or.inl hin⟩
    | send con ck' size =>
      obtain rfl : ck' = ck := Option.some.inj hck
      obtain ⟨c, hc, hin, rfl⟩ := hcase
      exact ⟨con, c, hc, Or.inr hin⟩
    | _ => cases hck
  obtain ⟨con, hhas⟩ := hhas
  exact (h'.has con ck hhas).2

/-- **A step keeps the regions accounted for exactly when it meets the condition.** -/
theorem right_iff (h : w.Inv) (hright : w.Right) (hstep : w.step op = some w') :
    w'.Right ↔ w.Guard op := by
  obtain ⟨hregions, hfresh, hfinished⟩ := regions_step h hstep
  constructor
  · rintro ⟨hone, hnone⟩
    constructor
    · intro ck x hx hck
      obtain ⟨y, hy⟩ := (h.registered ck).mp hck
      have hxy : x = y :=
        hone x y ck ((hregions x ck).mpr (Or.inr hx)) ((hregions y ck).mpr (Or.inl hy))
      rw [← hxy, hfresh ck x hx] at hy
      cases hy
    · intro hop
      by_contra hne
      obtain ⟨ck, hck⟩ := List.exists_mem_of_ne_nil _ hne
      obtain ⟨x, hx⟩ := (h.registered ck).mp hck
      exact hnone (hfinished.mpr hop) x ck ((hregions x ck).mpr (Or.inl hx))
  · rintro ⟨hnew, hend⟩
    have hold : ∀ x y a, w.fids x = some (.region a) → w.obtains op ≠ some (a, y) :=
      fun x y a hx hy => hnew a y hy ((h.registered a).mpr ⟨x, hx⟩)
    refine ⟨fun x y a hx hy => ?_, fun hfin x a hx => ?_⟩
    · obtain hx | hx := (hregions x a).mp hx
      · obtain hy | hy := (hregions y a).mp hy
        · exact hright.1 x y a hx hy
        · exact absurd hy (hold x y a hx)
      · obtain hy | hy := (hregions y a).mp hy
        · exact absurd hx (hold y x a hy)
        · have heq := hx.symm.trans hy
          simpa using heq
    · have hop := hfinished.mp hfin
      subst hop
      obtain hx | hx := (hregions x a).mp hx
      · have hmem := (h.registered a).mpr ⟨x, hx⟩
        rw [hend rfl] at hmem
        cases hmem
      · cases hx

theorem fids_init (mem : Mem) (stack : List Addr) (x a : Addr) :
    (init mem stack).fids x ≠ some (.region a) := by
  intro hx
  replace hx : (if x ∈ stack then some FidOwner.stack else none) = some (.region a) := hx
  split at hx
  · cases hx
  · cases hx

theorem inv_init (mem : Mem) (stack : List Addr) : (init mem stack).Inv := by
  refine ⟨⟨{}, rfl⟩, ConnectionWorld.wf_init_external, fun con c hc => ?_,
    fun con ep conEq hep => ?_, fun con ck hck => ?_, fun ck => ⟨fun hck => ?_, fun hck => ?_⟩⟩
  · cases hc
  · cases hep
  · obtain ⟨c, hc, -⟩ := hck
    cases hc
  · cases hck
  · obtain ⟨x, hx⟩ := hck
    exact absurd hx (fids_init mem stack x ck)

end

/-- **The regions are accounted for in a run if and only if** no chunk is registered that has
been registered before, and none has been registered when the stack is destroyed. -/
theorem regions_accounted_iff (mem : Mem) (stack : List Addr) (ops : List MrOp) :
    Always step Right (init mem stack) ops ∧ Meets step Posts (init mem stack) ops ↔
      Meets step Guard (init mem stack) ops := by
  have hposts : Meets step Posts (init mem stack) ops :=
    meets_of_meets (fun _ _ _ h _ ht => inv_step h ht) (fun _ _ _ h _ _ => posts_of_inv h)
      (inv_init mem stack) ops (meets_true _ ops)
  have hright : (init mem stack).Right :=
    ⟨fun x y a hx => absurd hx (fids_init mem stack x a), fun _ x a => fids_init mem stack x a⟩
  have hsound : ∀ w : MrWorld, w.Inv ∧ w.Right → w.Right := fun _ h => h.2
  have hkeep : ∀ (w : MrWorld) op w', w.Inv ∧ w.Right → w.Guard op → w.step op = some w' →
      w'.Inv ∧ w'.Right :=
    fun _ _ _ h hg ht => ⟨inv_step h.1 ht, (right_iff h.1 h.2 ht).mpr hg⟩
  have hsharp : ∀ (w : MrWorld) op w', w.Inv ∧ w.Right → w.step op = some w' → w'.Right →
      w.Guard op :=
    fun _ _ _ h ht hr => (right_iff h.1 h.2 ht).mp hr
  have hiff : Always step Right (init mem stack) ops ↔ Meets step Guard (init mem stack) ops :=
    always_iff_meets hsound hkeep hsharp ⟨inv_init mem stack, hright⟩ ops
  exact ⟨fun h => hiff.mp h.1, fun h => ⟨hiff.mpr h, hposts⟩⟩

/-- An external manager does not look at the answer. -/
def noReply : GetReply := ⟨⟨nullptr, none⟩, ⟨nullptr, none⟩, nullptr⟩

/-- Two connections, one after the other; the second takes the send chunk of the first. -/
def churnRun : List MrOp :=
  [.set_buffer 100 1000 8 0, .set_buffer 200 2000 8 1,
    .construct 1 1, .open 1 (some (11, 12)), .init_recv 1 noReply ⟨some 13, true⟩,
    .init_send 1 noReply ⟨some 14, true⟩, .destroy 1,
    .construct 2 1, .open 2 (some (21, 22)), .init_recv 2 noReply ⟨some 23, true⟩,
    .init_send 2 noReply ⟨some 24, true⟩, .destroy 2, .finish]

/-- The chunk that both have had is left with two regions. -/
theorem not_accounted_churn :
    ¬ (Always step Right (init (fun _ => {}) [1, 2]) churnRun ∧
      Meets step Posts (init (fun _ => {}) [1, 2]) churnRun) := by
  rintro ⟨h, -⟩
  have hrun : (run step (init (fun _ => {}) [1, 2]) churnRun).map
      (fun t => (t.finished, t.fids 14, t.fids 23)) =
        some (true, some (.region 100), some (.region 100)) := by
    decide +kernel
  obtain ⟨t, ht, hfields⟩ := Option.map_eq_some_iff.mp hrun
  simp only [Prod.mk.injEq] at hfields
  exact (h.last ht).2 hfields.1 14 100 hfields.2.1

end MrWorld

end Hpnl
