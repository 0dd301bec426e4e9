import Hpnl.ChunkMgr

/-!
# When the set-up of an RDM service fails

`RdmStack::bind` and `get_con` drop what `RdmConnection::init` returns, and
`ExternalRdmService::init` what `RdmStack::init` and the demultiplexer return.  The loop of
`RdmConnection::init` passes over a chunk that the manager does not have.

* `RdmConnection`, `InitEnd`, `init` — a connection and its set-up, every call of which may
  fail; `RdmStack.bind`, `RdmStack.get_con`, `ExternalRdmService.init` — the calls of the user.
* `Complete` — a connection that is set up; `supply` — the chunks that a manager has for the
  rounds of the loop.
* `SetUpOk`, `ServiceOk` — a call that fails says so and publishes nothing.
* `complete_iff` — a connection is complete when every call succeeds and the manager has a
  chunk each time.
* `setUp_iff` — **the calls of the user are right if and only if** nothing fails after the
  connection has been made.
-/

namespace Hpnl
namespace RdmInit

/-! ## `RdmConnection::init` -/

/-- What the environment does in one round of the loop: what a pool answers to its calls of
`get`, and whether `fi_recv` accepts. -/
structure RoundReply where
  recv : GetReply
  accepted : Bool
  send : GetReply

/-- Which calls of `init` succeed; `hints` is whether `fi_allocinfo()` has memory, and `inserted`
is `fi_av_insert(...) == 1`. -/
structure InitReply where
  hints : Bool
  getinfo : Bool
  endpoint : Bool
  av_open : Bool
  bind_cq : Bool
  bind_av : Bool
  enable : Bool
  getname : Bool
  inserted : Bool
  rounds : ℕ → RoundReply

/-- An `RdmConnection`: how far its endpoint is set up, the chunks posted as receives, and its
send chunks. -/
structure RdmConnection extends ConnectionImpl where
  buffer_num : Int32
  is_server : Bool
  external_service : Bool
  info : Bool
  ep : Bool := false
  av : Bool := false
  cq_bound : Bool := false
  av_bound : Bool := false
  enabled : Bool := false
  local_name : Bool := false
  address_map : Bool := false
  posted : List Addr := []
  send_chunks : List Addr := []
  send_chunks_map : StdMap ℤ Addr := ∅

/-- The connection with its chunk manager and the memory. -/
structure State where
  mgr : ChunkMgr
  mem : Mem
  con : RdmConnection

/-- How a part of `init` ends: the process dies at a null pointer or an assertion, `init`
returns -1, or it goes on. -/
inductive InitEnd where
  | died
  | failed (s : State)
  | done (s : State)

namespace InitEnd

def bind : InitEnd → (State → InitEnd) → InitEnd
  | died, _ => died
  | failed s, _ => failed s
  | done s, f => f s

/-- The state that is left, whatever `init` returns. -/
def state? : InitEnd → Option State
  | died => none
  | failed s => some s
  | done s => some s

end InitEnd

/-- `init` up to the loop.  The hints of a client are written to without a test, `fi_getname` is
called without a look at its result, and `fi_av_insert` in an `assert`. -/
def openEndpoint (s : State) (r : InitReply) : InitEnd :=
  let c := s.con
  if c.is_server = false ∧ r.hints = false then .died
  else if c.is_server = false ∧ r.getinfo = false then .failed s
  else
    let c := { c with info := true }
    if r.endpoint = false then .failed { s with con := c }
    else
      let c := { c with ep := true }
      if r.av_open = false then .failed { s with con := c }
      else
        let c := { c with av := true }
        if r.bind_cq = false then .failed { s with con := c }
        else
          let c := { c with cq_bound := true }
          if r.bind_av = false then .failed { s with con := c }
          else
            let c := { c with av_bound := true }
            if r.enable = false then .failed { s with con := c }
            else
              let c := { c with enabled := true, local_name := r.getname }
              if c.is_server then .done { s with con := c }
              else if r.inserted = false then .died
              else .done { s with con := { c with address_map := true } }

/-- A chunk has been taken for a receive: `rck->con = this`. -/
def taken (this : ConId) (s : State) (x : ChunkMgr × Mem × ConnectionImpl × Addr) : State :=
  { mgr := x.1
    mem := Function.update x.2.1 x.2.2.2 { x.2.1 x.2.2.2 with con := this }
    con := { s.con with toConnectionImpl := x.2.2.1 } }

/-- The receive has been posted. -/
def postedRecv (this : ConId) (s : State) (x : ChunkMgr × Mem × ConnectionImpl × Addr) : State :=
  { taken this s x with
    con := { (taken this s x).con with posted := s.con.posted ++ [x.2.2.2] } }

/-- A send chunk has been taken. -/
def takenSend (s : State) (x : ChunkMgr × Mem × ConnectionImpl × Addr) : State :=
  { mgr := x.1
    mem := x.2.1
    con := { s.con with
      toConnectionImpl := x.2.2.1
      send_chunks := s.con.send_chunks ++ [x.2.2.2]
      send_chunks_map := s.con.send_chunks_map.insertNew (x.2.1 x.2.2.2).key x.2.2.2 } }

/-- The receive chunk of a round. -/
def postRecv (this : ConId) (s : State) (r : RoundReply) : InitEnd :=
  if s.mgr.free_size = 0 then .done s
  else
    match s.mgr.get s.mem s.con.toConnectionImpl r.recv with
    | none => .died
    | some x =>
        if x.2.2.2 = nullptr then .died
        else if r.accepted then .done (postedRecv this s x)
        else .failed (taken this s x)

/-- The send chunk of a round. -/
def takeSend (s : State) (r : RoundReply) : InitEnd :=
  if s.con.external_service = false ∨ s.mgr.free_size = 0 then .done s
  else
    match s.mgr.get s.mem s.con.toConnectionImpl r.send with
    | none => .died
    | some x => if x.2.2.2 = nullptr then .died else .done (takenSend s x)

/-- The loop, round by round. -/
def loop (this : ConId) : List RoundReply → State → InitEnd
  | [], s => .done s
  | r :: rs, s => ((postRecv this s r).bind fun s => takeSend s r).bind (loop this rs)

/-- The rounds of `while (size < buffer_num)`. -/
def rounds (buffer_num : Int32) (r : InitReply) : List RoundReply :=
  (List.range buffer_num.toInt.toNat).map r.rounds

/-- `RdmConnection::init`. -/
def init (this : ConId) (s : State) (r : InitReply) : InitEnd :=
  (openEndpoint s r).bind (loop this (rounds s.con.buffer_num r))

/-! ## The calls of the user -/

/-- An `RdmStack`, as far as set-up goes: whether its queue is open, and the connections it has
published. -/
structure RdmStack where
  buffer_num : Int32
  is_server : Bool
  external_service : Bool
  cq : Bool := false
  initialized : Bool := false
  server_con : Option ConId := none
  cons : List ConId := []

/-- Which calls of `RdmStack::init` and of the demultiplexer's `init` succeed; `hints` is whether
`fi_allocinfo()` has memory. -/
structure ServiceReply where
  hints : Bool
  getinfo : Bool
  fabric : Bool
  domain : Bool
  cq_open : Bool
  getwait : Bool
  epoll_ctl : Bool

/-- What `bind` and `get_con` meet: whether `fi_allocinfo()` and `fi_getinfo` of `bind` succeed,
the address of the new connection, and what happens in its `init`. -/
structure CallReply where
  hints : Bool
  getinfo : Bool
  con : ConId
  init : InitReply

/-- What a call of `bind` or `get_con` leaves: the stack, and the connection it returns, if that
is not null. -/
structure CallEnd where
  stack : RdmStack
  result : Option (ConId × RdmConnection)

namespace RdmStack

/-- `RdmStack::init`; `none` when the process dies at the hints. -/
def init (s : RdmStack) (r : ServiceReply) : Option (ℤ × RdmStack) :=
  if r.hints = false then none
  else if r.getinfo = false ∨ r.fabric = false ∨ r.domain = false ∨ r.cq_open = false then
    some (-1, s)
  else some (0, { s with cq := true, initialized := true })

/-- A connection as it is constructed. -/
def construct (s : RdmStack) (is_server info : Bool) : RdmConnection :=
  { buffer_num := s.buffer_num
    is_server := is_server
    external_service := s.external_service
    info := info }

/-- `RdmStack::bind`; `none` when the process dies, and `buf_mgr` is `none` for a null
pointer. -/
def bind (s : RdmStack) (ip port : Bool) (buf_mgr : Option ChunkMgr) (mem : Mem) (r : CallReply) :
    Option CallEnd :=
  match buf_mgr with
  | none => some ⟨s, none⟩
  | some mgr =>
      if s.initialized = false ∨ ip = false ∨ port = false then some ⟨s, none⟩
      else if r.hints = false then none
      else if r.getinfo = false then some ⟨s, none⟩
      else
        (RdmInit.init r.con ⟨mgr, mem, s.construct true true⟩ r.init).state?.map fun t =>
          ⟨{ s with server_con := some r.con, cons := s.cons ++ [r.con] }, some (r.con, t.con)⟩

/-- `RdmStack::get_con`. -/
def get_con (s : RdmStack) (ip port : Bool) (buf_mgr : Option ChunkMgr) (mem : Mem)
    (r : CallReply) : Option CallEnd :=
  match buf_mgr with
  | none => some ⟨s, none⟩
  | some mgr =>
      if s.initialized = false ∨ ip = false ∨ port = false then some ⟨s, none⟩
      else
        (RdmInit.init r.con ⟨mgr, mem, s.construct false false⟩ r.init).state?.map fun t =>
          ⟨{ s with cons := s.cons ++ [r.con] }, some (r.con, t.con)⟩

end RdmStack

/-- An `ExternalRdmService`: its stack, and whether its demultiplexer watches the queue. -/
structure ExternalRdmService where
  stack : RdmStack
  watching : Bool

/-- `ExternalRdmCqDemultiplexer::init`: `none` when the queue is null, which `fi_control`
dereferences. -/
def demultiplexerInit (stack : RdmStack) (r : ServiceReply) : Option (ℤ × Bool) :=
  if stack.cq = false then none
  else if r.getwait = false ∨ r.epoll_ctl = false then some (-1, false)
  else some (0, true)

/-- `ExternalRdmService::init`. -/
def ExternalRdmService.init (buffer_num : Int32) (is_server : Bool) (r : ServiceReply) :
    Option (ℤ × ExternalRdmService) :=
  let stack : RdmStack :=
    { buffer_num := buffer_num, is_server := is_server, external_service := true }
  (stack.init r).bind fun (_, stack) =>
    (demultiplexerInit stack r).map fun (_, watching) => (0, ⟨stack, watching⟩)

/-! ## What the user relies on -/

/-- The endpoint of a connection is set up: every call of `init` before the loop has gone
through. -/
def Opened (c : RdmConnection) : Prop :=
  c.info = true ∧ c.ep = true ∧ c.av = true ∧ c.cq_bound = true ∧ c.av_bound = true ∧
    c.enabled = true ∧ c.local_name = true ∧ (c.is_server = false → c.address_map = true)

/-- **A connection that is set up**: its endpoint is, it has `buffer_num` receives, and for an
external service `buffer_num` send chunks, the same in `send_chunks` and
`send_chunks_map`. -/
structure Complete (c : RdmConnection) : Prop where
  opened : Opened c
  posted : (c.posted.length : ℤ) = c.buffer_num.toInt
  sends : c.external_service = true → (c.send_chunks.length : ℤ) = c.buffer_num.toInt
  same : c.external_service = true →
    (c.send_chunks_map.entries.map Prod.snd).Perm c.send_chunks

/-- **`bind` and `get_con` are right**: they return a connection that is set up, or null and
have published nothing. -/
def SetUpOk (s : RdmStack) : Option CallEnd → Prop
  | none => False
  | some ⟨t, none⟩ => t.cons = s.cons ∧ t.server_con = s.server_con
  | some ⟨_, some (_, c)⟩ => Complete c

/-- **`ExternalRdmService::init` is right**: it reports a failure, or the service is set up. -/
def ServiceOk : Option (ℤ × ExternalRdmService) → Prop
  | none => False
  | some (res, s) => res ≠ 0 ∨ s.stack.initialized = true ∧ s.watching = true

/-! ## When that is so -/

/-- Every call of `init` before the loop succeeds. -/
structure EndpointOk (is_server : Bool) (r : InitReply) : Prop where
  hints : is_server = false → r.hints = true
  getinfo : is_server = false → r.getinfo = true
  endpoint : r.endpoint = true
  av_open : r.av_open = true
  bind_cq : r.bind_cq = true
  bind_av : r.bind_av = true
  enable : r.enable = true
  getname : r.getname = true
  inserted : is_server = false → r.inserted = true

/-- Every fabric call of `init` succeeds. -/
def FabricOk (c : RdmConnection) (r : InitReply) : Prop :=
  EndpointOk c.is_server r ∧ ∀ r' ∈ rounds c.buffer_num r, r'.accepted = true

/-- A chunk that the manager has for a connection. -/
def draw (mgr : ChunkMgr) (mem : Mem) (con : ConnectionImpl) (r : GetReply) :
    Option (ChunkMgr × Mem × ConnectionImpl × Addr) :=
  if mgr.free_size = 0 then none
  else (mgr.get mem con r).filter fun x => x.2.2.2 ≠ nullptr

/-- The send chunks, with their ids, that a manager has when it has a chunk each time: one for
each receive and, for an external service, one for each send. -/
def supply (external_service : Bool) :
    List RoundReply → ChunkMgr → Mem → ConnectionImpl → Option (List (Addr × ℤ))
  | [], _, _, _ => some []
  | r :: rs, mgr, mem, con =>
      (draw mgr mem con r.recv).bind fun (mgr, mem, con, _) =>
        if external_service then
          (draw mgr mem con r.send).bind fun (mgr, mem, con, ck) =>
            (supply external_service rs mgr mem con).map ((ck, (mem ck).key) :: ·)
        else supply external_service rs mgr mem con

/-- **The condition on the chunk manager**: it has a chunk for each of the `buffer_num` receives
and sends, and the send chunks have different ids. -/
def Supplied (c : RdmConnection) (mgr : ChunkMgr) (mem : Mem) (r : InitReply) : Prop :=
  0 ≤ c.buffer_num.toInt ∧
    ∃ sends, supply c.external_service (rounds c.buffer_num r) mgr mem c.toConnectionImpl =
      some sends ∧ (sends.map Prod.snd).Nodup

/-- **The condition for a connection.** -/
def InitOk (c : RdmConnection) (mgr : ChunkMgr) (mem : Mem) (r : InitReply) : Prop :=
  FabricOk c r ∧ Supplied c mgr mem r

/-! ## Taking chunks -/

/-- Two memories in which the chunks have the same ids. -/
def SameIds (m m' : Mem) : Prop := ∀ a, (m a).buffer_id = (m' a).buffer_id

theorem SameIds.symm {m m' : Mem} (h : SameIds m m') : SameIds m' m := fun a => (h a).symm

theorem SameIds.key {m m' : Mem} (h : SameIds m m') (a : Addr) : (m a).key = (m' a).key := by
  unfold Chunk.key
  rw [h a]

/-- What `get` hands out depends neither on the connection nor, but for the ids, on what the
memory holds. -/
theorem get_congr {mgr mgr' : ChunkMgr} {m m₁ m' : Mem} {c c₁ : ConnectionImpl} {r : GetReply}
    {ck : Addr} (hm : SameIds m m₁) (c' : ConnectionImpl)
    (h : mgr.get m c r = some (mgr', m', c₁, ck)) :
    ∃ m₁' c₁', mgr.get m₁ c' r = some (mgr', m₁', c₁', ck) ∧ SameIds m' m₁' := by
  cases mgr with
  | pool p =>
    obtain ⟨⟨p', m₂, c₂, a⟩, hp, heq⟩ := Option.map_eq_some_iff.mp h
    unfold ChunkPool.get at hp
    dsimp only at hp
    split at hp
    · cases hp
    rename_i hne
    cases hp
    cases heq
    refine ⟨((p.malloc r.reply r.retry r.pick).1.prepare m₁ (p.malloc r.reply r.retry r.pick).2).2,
      c'.log_used_chunk m₁ (p.malloc r.reply r.retry r.pick).2, ?_, fun b => ?_⟩
    · show (p.get m₁ (some c') r.reply r.retry r.pick).map _ = _
      unfold ChunkPool.get
      dsimp only
      rw [if_neg hne, Option.map_some]
      rfl
    · unfold ChunkPool.prepare
      dsimp only
      by_cases hb : b = (p.malloc r.reply r.retry r.pick).2
      · rw [hb, Function.update_self, Function.update_self]
      · rw [Function.update_of_ne hb, Function.update_of_ne hb]
        exact hm b
  | external m₀ =>
    obtain ⟨rfl, -, hbufs⟩ := ChunkMgr.get_external_iff.mp h
    exact ⟨m₁, c', ChunkMgr.get_external_iff.mpr ⟨rfl, rfl, hbufs⟩, hm⟩

theorem draw_eq_some {mgr : ChunkMgr} {m : Mem} {c : ConnectionImpl} {r : GetReply}
    {x : ChunkMgr × Mem × ConnectionImpl × Addr} : draw mgr m c r = some x ↔
      mgr.free_size ≠ 0 ∧ mgr.get m c r = some x ∧ x.2.2.2 ≠ nullptr := by
  unfold draw
  split
  · rename_i h
    exact ⟨fun h' => absurd h' (by simp), fun h' => absurd h h'.1⟩
  · rename_i h
    rw [Option.filter_eq_some_iff]
    simp [h]

theorem draw_congr {mgr mgr' : ChunkMgr} {m m₁ m' : Mem} {c c₁ : ConnectionImpl} {r : GetReply}
    {ck : Addr} (hm : SameIds m m₁) (c' : ConnectionImpl)
    (h : draw mgr m c r = some (mgr', m', c₁, ck)) :
    ∃ m₁' c₁', draw mgr m₁ c' r = some (mgr', m₁', c₁', ck) ∧ SameIds m' m₁' := by
  obtain ⟨hfree, hget, hck⟩ := draw_eq_some.mp h
  obtain ⟨m₁', c₁', hget', hsame⟩ := get_congr hm c' hget
  exact ⟨m₁', c₁', draw_eq_some.mpr ⟨hfree, hget', hck⟩, hsame⟩

/-- So the chunks that a manager has do not depend on them either. -/
theorem supply_congr (ext : Bool) (rs : List RoundReply) : ∀ {mgr : ChunkMgr} {m m' : Mem}
    {c c' : ConnectionImpl} {sends : List (Addr × ℤ)}, SameIds m m' →
      supply ext rs mgr m c = some sends → supply ext rs mgr m' c' = some sends := by
  induction rs with
  | nil => intro mgr m m' c c' sends _ h; exact h
  | cons r rs ih =>
    intro mgr m m' c c' sends hm h
    obtain ⟨⟨mgr₁, m₁, c₁, ck⟩, hrecv, h⟩ := Option.bind_eq_some_iff.mp h
    obtain ⟨m₁', c₁', hrecv', hm₁⟩ := draw_congr hm c' hrecv
    refine Option.bind_eq_some_iff.mpr ⟨_, hrecv', ?_⟩
    dsimp only at h ⊢
    cases ext with
    | false =>
      rw [if_neg (by simp)] at h ⊢
      exact ih hm₁ h
    | true =>
      rw [if_pos rfl] at h ⊢
      obtain ⟨⟨mgr₂, m₂, c₂, ck₂⟩, hsend, h⟩ := Option.bind_eq_some_iff.mp h
      obtain ⟨m₂', c₂', hsend', hm₂⟩ := draw_congr hm₁ c₁' hsend
      refine Option.bind_eq_some_iff.mpr ⟨_, hsend', ?_⟩
      dsimp only at h ⊢
      obtain ⟨rest, hrest, rfl⟩ := Option.map_eq_some_iff.mp h
      rw [ih hm₂ hrest, Option.map_some, hm₂.key]

/-- The chunk that an external manager has for a connection is the last one of its vector. -/
theorem draw_external (bufs : List Addr) (map : StdMap ℤ Addr) (m : Mem) (c : ConnectionImpl)
    (r : GetReply) (hnull : nullptr ∉ bufs) (hlen : bufs.length < 2 ^ 31) :
    draw (.external ⟨bufs, map⟩) m c r =
      match bufs with
      | [] => none
      | ck :: rest => some (.external ⟨rest, map⟩, m, c, ck) := by
  have hfree : (ChunkMgr.external ⟨bufs, map⟩).free_size = bufs.length := by
    show MachineInt.toInt32 (bufs.length : ℤ) = bufs.length
    exact MachineInt.toInt32_eq_self (by omega) (by omega)
  cases bufs with
  | nil => exact if_pos hfree
  | cons ck rest =>
    have hne : (ChunkMgr.external ⟨ck :: rest, map⟩).free_size ≠ 0 := by
      rw [hfree, List.length_cons]
      omega
    have hck : ck ≠ nullptr := fun heq => hnull (heq ▸ List.mem_cons_self)
    exact draw_eq_some.mpr ⟨hne, rfl, hck⟩

/-- **An external manager has a chunk each time** when its vector is long enough: for an external
service, with two chunks for each round. -/
theorem supply_external (ext : Bool) (rs : List RoundReply) : ∀ (bufs : List Addr)
    (map : StdMap ℤ Addr) (m : Mem) (c : ConnectionImpl), nullptr ∉ bufs → bufs.length < 2 ^ 31 →
      ((supply ext rs (.external ⟨bufs, map⟩) m c).isSome ↔
        (if ext then 2 else 1) * rs.length ≤ bufs.length) := by
  induction rs with
  | nil => intro bufs map m c _ _; simp [supply]
  | cons r rs ih =>
    intro bufs map m c hnull hlen
    unfold supply
    rw [draw_external bufs map m c r.recv hnull hlen]
    cases bufs with
    | nil => cases ext <;> simp
    | cons ck rest =>
      rw [List.length_cons] at hlen
      have hrest : nullptr ∉ rest := fun h => hnull (List.mem_cons_of_mem _ h)
      dsimp only [Option.bind_some]
      cases ext with
      | false =>
        rw [if_neg (by simp), ih rest map m c hrest (by omega)]
        simp
      | true =>
        rw [if_pos rfl, draw_external rest map m c r.send hrest (by omega)]
        cases rest with
        | nil =>
          refine iff_of_false (by simp) ?_
          simp only [if_true, List.length_cons, List.length_nil]
          omega
        | cons ck' rest =>
          rw [List.length_cons] at hlen
          have hrest' : nullptr ∉ rest := fun h => hrest (List.mem_cons_of_mem _ h)
          dsimp only [Option.bind_some]
          rw [Option.isSome_map, ih rest map m c hrest' (by omega)]
          simp only [if_true, List.length_cons]
          omega

/-! ## One round -/

variable {this : ConId} {s t : State} {r : RoundReply}

/-- The receive chunk of a round: posted, or refused, or there is none. -/
theorem postRecv_cases (this : ConId) (s : State) (r : RoundReply) :
    (∃ x, draw s.mgr s.mem s.con.toConnectionImpl r.recv = some x ∧
        postRecv this s r =
          if r.accepted then .done (postedRecv this s x) else .failed (taken this s x)) ∨
      draw s.mgr s.mem s.con.toConnectionImpl r.recv = none ∧
        (postRecv this s r = .done s ∨ postRecv this s r = .died) := by
  unfold postRecv draw
  by_cases hfree : s.mgr.free_size = 0
  · rw [if_pos hfree, if_pos hfree]
    exact Or.inr ⟨rfl, Or.inl rfl⟩
  rw [if_neg hfree, if_neg hfree]
  cases s.mgr.get s.mem s.con.toConnectionImpl r.recv with
  | none => exact Or.inr ⟨rfl, Or.inr rfl⟩
  | some x =>
    by_cases hck : x.2.2.2 = nullptr
    · refine Or.inr ⟨by simp [Option.filter, hck], Or.inr ?_⟩
      dsimp only
      rw [if_pos hck]
    · refine Or.inl ⟨x, by simp [Option.filter, hck], ?_⟩
      dsimp only
      rw [if_neg hck]

/-- The send chunk of a round: taken, or there is none; without an external service there is
nothing to do. -/
theorem takeSend_cases (s : State) (r : RoundReply) :
    (s.con.external_service = false ∧ takeSend s r = .done s) ∨
      s.con.external_service = true ∧
        ((∃ x, draw s.mgr s.mem s.con.toConnectionImpl r.send = some x ∧
            takeSend s r = .done (takenSend s x)) ∨
          draw s.mgr s.mem s.con.toConnectionImpl r.send = none ∧
            (takeSend s r = .done s ∨ takeSend s r = .died)) := by
  unfold takeSend draw
  cases hext : s.con.external_service with
  | false => exact Or.inl ⟨rfl, by simp⟩
  | true =>
    refine Or.inr ⟨rfl, ?_⟩
    by_cases hfree : s.mgr.free_size = 0
    · rw [if_pos hfree, if_pos (Or.inr hfree)]
      exact Or.inr ⟨rfl, Or.inl rfl⟩
    rw [if_neg hfree, if_neg (by simp [hfree])]
    cases s.mgr.get s.mem s.con.toConnectionImpl r.send with
    | none => exact Or.inr ⟨rfl, Or.inr rfl⟩
    | some x =>
      by_cases hck : x.2.2.2 = nullptr
      · refine Or.inr ⟨by simp [Option.filter, hck], Or.inr ?_⟩
        dsimp only
        rw [if_pos hck]
      · refine Or.inl ⟨x, by simp [Option.filter, hck], ?_⟩
        dsimp only
        rw [if_neg hck]

/-! ## The loop -/

/-- The chunks of a list with their ids, entered one after the other. -/
def entered (sends : List (Addr × ℤ)) (m : StdMap ℤ Addr) : StdMap ℤ Addr :=
  sends.foldl (fun m e => m.insertNew e.2 e.1) m

theorem sameIds_postedRecv (this : ConId) (s : State)
    (x : ChunkMgr × Mem × ConnectionImpl × Addr) : SameIds x.2.1 (postedRecv this s x).mem := by
  intro a
  show (x.2.1 a).buffer_id = (Function.update x.2.1 x.2.2.2 _ a).buffer_id
  by_cases ha : a = x.2.2.2
  · rw [ha, Function.update_self]
  · rw [Function.update_of_ne ha]

/-- **With a chunk each time the loop goes through**, and takes the chunks there are. -/
theorem loop_of_supply (ext : Bool) (rs : List RoundReply) : ∀ {s : State}
    {sends : List (Addr × ℤ)}, s.con.external_service = ext → (∀ r ∈ rs, r.accepted = true) →
      supply ext rs s.mgr s.mem s.con.toConnectionImpl = some sends →
        ∃ t, loop this rs s = .done t ∧
          t.con.posted.length = s.con.posted.length + rs.length ∧
          t.con.send_chunks = s.con.send_chunks ++ sends.map Prod.fst ∧
          t.con.send_chunks_map = entered sends s.con.send_chunks_map ∧
          (ext = true → sends.length = rs.length) := by
  induction rs with
  | nil =>
    intro s sends _ _ h
    cases h
    exact ⟨s, rfl, rfl, (List.append_nil _).symm, rfl, fun _ => rfl⟩
  | cons r rs ih =>
    intro s sends hext hacc h
    rw [List.forall_mem_cons] at hacc
    obtain ⟨⟨mgr₁, m₁, c₁, ck⟩, hrecv, h⟩ := Option.bind_eq_some_iff.mp h
    set u := postedRecv this s (mgr₁, m₁, c₁, ck) with hu
    have hround : postRecv this s r = .done u := by
      obtain ⟨x, hx, heq⟩ | ⟨hnone, -⟩ := postRecv_cases this s r
      · obtain rfl := Option.some.inj (hrecv.symm.trans hx)
        rw [heq, if_pos hacc.1]
      · rw [hrecv] at hnone
        cases hnone
    have hposted : u.con.posted.length = s.con.posted.length + 1 := List.length_append
    have hids : SameIds m₁ u.mem := sameIds_postedRecv this s (mgr₁, m₁, c₁, ck)
    unfold loop
    rw [hround]
    show ∃ t, (takeSend u r).bind (loop this rs) = .done t ∧ _
    dsimp only at h
    cases ext with
    | false =>
      rw [if_neg (by simp)] at h
      have htake : takeSend u r = .done u := by
        obtain ⟨-, heq⟩ | ⟨htrue, -⟩ := takeSend_cases u r
        · exact heq
        · exact absurd (hext.symm.trans htrue) (by simp)
      rw [htake]
      obtain ⟨t, ht, hlen, hsends, hmap, -⟩ :=
        ih (s := u) hext hacc.2 (supply_congr false rs hids h)
      refine ⟨t, ht, ?_, hsends, hmap, fun hf => absurd hf (by simp)⟩
      rw [hlen, hposted, List.length_cons]
      omega
    | true =>
      rw [if_pos rfl] at h
      obtain ⟨⟨mgr₂, m₂, c₂, ck₂⟩, hsend, h⟩ := Option.bind_eq_some_iff.mp h
      obtain ⟨m₂', c₂', hsend', hids₂⟩ := draw_congr hids c₁ hsend
      obtain ⟨rest, hrest, rfl⟩ := Option.map_eq_some_iff.mp h
      have htake : takeSend u r = .done (takenSend u (mgr₂, m₂', c₂', ck₂)) := by
        obtain ⟨hfalse, -⟩ | ⟨-, ⟨x, hx, heq⟩ | ⟨hnone, -⟩⟩ := takeSend_cases u r
        · exact absurd (hext.symm.trans hfalse) (by simp)
        · have hsame : draw u.mgr u.mem u.con.toConnectionImpl r.send =
            some (mgr₂, m₂', c₂', ck₂) := hsend'
          obtain rfl := Option.some.inj (hsame.symm.trans hx)
          exact heq
        · have hsame : draw u.mgr u.mem u.con.toConnectionImpl r.send =
            some (mgr₂, m₂', c₂', ck₂) := hsend'
          rw [hsame] at hnone
          cases hnone
      rw [htake]
      obtain ⟨t, ht, hlen, hsends, hmap, hcount⟩ :=
        ih (s := takenSend u (mgr₂, m₂', c₂', ck₂)) hext hacc.2 (supply_congr true rs hids₂ hrest)
      refine ⟨t, ht, ?_, ?_, ?_, fun _ => ?_⟩
      · rw [hlen]
        show u.con.posted.length + rs.length = _
        rw [hposted, List.length_cons]
        omega
      · rw [hsends]
        show (s.con.send_chunks ++ [ck₂]) ++ rest.map Prod.fst = _
        rw [List.append_assoc]
        rfl
      · rw [hmap, hids₂.key]
        rfl
      · rw [List.length_cons, List.length_cons, hcount rfl]

/-- What no round changes. -/
def Kept (c c' : RdmConnection) : Prop :=
  c'.external_service = c.external_service ∧ c'.buffer_num = c.buffer_num ∧
    (Opened c' ↔ Opened c)

theorem Kept.trans {c c' c'' : RdmConnection} (h : Kept c c') (h' : Kept c' c'') : Kept c c'' :=
  ⟨h'.1.trans h.1, h'.2.1.trans h.2.1, h'.2.2.trans h.2.2⟩

/-- What the second half of a round can do when `init` goes on. -/
theorem done_takeSend (h : takeSend s r = .done t) :
    Kept s.con t.con ∧ t.con.posted = s.con.posted ∧
      (t = s ∨ s.con.external_service = true ∧ ∃ x,
        draw s.mgr s.mem s.con.toConnectionImpl r.send = some x ∧ t = takenSend s x) := by
  obtain ⟨-, heq⟩ | ⟨hext, ⟨x, hx, heq⟩ | ⟨-, heq | heq⟩⟩ := takeSend_cases s r
  · rw [heq] at h
    cases h
    exact ⟨⟨rfl, rfl, Iff.rfl⟩, rfl, Or.inl rfl⟩
  · rw [heq] at h
    cases h
    exact ⟨⟨rfl, rfl, Iff.rfl⟩, rfl, Or.inr ⟨hext, x, hx, rfl⟩⟩
  · rw [heq] at h
    cases h
    exact ⟨⟨rfl, rfl, Iff.rfl⟩, rfl, Or.inl rfl⟩
  · rw [heq] at h
    cases h

/-- What a round can do: `fi_recv` refuses and the loop ends, or it goes on. -/
theorem round_cases (rs : List RoundReply)
    (h : (loop this (r :: rs) s).state? = some t) :
    (∃ x, t = taken this s x) ∨ ∃ u v, (loop this rs v).state? = some t ∧
      takeSend u r = .done v ∧ (u = s ∨ r.accepted = true ∧ ∃ x,
        draw s.mgr s.mem s.con.toConnectionImpl r.recv = some x ∧ u = postedRecv this s x) := by
  have hgo : ∀ u, ((takeSend u r).bind (loop this rs)).state? = some t →
      ∃ v, (loop this rs v).state? = some t ∧ takeSend u r = .done v := by
    intro u hu
    obtain ⟨-, heq⟩ | ⟨-, ⟨x, -, heq⟩ | ⟨-, heq | heq⟩⟩ := takeSend_cases u r
    · exact ⟨u, by rwa [heq] at hu, heq⟩
    · exact ⟨_, by rwa [heq] at hu, heq⟩
    · exact ⟨u, by rwa [heq] at hu, heq⟩
    · rw [heq] at hu
      cases hu
  unfold loop at h
  obtain ⟨x, hx, heq⟩ | ⟨-, heq | heq⟩ := postRecv_cases this s r
  · by_cases hacc : r.accepted = true
    · rw [heq, if_pos hacc] at h
      obtain ⟨v, hv, htake⟩ := hgo (postedRecv this s x) h
      exact Or.inr ⟨_, v, hv, htake, Or.inr ⟨hacc, x, hx, rfl⟩⟩
    · rw [heq, if_neg hacc] at h
      cases h
      exact Or.inl ⟨x, rfl⟩
  · rw [heq] at h
    obtain ⟨v, hv, htake⟩ := hgo s h
    exact Or.inr ⟨s, v, hv, htake, Or.inl rfl⟩
  · rw [heq] at h
    cases h

/-- **The loop takes at most one chunk of each kind in a round**, and when it has taken one each
time, `fi_recv` has always accepted and the manager had them. -/
theorem supply_of_loop (rs : List RoundReply) : ∀ {s t : State},
    (loop this rs s).state? = some t → Kept s.con t.con ∧
      t.con.posted.length ≤ s.con.posted.length + rs.length ∧
      t.con.send_chunks.length ≤ s.con.send_chunks.length + rs.length ∧
      (t.con.posted.length = s.con.posted.length + rs.length →
        (s.con.external_service = true →
          t.con.send_chunks.length = s.con.send_chunks.length + rs.length) →
        (∀ r ∈ rs, r.accepted = true) ∧ ∃ sends,
          supply s.con.external_service rs s.mgr s.mem s.con.toConnectionImpl = some sends) := by
  induction rs with
  | nil =>
    intro s t h
    cases h
    exact ⟨⟨rfl, rfl, Iff.rfl⟩, le_refl _, le_refl _,
      fun _ _ => ⟨fun r hr => absurd hr List.not_mem_nil, [], rfl⟩⟩
  | cons r rs ih =>
    intro s t h
    rw [List.length_cons]
    obtain ⟨x, rfl⟩ | ⟨u, v, hv, htake, hrecv⟩ := round_cases rs h
    · -- the loop has ended early
      refine ⟨⟨rfl, rfl, Iff.rfl⟩, Nat.le_add_right _ _, Nat.le_add_right _ _, fun hlen => ?_⟩
      have hlen : s.con.posted.length = s.con.posted.length + (rs.length + 1) := hlen
      omega
    obtain ⟨hkept, hposted, hsends, hall⟩ := ih hv
    obtain ⟨hkept', hsame, hsend⟩ := done_takeSend htake
    have hu : Kept s.con u.con ∧ u.con.posted.length ≤ s.con.posted.length + 1 ∧
        u.con.send_chunks = s.con.send_chunks := by
      obtain rfl | ⟨-, x, -, rfl⟩ := hrecv
      · exact ⟨⟨rfl, rfl, Iff.rfl⟩, Nat.le_add_right _ _, rfl⟩
      · exact ⟨⟨rfl, rfl, Iff.rfl⟩, List.length_append.le, rfl⟩
    have hvsends : v.con.send_chunks.length ≤ u.con.send_chunks.length + 1 := by
      obtain rfl | ⟨-, y, -, rfl⟩ := hsend
      · exact Nat.le_add_right _ _
      · exact List.length_append.le
    rw [hu.2.2] at hvsends
    rw [hsame] at hposted hall
    refine ⟨hu.1.trans (hkept'.trans hkept), by omega, by omega, fun hlen hlen' => ?_⟩
    -- both halves of this round have taken a chunk, and so have all later ones
    have hext : v.con.external_service = s.con.external_service := hkept'.1.trans hu.1.1
    obtain ⟨hacc, sends, hsupply⟩ := hall (by omega) fun hv' => by
      have := hlen' (hext.symm.trans hv')
      omega
    obtain rfl | ⟨hr, x, hx, rfl⟩ := hrecv
    · omega
    refine ⟨List.forall_mem_cons.mpr ⟨hr, hacc⟩, ?_⟩
    have hids : SameIds (postedRecv this s x).mem x.2.1 := (sameIds_postedRecv this s x).symm
    obtain rfl | ⟨htrue, y, hy, rfl⟩ := hsend
    · have hfalse : s.con.external_service = false := by
        by_contra hne
        have hfull := hlen' (by simpa using hne)
        have hle : (postedRecv this s x).con.send_chunks.length = s.con.send_chunks.length := rfl
        omega
      refine ⟨sends, Option.bind_eq_some_iff.mpr ⟨x, hx, ?_⟩⟩
      dsimp only
      rw [hfalse, if_neg (by simp)]
      rw [hext, hfalse] at hsupply
      exact supply_congr false rs hids hsupply
    · have htrue' : s.con.external_service = true := htrue
      obtain ⟨mgr₂, m₂, c₂, ck₂⟩ := y
      obtain ⟨m₂', c₂', hsend', hids₂⟩ := draw_congr hids x.2.2.1 hy
      rw [hext, htrue'] at hsupply
      refine ⟨(ck₂, (m₂' ck₂).key) :: sends, Option.bind_eq_some_iff.mpr ⟨x, hx, ?_⟩⟩
      dsimp only
      rw [htrue', if_pos rfl]
      refine Option.bind_eq_some_iff.mpr ⟨(mgr₂, m₂', c₂', ck₂), hsend', ?_⟩
      exact Option.map_eq_some_iff.mpr ⟨sends, supply_congr true rs hids₂ hsupply, rfl⟩

/-! ## The endpoint -/

/-- A connection that has just been constructed. -/
abbrev start (mgr : ChunkMgr) (mem : Mem) (stack : RdmStack) (is_server : Bool) : State :=
  ⟨mgr, mem, stack.construct is_server is_server⟩

/-- The connection has taken no chunk yet. -/
structure Untouched (stack : RdmStack) (c : RdmConnection) : Prop where
  impl : c.toConnectionImpl = {}
  buffer_num : c.buffer_num = stack.buffer_num
  external_service : c.external_service = stack.external_service
  posted : c.posted = []
  send_chunks : c.send_chunks = []
  send_chunks_map : c.send_chunks_map = ∅

/-- **The endpoint is set up when every call succeeds**; otherwise the process dies, `init` ends
early, or the connection does not know its name. -/
theorem openEndpoint_cases (mgr : ChunkMgr) (mem : Mem) (stack : RdmStack) (is_server : Bool)
    (r : InitReply) :
    openEndpoint (start mgr mem stack is_server) r = .died ∧ ¬ EndpointOk is_server r ∨
      ∃ c, Untouched stack c ∧ (Opened c ↔ EndpointOk is_server r) ∧
        (openEndpoint (start mgr mem stack is_server) r = .failed ⟨mgr, mem, c⟩ ∧ ¬ Opened c ∨
          openEndpoint (start mgr mem stack is_server) r = .done ⟨mgr, mem, c⟩) := by
  -- a connection that is left early has not been enabled
  have hfail : ∀ {e : InitEnd} (c : RdmConnection), Untouched stack c → c.enabled = false →
      ¬ EndpointOk is_server r → e = .failed ⟨mgr, mem, c⟩ →
        e = .died ∧ ¬ EndpointOk is_server r ∨ ∃ c, Untouched stack c ∧
          (Opened c ↔ EndpointOk is_server r) ∧
          (e = .failed ⟨mgr, mem, c⟩ ∧ ¬ Opened c ∨ e = .done ⟨mgr, mem, c⟩) := by
    intro e c hc hen hno he
    have hopen : ¬ Opened c := fun h => absurd (hen.symm.trans h.2.2.2.2.2.1) (by simp)
    exact Or.inr ⟨c, hc, iff_of_false hopen hno, Or.inl ⟨he, hopen⟩⟩
  unfold openEndpoint
  dsimp only [start, RdmStack.construct]
  by_cases hhints : is_server = false ∧ r.hints = false
  · rw [if_pos hhints]
    exact Or.inl ⟨rfl, fun h => absurd (hhints.2.symm.trans (h.hints hhints.1)) (by simp)⟩
  rw [if_neg hhints]
  by_cases hinfo : is_server = false ∧ r.getinfo = false
  · rw [if_pos hinfo]
    exact hfail _ ⟨rfl, rfl, rfl, rfl, rfl, rfl⟩ rfl
      (fun h => absurd (hinfo.2.symm.trans (h.getinfo hinfo.1)) (by simp)) rfl
  rw [if_neg hinfo]
  by_cases hep : r.endpoint = false
  · rw [if_pos hep]
    exact hfail _ ⟨rfl, rfl, rfl, rfl, rfl, rfl⟩ rfl
      (fun h => absurd (hep.symm.trans h.endpoint) (by simp)) rfl
  rw [if_neg hep]
  by_cases hav : r.av_open = false
  · rw [if_pos hav]
    exact hfail _ ⟨rfl, rfl, rfl, rfl, rfl, rfl⟩ rfl
      (fun h => absurd (hav.symm.trans h.av_open) (by simp)) rfl
  rw [if_neg hav]
  by_cases hcq : r.bind_cq = false
  · rw [if_pos hcq]
    exact hfail _ ⟨rfl, rfl, rfl, rfl, rfl, rfl⟩ rfl
      (fun h => absurd (hcq.symm.trans h.bind_cq) (by simp)) rfl
  rw [if_neg hcq]
  by_cases hbav : r.bind_av = false
  · rw [if_pos hbav]
    exact hfail _ ⟨rfl, rfl, rfl, rfl, rfl, rfl⟩ rfl
      (fun h => absurd (hbav.symm.trans h.bind_av) (by simp)) rfl
  rw [if_neg hbav]
  by_cases hen : r.enable = false
  · rw [if_pos hen]
    exact hfail _ ⟨rfl, rfl, rfl, rfl, rfl, rfl⟩ rfl
      (fun h => absurd (hen.symm.trans h.enable) (by simp)) rfl
  rw [if_neg hen]
  simp only [Bool.not_eq_false, not_and, Bool.not_eq_false] at hhints hinfo hep hav hcq hbav hen
  cases is_server with
  | true =>
    rw [if_pos rfl]
    refine Or.inr ⟨_, ⟨rfl, rfl, rfl, rfl, rfl, rfl⟩, ⟨fun h => ?_, fun h => ?_⟩, Or.inr rfl⟩
    · exact ⟨hhints, hinfo, hep, hav, hcq, hbav, hen, h.2.2.2.2.2.2.1, fun hf => by cases hf⟩
    · exact ⟨rfl, rfl, rfl, rfl, rfl, rfl, h.getname, fun hf => by cases hf⟩
  | false =>
    rw [if_neg (by simp)]
    by_cases hins : r.inserted = false
    · rw [if_pos hins]
      exact Or.inl ⟨rfl, fun h => absurd (hins.symm.trans (h.inserted rfl)) (by simp)⟩
    · rw [if_neg hins]
      refine Or.inr ⟨_, ⟨rfl, rfl, rfl, rfl, rfl, rfl⟩, ⟨fun h => ?_, fun h => ?_⟩, Or.inr rfl⟩
      · exact ⟨hhints, hinfo, hep, hav, hcq, hbav, hen, h.2.2.2.2.2.2.1,
          fun _ => by simpa using hins⟩
      · exact ⟨rfl, rfl, rfl, rfl, rfl, rfl, h.getname, fun _ => rfl⟩

/-! ## `send_chunks_map` -/

theorem find?_entered (sends : List (Addr × ℤ)) (hnodup : (sends.map Prod.snd).Nodup) :
    ∀ (m : StdMap ℤ Addr), (∀ e ∈ sends, m.find? e.2 = none) → ∀ k ck,
      (entered sends m).find? k = some ck ↔ (ck, k) ∈ sends ∨ m.find? k = some ck := by
  induction sends with
  | nil => intro m _ k ck; simp [entered]
  | cons e sends ih =>
    intro m hfree k ck
    rw [List.map_cons, List.nodup_cons] at hnodup
    rw [List.forall_mem_cons] at hfree
    have hnext : ∀ e' ∈ sends, (m.insertNew e.2 e.1).find? e'.2 = none := by
      intro e' he'
      have hne : e.2 ≠ e'.2 := fun heq => hnodup.1 (heq ▸ List.mem_map_of_mem he')
      rw [StdMap.find?_insertNew_of_ne m e.1 hne]
      exact hfree.2 e' he'
    show (entered sends (m.insertNew e.2 e.1)).find? k = some ck ↔ _
    rw [ih hnodup.2 _ hnext, StdMap.find?_insertNew_eq_some hfree.1, List.mem_cons]
    have hhead : (ck, k) = e ↔ k = e.2 ∧ ck = e.1 := by
      rw [Prod.ext_iff]
      exact and_comm
    rw [hhead]
    tauto

/-- The ids in the map are those of the chunks that were entered. -/
theorem key_entered (sends : List (Addr × ℤ)) : ∀ (m : StdMap ℤ Addr) (k : ℤ) (ck : Addr),
    (entered sends m).find? k = some ck → k ∈ sends.map Prod.snd ∨ m.find? k = some ck := by
  induction sends with
  | nil => intro m k ck h; exact Or.inr h
  | cons e sends ih =>
    intro m k ck h
    rw [List.map_cons, List.mem_cons]
    obtain hk | hk := ih _ k ck h
    · exact Or.inl (Or.inr hk)
    by_cases hkey : e.2 = k
    · exact Or.inl (Or.inl hkey.symm)
    · rw [StdMap.find?_insertNew_of_ne m e.1 hkey] at hk
      exact Or.inr hk

/-- **Both members hold the same chunks when the ids differ**, and only then. -/
theorem entered_perm_iff (sends : List (Addr × ℤ)) :
    ((entered sends ∅).entries.map Prod.snd).Perm (sends.map Prod.fst) ↔
      (sends.map Prod.snd).Nodup := by
  constructor
  · intro hperm
    have hlen : ((entered sends ∅).entries.map Prod.fst).length = (sends.map Prod.snd).length := by
      have := hperm.length_eq
      rw [List.length_map, List.length_map] at this ⊢
      exact this
    have hsub : (entered sends ∅).entries.map Prod.fst ⊆ sends.map Prod.snd := by
      intro k hk
      obtain ⟨⟨j, ck⟩, he, rfl⟩ := List.mem_map.mp hk
      obtain hk | hk := key_entered sends ∅ j ck (StdMap.mem_entries.mp he)
      · exact hk
      · exact absurd hk (by simp)
    have hsubperm := (StdMap.entries_keys_nodup (entered sends ∅)).subperm hsub
    exact (hsubperm.perm_of_length_le hlen.ge).nodup_iff.mp (StdMap.entries_keys_nodup _)
  · intro hnodup
    have hmem : ∀ e : ℤ × Addr, e ∈ (entered sends ∅).entries ↔ e ∈ sends.map Prod.swap := by
      rintro ⟨k, ck⟩
      rw [StdMap.mem_entries, find?_entered sends hnodup ∅ (by simp)]
      simp
    have hswap : (sends.map Prod.swap).Nodup := by
      refine List.Nodup.of_map Prod.fst ?_
      rw [List.map_map]
      exact hnodup
    have hkeys : (entered sends ∅).entries.Nodup :=
      List.Nodup.of_map Prod.fst (StdMap.entries_keys_nodup _)
    have hperm := ((List.perm_ext_iff_of_nodup hkeys hswap).mpr hmem).map Prod.snd
    rw [List.map_map] at hperm
    exact hperm

/-! ## The whole set-up -/

theorem length_rounds (n : Int32) (r : InitReply) : (rounds n r).length = n.toInt.toNat := by
  unfold rounds
  rw [List.length_map, List.length_range]

/-- Without an external service no send chunk is asked for. -/
theorem supply_false (rs : List RoundReply) : ∀ {mgr : ChunkMgr} {m : Mem} {c : ConnectionImpl}
    {sends : List (Addr × ℤ)}, supply false rs mgr m c = some sends → sends = [] := by
  induction rs with
  | nil => intro mgr m c sends h; cases h; rfl
  | cons r rs ih =>
    intro mgr m c sends h
    obtain ⟨x, -, h⟩ := Option.bind_eq_some_iff.mp h
    dsimp only at h
    rw [if_neg (by simp)] at h
    exact ih h

/-- **The loop leaves a connection complete when the manager has supplied it**, and only
then. -/
theorem complete_loop (mgr : ChunkMgr) (mem : Mem) {stack : RdmStack} {c : RdmConnection}
    (is_server : Bool) (r : InitReply) (hc : Untouched stack c) :
    (∃ t, (loop this (rounds stack.buffer_num r) ⟨mgr, mem, c⟩).state? = some t ∧
        Complete t.con) ↔
      Opened c ∧ (∀ r' ∈ rounds stack.buffer_num r, r'.accepted = true) ∧
        Supplied (stack.construct is_server is_server) mgr mem r := by
  set s : State := ⟨mgr, mem, c⟩ with hs
  have hsupplied : Supplied (stack.construct is_server is_server) mgr mem r ↔
      0 ≤ stack.buffer_num.toInt ∧ ∃ sends, supply c.external_service
        (rounds stack.buffer_num r) mgr mem c.toConnectionImpl = some sends ∧
          (sends.map Prod.snd).Nodup := by
    rw [hc.external_service, hc.impl]
    exact Iff.rfl
  rw [hsupplied]
  -- what the loop leaves when it has been supplied
  have hleft : ∀ {t : State} {sends : List (Addr × ℤ)},
      (∀ r' ∈ rounds stack.buffer_num r, r'.accepted = true) →
        supply c.external_service (rounds stack.buffer_num r) mgr mem c.toConnectionImpl =
          some sends → (loop this (rounds stack.buffer_num r) s).state? = some t →
            t.con.posted.length = stack.buffer_num.toInt.toNat ∧
              t.con.send_chunks = sends.map Prod.fst ∧
              t.con.send_chunks_map = entered sends ∅ ∧
              (c.external_service = true → sends.length = stack.buffer_num.toInt.toNat) := by
    intro t sends hacc hsupply ht
    obtain ⟨t', hdone, hlen, hsends, hmap, hcount⟩ :=
      @loop_of_supply this c.external_service _ s _ rfl hacc hsupply
    rw [hdone] at ht
    obtain rfl : t' = t := Option.some.inj ht
    rw [length_rounds] at hlen hcount
    have hposted : s.con.posted.length = 0 := congrArg List.length hc.posted
    rw [hsends, hmap]
    refine ⟨by omega, ?_, ?_, hcount⟩
    · rw [show s.con.send_chunks = [] from hc.send_chunks, List.nil_append]
    · rw [show s.con.send_chunks_map = ∅ from hc.send_chunks_map]
  constructor
  · rintro ⟨t, ht, hcomplete⟩
    obtain ⟨⟨hext, hnum, hopen⟩, -, -, hall⟩ := supply_of_loop _ ht
    have hposted := hcomplete.posted
    have hsends := hcomplete.sends
    rw [hnum, hc.buffer_num] at hposted hsends
    have hzero : s.con.posted.length = 0 ∧ s.con.send_chunks.length = 0 :=
      ⟨congrArg List.length hc.posted, congrArg List.length hc.send_chunks⟩
    rw [length_rounds] at hall
    obtain ⟨hacc, sends, hsupply⟩ := hall (by omega) fun htrue => by
      have hfull := hsends (hext.trans htrue)
      omega
    refine ⟨hopen.mp hcomplete.opened, hacc, by omega, sends, hsupply, ?_⟩
    obtain ⟨-, hleft₁, hleft₂, -⟩ := hleft hacc hsupply ht
    cases hservice : c.external_service with
    | false =>
      rw [hservice] at hsupply
      rw [supply_false _ hsupply]
      exact List.nodup_nil
    | true =>
      have hsame := hcomplete.same (hext.trans hservice)
      rw [hleft₁, hleft₂] at hsame
      exact (entered_perm_iff sends).mp hsame
  · rintro ⟨hopen, hacc, hnonneg, sends, hsupply, hnodup⟩
    obtain ⟨t, hdone, -⟩ :=
      @loop_of_supply this c.external_service _ s _ rfl hacc hsupply
    have ht : (loop this (rounds stack.buffer_num r) s).state? = some t := by
      rw [hdone]
      rfl
    obtain ⟨⟨hext, hnum, hopen'⟩, -⟩ := supply_of_loop _ ht
    obtain ⟨hposted, hsends, hmap, hcount⟩ := hleft hacc hsupply ht
    have hnum : t.con.buffer_num = stack.buffer_num := hnum.trans hc.buffer_num
    refine ⟨t, ht, hopen'.mpr hopen, ?_, fun htrue => ?_, fun htrue => ?_⟩
    · rw [hposted, hnum]
      omega
    · have hlen := hcount (hext.symm.trans htrue)
      rw [hsends, List.length_map, hlen, hnum]
      omega
    · rw [hsends, hmap]
      exact (entered_perm_iff sends).mpr hnodup

/-- **A connection is complete when every call succeeds and the manager supplies it**, and only
then. -/
theorem complete_iff (this : ConId) (mgr : ChunkMgr) (mem : Mem) (stack : RdmStack)
    (is_server : Bool) (r : InitReply) :
    (∃ t, (init this (start mgr mem stack is_server) r).state? = some t ∧ Complete t.con) ↔
      InitOk (stack.construct is_server is_server) mgr mem r := by
  have hnum : (start mgr mem stack is_server).con.buffer_num = stack.buffer_num := rfl
  have hok : InitOk (stack.construct is_server is_server) mgr mem r ↔
      EndpointOk is_server r ∧ (∀ r' ∈ rounds stack.buffer_num r, r'.accepted = true) ∧
        Supplied (stack.construct is_server is_server) mgr mem r := and_assoc
  rw [hok]
  unfold init
  rw [hnum]
  obtain ⟨hdied, hno⟩ | ⟨c, hc, hopen, ⟨hfailed, hclosed⟩ | hdone⟩ :=
    openEndpoint_cases mgr mem stack is_server r
  · rw [hdied]
    refine iff_of_false ?_ fun h => hno h.1
    rintro ⟨t, ht, -⟩
    cases ht
  · rw [hfailed]
    refine iff_of_false ?_ fun h => hclosed (hopen.mpr h.1)
    rintro ⟨t, ht, hcomplete⟩
    cases ht
    exact hclosed hcomplete.opened
  · rw [hdone, ← hopen]
    exact complete_loop mgr mem is_server r hc

/-- The call is right when the connection that it publishes is complete. -/
theorem setUpOk_map (s t : RdmStack) (con : ConId) (e : Option State) :
    SetUpOk s (e.map fun u => ⟨t, some (con, u.con)⟩) ↔ ∃ u, e = some u ∧ Complete u.con := by
  cases e with
  | none => exact ⟨fun h => absurd h id, fun ⟨_, h, _⟩ => absurd h (by simp)⟩
  | some u => exact ⟨fun h => ⟨u, rfl, h⟩, fun ⟨_, hu, h⟩ => Option.some.inj hu ▸ h⟩

/-- The call goes on to make a connection. -/
theorem connect_ok_iff (s t : RdmStack) (is_server : Bool) (mgr : ChunkMgr) (mem : Mem)
    (r : CallReply) :
    SetUpOk s ((init r.con ⟨mgr, mem, s.construct is_server is_server⟩ r.init).state?.map fun u =>
        ⟨t, some (r.con, u.con)⟩) ↔ InitOk (s.construct is_server is_server) mgr mem r.init := by
  rw [setUpOk_map]
  exact complete_iff r.con mgr mem s is_server r.init

theorem bind_ok_iff (s : RdmStack) (ip port : Bool) (buf_mgr : Option ChunkMgr) (mem : Mem)
    (r : CallReply) : SetUpOk s (s.bind ip port buf_mgr mem r) ↔
      (s.initialized = false ∨ ip = false ∨ port = false ∨ buf_mgr = none) ∨
        r.hints = true ∧ (r.getinfo = false ∨
          ∃ mgr, buf_mgr = some mgr ∧ InitOk (s.construct true true) mgr mem r.init) := by
  unfold RdmStack.bind
  cases buf_mgr with
  | none => simp [SetUpOk]
  | some mgr =>
    dsimp only
    by_cases hargs : s.initialized = false ∨ ip = false ∨ port = false
    · rw [if_pos hargs]
      exact iff_of_true ⟨rfl, rfl⟩ (Or.inl (by tauto))
    rw [if_neg hargs]
    by_cases hhints : r.hints = false
    · rw [if_pos hhints]
      simp only [hhints, SetUpOk, false_iff]
      simpa using hargs
    rw [if_neg hhints]
    by_cases hinfo : r.getinfo = false
    · rw [if_pos hinfo]
      exact iff_of_true ⟨rfl, rfl⟩ (Or.inr ⟨by simpa using hhints, Or.inl hinfo⟩)
    rw [if_neg hinfo, connect_ok_iff]
    simp only [Bool.not_eq_false] at hhints hinfo
    simp [hargs, hhints, hinfo]

theorem get_con_ok_iff (s : RdmStack) (ip port : Bool) (buf_mgr : Option ChunkMgr) (mem : Mem)
    (r : CallReply) : SetUpOk s (s.get_con ip port buf_mgr mem r) ↔
      (s.initialized = false ∨ ip = false ∨ port = false ∨ buf_mgr = none) ∨
        ∃ mgr, buf_mgr = some mgr ∧ InitOk (s.construct false false) mgr mem r.init := by
  unfold RdmStack.get_con
  cases buf_mgr with
  | none => simp [SetUpOk]
  | some mgr =>
    dsimp only
    by_cases hargs : s.initialized = false ∨ ip = false ∨ port = false
    · rw [if_pos hargs]
      exact iff_of_true ⟨rfl, rfl⟩ (Or.inl (by tauto))
    · rw [if_neg hargs, connect_ok_iff]
      simp [hargs]

/-- Every call of `RdmStack::init` and of the demultiplexer's `init` succeeds. -/
def ServiceReply.Succeeds (r : ServiceReply) : Prop :=
  r.hints = true ∧ r.getinfo = true ∧ r.fabric = true ∧ r.domain = true ∧ r.cq_open = true ∧
    r.getwait = true ∧ r.epoll_ctl = true

theorem service_ok_iff (buffer_num : Int32) (is_server : Bool) (r : ServiceReply) :
    ServiceOk (ExternalRdmService.init buffer_num is_server r) ↔ r.Succeeds := by
  unfold ExternalRdmService.init RdmStack.init demultiplexerInit ServiceReply.Succeeds
  dsimp only
  by_cases hhints : r.hints = false
  · rw [if_pos hhints]
    exact iff_of_false id fun h => absurd (hhints.symm.trans h.1) (by simp)
  rw [if_neg hhints]
  by_cases hstack : r.getinfo = false ∨ r.fabric = false ∨ r.domain = false ∨ r.cq_open = false
  · -- the queue has not been opened, and the demultiplexer dereferences it
    rw [if_pos hstack]
    refine iff_of_false id ?_
    rintro ⟨-, hinfo, hfabric, hdomain, hcq, -⟩
    simp [hinfo, hfabric, hdomain, hcq] at hstack
  rw [if_neg hstack, Option.bind_some]
  dsimp only
  simp only [not_or, Bool.not_eq_false] at hhints hstack
  by_cases hwatch : r.getwait = false ∨ r.epoll_ctl = false
  · rw [if_neg (by simp), if_pos hwatch]
    refine iff_of_false ?_ ?_
    · rintro (hres | ⟨-, hwatching⟩)
      · exact hres rfl
      · cases hwatching
    · rintro ⟨-, -, -, -, -, hgetwait, hctl⟩
      simp [hgetwait, hctl] at hwatch
  · rw [if_neg (by simp), if_neg hwatch]
    simp only [not_or, Bool.not_eq_false] at hwatch
    exact iff_of_true (Or.inr ⟨rfl, rfl⟩)
      ⟨hhints, hstack.1, hstack.2.1, hstack.2.2.1, hstack.2.2.2, hwatch.1, hwatch.2⟩

/-- **When the calls that set up an RDM service are right.** -/
theorem setUp_iff (buffer_num : Int32) (is_server : Bool) (service : ServiceReply) (s : RdmStack)
    (ip port : Bool) (buf_mgr : Option ChunkMgr) (mem : Mem) (r : CallReply) :
    (ServiceOk (ExternalRdmService.init buffer_num is_server service) ↔ service.Succeeds) ∧
      (SetUpOk s (s.bind ip port buf_mgr mem r) ↔
        (s.initialized = false ∨ ip = false ∨ port = false ∨ buf_mgr = none) ∨
          r.hints = true ∧ (r.getinfo = false ∨
            ∃ mgr, buf_mgr = some mgr ∧ InitOk (s.construct true true) mgr mem r.init)) ∧
      (SetUpOk s (s.get_con ip port buf_mgr mem r) ↔
        (s.initialized = false ∨ ip = false ∨ port = false ∨ buf_mgr = none) ∨
          ∃ mgr, buf_mgr = some mgr ∧ InitOk (s.construct false false) mgr mem r.init) :=
  ⟨service_ok_iff buffer_num is_server service, bind_ok_iff s ip port buf_mgr mem r,
    get_con_ok_iff s ip port buf_mgr mem r⟩

/-- An initialized stack of an external service with one buffer. -/
def oneBuffer : RdmStack :=
  { buffer_num := 1, is_server := true, external_service := true, cq := true, initialized := true }

/-- Every call of `init` succeeds. -/
def allGood : InitReply :=
  { hints := true, getinfo := true, endpoint := true, av_open := true, bind_cq := true
    bind_av := true, enable := true, getname := true, inserted := true
    rounds := fun _ => ⟨⟨⟨0, none⟩, ⟨0, none⟩, 0⟩, true, ⟨⟨0, none⟩, ⟨0, none⟩, 0⟩⟩ }

/-- `ExternalRdmService::init` answers 0 although the queue is not watched; `get_con` returns a
connection without an endpoint; `bind` returns one without a send chunk. -/
theorem setUp_wrong :
    ¬ ServiceOk (ExternalRdmService.init 1 true ⟨true, true, true, true, true, true, false⟩) ∧
      ¬ SetUpOk oneBuffer (oneBuffer.get_con true true (some (.external ⟨[8, 9], ∅⟩)) (fun _ => {})
        ⟨true, true, 7, { allGood with endpoint := false }⟩) ∧
      ¬ SetUpOk oneBuffer (oneBuffer.bind true true (some (.external ⟨[8], ∅⟩)) (fun _ => {})
        ⟨true, true, 7, allGood⟩) := by
  refine ⟨?_, ?_, ?_⟩
  · rintro (hres | ⟨-, hwatching⟩)
    · exact hres rfl
    · cases hwatching
  · intro h
    have hep := h.opened.2.1
    cases hep
  · intro h
    obtain hbad | ⟨-, hbad | ⟨mgr, hmgr, -, -, sends, hsupply, -⟩⟩ := (bind_ok_iff ..).mp h
    · simp [oneBuffer] at hbad
    · cases hbad
    · cases hmgr
      have hsome := Option.isSome_iff_exists.mpr ⟨sends, hsupply⟩
      have hlen := (supply_external true _ [8] ∅ _ _ (by decide) (by decide)).mp hsome
      rw [length_rounds] at hlen
      exact absurd hlen (by decide +kernel)

end RdmInit

end Hpnl
