import Hpnl.Connection.Basic
import Hpnl.Lib.Places

/-!
# What the chunks of a pool are used for

The connections of a MSG service share one `ChunkPool`.  `MsgConnection::init` posts
`buffer_num` chunks as receives.  `CqDemultiplexer::wait_event` hands the chunk of a completed
receive to the application, and `activate_recv_chunk` takes another one from the pool and posts
it.  The application sends the chunks it holds or gives them back, and gets the chunk of a
completed send again.

* `RoleWorld` — the pool, the connections, the places of the chunks that are out, and which
  receive each completion thread is handling.
* `OneRole` — a chunk is free, posted on one connection, held by the application or in flight
  as a send, and only one of these.
* `Credits` — a connection has `buffer_num` receives posted, unless one is being handled.
* `Inv`, `inv_step` — what each step keeps.
* `one_role` — **both hold along every run, as long as** a receive is handled by a connection
  that has a receive callback.
-/

namespace Hpnl

open Transition Places

/-- Where a chunk is that is out. -/
inductive ChunkPlace where
  /-- Posted as a receive, until `wait_event` reads its completion. -/
  | posted (con : ConId)
  | application
  /-- In flight as a send, until `wait_event` reads its completion. -/
  | sent (con : ConId)
  deriving DecidableEq, Repr

/-- A `MsgConnection`, as far as `init` and the completion threads go by it. -/
structure PoolConnection where
  buffer_num : ℤ
  cq_index : ℕ
  phase : InitPhase
  connected : Bool := false
  recv_callback : Bool := false
  send_callback : Bool := false
  deriving DecidableEq, Repr

/-- A pool and its users.  `thread i` is the connection of the receive that the thread of
completion queue `i` is handling. -/
structure RoleWorld extends PoolWorld where
  msg : ConId → Option PoolConnection
  places : ChunkPlace → List Addr
  thread : ℕ → Option ConId

/-- A step of a connection, of a completion thread or of the application.  `read` and `write`
leave a chunk with the application and are no steps. -/
inductive RoleOp where
  /-- The constructor. -/
  | construct (con : ConId) (buffer_num : ℤ) (cq_index : ℕ)
  /-- `init` up to `fi_enable`; whether it gets there. -/
  | open (con : ConId) (ok : Bool)
  /-- A round of `init`: `get`, and `fi_recv`. -/
  | init_recv (con : ConId) (r : GetReply)
  /-- `EqHandler` sets the callbacks it has, and the status. -/
  | connected (con : ConId) (recv_callback send_callback : Bool)
  /-- The application takes a chunk. -/
  | get (con : ConId) (r : GetReply)
  /-- `send`; whether `fi_send` accepts. -/
  | send (con : ConId) (ck : Addr) (ok : Bool)
  /-- The application gives a chunk back. -/
  | reclaim (ck : Addr) (con : ConId) (link : ℕ)
  /-- `wait_event` reads the completion of a receive, and the callback begins. -/
  | recv (con : ConId) (ck : Addr)
  /-- The callback has returned: `activate_recv_chunk`, on the thread of queue `i`. -/
  | activate (i : ℕ) (r : GetReply)
  /-- `wait_event` reads the completion of a send, and calls the callback. -/
  | sent (con : ConId) (ck : Addr)
  deriving DecidableEq, Repr

namespace RoleWorld

/-- A new pool, and no connections. -/
def init (mem : Mem) (domain : Addr) (request_buffer_size next_request_buffer_number : ℤ) :
    RoleWorld :=
  { PoolWorld.init mem domain request_buffer_size next_request_buffer_number with
    msg := fun _ => none
    places := fun _ => []
    thread := fun _ => none }

def setMsg (w : RoleWorld) (con : ConId) (c : PoolConnection) : RoleWorld :=
  { w with msg := Function.update w.msg con (some c) }

/-- `chunk_mgr->get(con)`, for use in `p`. -/
def getFor (w : RoleWorld) (p : ChunkPlace) (con : ConId) (r : GetReply) : Option RoleWorld :=
  (w.toPoolWorld.step (.get con r.reply r.retry r.pick)).map fun s =>
    { w with toPoolWorld := s, places := put w.places p r.pick }

/-- One step.  The calls of `get` and `fi_recv` that are made here succeed, and the application
sends and gives back what it holds. -/
def step (w : RoleWorld) : RoleOp → Option RoleWorld
  | .construct con buffer_num cq_index =>
      if con ≠ nullptr ∧ (w.msg con).isNone then
        some (w.setMsg con { buffer_num, cq_index, phase := .opening buffer_num.toNat })
      else none
  | .open con ok =>
      (w.msg con).bind fun c =>
        match c.phase with
        | .opening n =>
            some (w.setMsg con { c with phase := if ok then InitPhase.loop n else .failed })
        | _ => none
  | .init_recv con r =>
      (w.msg con).bind fun c =>
        match c.phase with
        | .recv n =>
            (w.getFor (.posted con) con r).map fun w' =>
              w'.setMsg con { c with phase := InitPhase.loop n }
        | _ => none
  | .connected con recv_callback send_callback =>
      (w.msg con).bind fun c =>
        if c.phase = .ready then
          some (w.setMsg con { c with connected := true, recv_callback, send_callback })
        else none
  | .get con r => w.getFor .application con r
  | .send con ck ok =>
      if (w.msg con).isSome ∧ ck ∈ w.places .application then
        some (if ok then { w with places := move w.places .application (.sent con) ck } else w)
      else none
  | .reclaim ck con link =>
      if ck ∈ w.places .application then
        (w.toPoolWorld.step (.reclaim ck con link)).map fun s =>
          { w with toPoolWorld := s, places := take w.places .application ck }
      else none
  | .recv con ck =>
      (w.msg con).bind fun c =>
        if c.connected ∧ w.thread c.cq_index = none ∧ ck ∈ w.places (.posted con) then
          some { w with
            places :=
              if c.recv_callback then move w.places (.posted con) .application ck
              else take w.places (.posted con) ck
            thread := Function.update w.thread c.cq_index (some con) }
        else none
  | .activate i r =>
      (w.thread i).bind fun con =>
        (w.getFor (.posted con) con r).map fun w' =>
          { w' with thread := Function.update w'.thread i none }
  | .sent con ck =>
      (w.msg con).bind fun c =>
        -- the callback of a send is asserted
        if c.send_callback ∧ w.thread c.cq_index = none ∧ ck ∈ w.places (.sent con) then
          some { w with places := move w.places (.sent con) .application ck }
        else none

end RoleWorld

namespace ChunkPool

/-- What refilling cuts is free, and nothing else is. -/
theorem cut_refill {p : ChunkPool} {reply retry : MallocReply} {Out : Addr → Prop}
    (h : p.FreshReply reply) (h' : p.halved.FreshReply retry)
    (hcut : ∀ a, p.Cut a ↔ a ∈ p.store ∨ Out a) (a : Addr) :
    (p.refill reply retry).Cut a ↔ a ∈ (p.refill reply retry).store ∨ Out a := by
  obtain ⟨hsize, hstore⟩ := refill_cases h h'
  have hsegregate : (p.refill reply retry).segregate = p.segregate := by
    unfold segregate partition_size
    rw [hsize]
  rcases hstore with ⟨hstore, hblocks⟩ | ⟨hnil, block, n, hstore, hblocks, -⟩
  · rw [Cut, hblocks, hsegregate, hstore]
    exact hcut a
  · have hold : p.Cut a ↔ Out a := by
      rw [hcut a, hnil]
      simp
    rw [Cut, hblocks, hsegregate, hstore, ← hold]
    simp [Cut]

end ChunkPool

namespace RoleWorld

/-! ## What is to hold -/

/-- **One role.**  A chunk that has been cut is in the free list or in one place, and nothing is
anywhere twice. -/
def OneRole (w : RoleWorld) : Prop :=
  (∀ ck, w.pool.Cut ck →
    ck ∈ w.pool.store ∧ ¬ Lies w.places ck ∨ ck ∉ w.pool.store ∧ ∃! p, ck ∈ w.places p) ∧
    w.pool.store.Nodup ∧ ∀ p, (w.places p).Nodup

/-- **The receives of a connection.**  When `init` has returned 0 and no thread is handling one
of them, there are `buffer_num`. -/
def Credits (w : RoleWorld) : Prop :=
  ∀ con, ∀ c ∈ w.msg con, c.phase = .ready → (∀ i, w.thread i ≠ some con) →
    (w.places (.posted con)).length = c.buffer_num.toNat

/-- A receive is handled by a connection that has a receive callback. -/
def Guard (w : RoleWorld) : RoleOp → Prop
  | .recv con _ => ∀ c ∈ w.msg con, c.recv_callback
  | _ => True

instance (w : RoleWorld) : DecidablePred w.Guard
  | .recv .. => by unfold Guard; infer_instance
  | .construct .. => isTrue trivial
  | .open .. => isTrue trivial
  | .init_recv .. => isTrue trivial
  | .connected .. => isTrue trivial
  | .get .. => isTrue trivial
  | .send .. => isTrue trivial
  | .reclaim .. => isTrue trivial
  | .activate .. => isTrue trivial
  | .sent .. => isTrue trivial

/-! ## The invariant -/

/-- The rounds of `init` that are left. -/
def rounds : InitPhase → ℕ
  | .opening n => n
  | .recv n => n + 1
  | .send n => n + 1
  | .ready => 0
  | .failed => 0

@[simp] theorem rounds_loop (n : ℕ) : rounds (InitPhase.loop n) = n := by
  cases n <;> rfl

/-- Whether the thread of the connection's queue is handling one of its receives. -/
def handling (w : RoleWorld) (con : ConId) (c : PoolConnection) : ℕ :=
  if w.thread c.cq_index = some con then 1 else 0

/-- The receives of a connection are posted, being handled, or still to be posted by `init`. -/
def Accounted (w : RoleWorld) (con : ConId) (c : PoolConnection) : Prop :=
  c.phase ≠ .failed →
    (w.places (.posted con)).length + w.handling con c + rounds c.phase = c.buffer_num.toNat

/-- The free list is in order, what is out is in one place, and the chunks that have been cut
are those that are free and those that are out. -/
structure Placed (w : RoleWorld) : Prop where
  wf : w.toPoolWorld.Wf
  sorted : Sorted w.places
  out : ∀ ck, w.holder ck ≠ none ↔ Lies w.places ck
  cut : ∀ ck, w.pool.Cut ck ↔ ck ∈ w.pool.store ∨ w.holder ck ≠ none

/-- What every step keeps. -/
structure Inv (w : RoleWorld) : Prop extends Placed w where
  none_posted : ∀ con, w.msg con = none → w.places (.posted con) = []
  accounted : ∀ con c, w.msg con = some c → w.Accounted con c
  busy : ∀ i con, w.thread i = some con → ∃ c, w.msg con = some c ∧ c.cq_index = i

section

variable {w w' : RoleWorld} {con : ConId} {ck : Addr} {c : PoolConnection} {p : ChunkPlace}
  {r : GetReply}

theorem Inv.oneRole (h : w.Inv) : w.OneRole := by
  refine ⟨fun ck hck => ?_, h.wf.nodup, h.sorted.nodup⟩
  by_cases hfree : ck ∈ w.pool.store
  · refine Or.inl ⟨hfree, fun hlies => ?_⟩
    exact (h.out ck).mpr hlies (h.wf.free ck hfree)
  · have hout : w.holder ck ≠ none := ((h.cut ck).mp hck).resolve_left hfree
    exact Or.inr ⟨hfree, h.sorted.existsUnique ((h.out ck).mp hout)⟩

theorem Inv.credits (h : w.Inv) : w.Credits := by
  intro con c hc hready hidle
  have hacc := h.accounted con c hc (by simp [hready])
  rwa [handling, if_neg (hidle c.cq_index), hready] at hacc

/-- **A chunk is taken from the pool** for a place. -/
theorem getFor_cases (h : w.Placed) (hget : w.getFor p con r = some w') :
    w'.Placed ∧ w'.places = put w.places p r.pick ∧ w'.msg = w.msg ∧ w'.thread = w.thread := by
  obtain ⟨s, hs, rfl⟩ := Option.map_eq_some_iff.mp hget
  obtain ⟨hcan, -, rfl⟩ := PoolWorld.step_get hs
  have hnew : ¬ Lies w.places r.pick := fun hlies =>
    (h.out r.pick).mpr hlies (h.wf.holder_pick hcan)
  refine ⟨⟨PoolWorld.wf_afterGet h.wf con hcan, h.sorted.put hnew p, fun a => ?_, fun a => ?_⟩,
    rfl, rfl, rfl⟩
  · show Function.update w.holder r.pick (some con) a ≠ none ↔ Lies (put w.places p r.pick) a
    rw [lies_put]
    by_cases hap : a = r.pick
    · rw [hap, Function.update_self]
      exact ⟨fun _ => Or.inl rfl, fun _ => Option.some_ne_none con⟩
    · rw [Function.update_of_ne hap, h.out a]
      exact ⟨Or.inr, fun ha => ha.resolve_left hap⟩
  · show (w.pool.refill r.reply r.retry).Cut a ↔
      a ∈ (w.pool.refill r.reply r.retry).store.erase r.pick ∨
        Function.update w.holder r.pick (some con) a ≠ none
    have hcut := ChunkPool.cut_refill hcan.1 hcan.2.1 h.cut a
    by_cases hap : a = r.pick
    · rw [hap, Function.update_self]
      exact ⟨fun _ => Or.inr (Option.some_ne_none con),
        fun _ => (hap ▸ hcut).mpr (Or.inl hcan.2.2)⟩
    · rw [Function.update_of_ne hap, List.mem_erase_of_ne hap]
      exact hcut

/-- A chunk is given back. -/
theorem placed_reclaim (h : w.Placed) {s : PoolWorld} {link : ℕ} (hck : ck ∈ w.places p)
    (hs : w.toPoolWorld.step (.reclaim ck con link) = some s) :
    Placed { w with toPoolWorld := s, places := take w.places p ck } := by
  obtain ⟨-, hout, rfl⟩ := PoolWorld.step_reclaim hs
  refine ⟨PoolWorld.wf_afterReclaim h.wf con link hout, h.sorted.take hck, fun a => ?_,
    fun a => ?_⟩
  · show Function.update w.holder ck none a ≠ none ↔ Lies (take w.places p ck) a
    rw [h.sorted.lies_take hck]
    by_cases hac : a = ck
    · rw [hac, Function.update_self]
      exact ⟨fun hne => absurd rfl hne, fun hne => absurd rfl hne.1⟩
    · rw [Function.update_of_ne hac, h.out a]
      exact ⟨fun hlies => ⟨hac, hlies⟩, fun hlies => hlies.2⟩
  · show w.pool.Cut a ↔ a ∈ ck :: w.pool.store ∨ Function.update w.holder ck none a ≠ none
    rw [h.cut a, List.mem_cons]
    by_cases hac : a = ck
    · rw [hac]
      exact ⟨fun _ => Or.inl (Or.inl rfl), fun _ => Or.inr hout⟩
    · rw [Function.update_of_ne hac]
      exact ⟨fun ha => ha.imp_left Or.inr, fun ha => ha.imp_left fun ha => ha.resolve_left hac⟩

/-- A chunk goes from one place to another. -/
theorem placed_move (h : w.Placed) (hck : ck ∈ w.places p) (q : ChunkPlace) :
    Placed { w with places := move w.places p q ck } :=
  ⟨h.wf, h.sorted.move hck q, fun a => (h.out a).trans (h.sorted.lies_move hck).symm, h.cut⟩

theorem inv_init (mem : Mem) (domain : Addr) (size n : ℤ) : (init mem domain size n).Inv where
  wf := PoolWorld.wf_init mem domain size n
  sorted := sorted_empty
  out := fun ck => ⟨fun hne => absurd rfl hne, fun ⟨_, hmem⟩ => absurd hmem List.not_mem_nil⟩
  cut := fun ck => ⟨fun ⟨_, hb, _⟩ => absurd hb List.not_mem_nil, fun hck =>
    hck.elim (fun hmem => absurd hmem List.not_mem_nil) fun hne => absurd rfl hne⟩
  none_posted := fun _ _ => rfl
  accounted := fun con c hc => absurd hc (by simp [init])
  busy := fun i con hcon => absurd hcon (by simp [init])

/-- What leaves the receives that are posted, the connections and the threads as they are. -/
theorem Inv.of_placed (h : w.Inv) (hplaced : w'.Placed) (hmsg : w'.msg = w.msg)
    (hthread : w'.thread = w.thread)
    (hposted : ∀ con, w'.places (.posted con) = w.places (.posted con)) : w'.Inv := by
  refine ⟨hplaced, fun con hcon => ?_, fun con c hc => ?_, fun i con hi => ?_⟩
  · rw [hposted]
    exact h.none_posted con (hmsg ▸ hcon)
  · unfold Accounted handling
    rw [hposted, hthread]
    exact h.accounted con c (hmsg ▸ hc)
  · rw [hmsg]
    exact h.busy i con (hthread ▸ hi)

/-- The connection itself changes. -/
theorem inv_setMsg (h : w.Inv) (hacc : w.Accounted con c)
    (hcq : ∀ d, w.msg con = some d → c.cq_index = d.cq_index) : (w.setMsg con c).Inv := by
  refine ⟨⟨h.wf, h.sorted, h.out, h.cut⟩, fun d hd => ?_, fun d e he => ?_, fun i d hd => ?_⟩
  · rcases of_update hd with ⟨-, hd⟩ | ⟨-, hd⟩
    · cases hd
    · exact h.none_posted d hd
  · rcases of_update he with ⟨rfl, hce⟩ | ⟨-, he⟩
    · cases hce
      exact hacc
    · exact h.accounted d e he
  · obtain ⟨e, he, hcqe⟩ := h.busy i d hd
    show ∃ c', Function.update w.msg con (some c) d = some c' ∧ c'.cq_index = i
    by_cases hdc : d = con
    · rw [hdc, Function.update_self]
      exact ⟨c, rfl, (hcq e (hdc ▸ he)).trans hcqe⟩
    · rw [Function.update_of_ne hdc]
      exact ⟨e, he, hcqe⟩

/-- What another thread, or this one for another connection, does. -/
theorem handling_of_ne {i : ℕ} {t : Option ConId} {d : ConId} (e : PoolConnection)
    (hthread : w'.thread = Function.update w.thread i t) (hold : w.thread i ≠ some d)
    (hnew : t ≠ some d) : w'.handling d e = w.handling d e := by
  unfold handling
  rw [hthread]
  by_cases hi : e.cq_index = i
  · rw [hi, Function.update_self, if_neg hold, if_neg hnew]
  · rw [Function.update_of_ne hi]

theorem posted_send (at' : ChunkPlace → List Addr) (con : ConId) (ck : Addr) (d : ConId) :
    move at' .application (.sent con) ck (.posted d) = at' (.posted d) :=
  move_of_ne (by simp) (by simp)

theorem posted_sent (at' : ChunkPlace → List Addr) (con : ConId) (ck : Addr) (d : ConId) :
    move at' (.sent con) .application ck (.posted d) = at' (.posted d) :=
  move_of_ne (by simp) (by simp)

theorem posted_reclaim (at' : ChunkPlace → List Addr) (ck : Addr) (d : ConId) :
    take at' .application ck (.posted d) = at' (.posted d) :=
  take_of_ne (by simp)

/-- **`init` posts a receive**: one round less is left. -/
theorem inv_init_recv {n : ℕ} (h : w.Inv) (hc : w.msg con = some c) (hphase : c.phase = .recv n)
    (hget : w.getFor (.posted con) con r = some w') :
    (w'.setMsg con { c with phase := InitPhase.loop n }).Inv := by
  obtain ⟨hplaced, hplaces, hmsg, hthread⟩ := getFor_cases h.toPlaced hget
  refine ⟨⟨hplaced.wf, hplaced.sorted, hplaced.out, hplaced.cut⟩, fun d hd => ?_, fun d e he => ?_,
    fun i d hd => ?_⟩
  · show w'.places (.posted d) = []
    rcases of_update hd with ⟨-, hnone⟩ | ⟨hdc, hd⟩
    · cases hnone
    · rw [hmsg] at hd
      rw [hplaces, put_of_ne (by simpa using hdc)]
      exact h.none_posted d hd
  · rcases of_update he with ⟨hdc, hce⟩ | ⟨hdc, he⟩
    · cases hce
      intro _
      show (w'.places (.posted d)).length + w'.handling d c + rounds (InitPhase.loop n) =
        c.buffer_num.toNat
      have hacc := h.accounted con c hc (by simp [hphase])
      rw [hphase] at hacc
      change (w.places (.posted con)).length + w.handling con c + (n + 1) = _ at hacc
      rw [rounds_loop, hdc, hplaces, length_put]
      unfold handling at hacc ⊢
      rw [hthread]
      omega
    · rw [hmsg] at he
      show e.phase ≠ .failed → (w'.places (.posted d)).length + w'.handling d e + rounds e.phase = _
      unfold handling
      rw [hplaces, put_of_ne (by simpa using hdc), hthread]
      exact h.accounted d e he
  · obtain ⟨e, he, hcq⟩ := h.busy i d (hthread ▸ hd)
    show ∃ c', Function.update w'.msg con _ d = some c' ∧ c'.cq_index = i
    by_cases hdc : d = con
    · rw [hdc, Function.update_self]
      obtain rfl : c = e := Option.some.inj (hc.symm.trans (hdc ▸ he))
      exact ⟨_, rfl, hcq⟩
    · rw [Function.update_of_ne hdc, hmsg]
      exact ⟨e, he, hcq⟩

/-- **A receive is handed to the application**, and its thread is busy from now on. -/
theorem inv_recv (h : w.Inv) (hc : w.msg con = some c) (hidle : w.thread c.cq_index = none)
    (hck : ck ∈ w.places (.posted con)) :
    Inv { w with
      places := move w.places (.posted con) .application ck
      thread := Function.update w.thread c.cq_index (some con) } := by
  have hplaced := placed_move h.toPlaced hck .application
  have hother : ∀ d, d ≠ con →
      move w.places (.posted con) .application ck (.posted d) = w.places (.posted d) :=
    fun d hd => move_of_ne (by simpa using hd) (by simp)
  refine ⟨⟨hplaced.wf, hplaced.sorted, hplaced.out, hplaced.cut⟩, fun d hd => ?_, fun d e he => ?_,
    fun i d hd => ?_⟩
  · have hdc : d ≠ con := by
      rintro rfl
      exact absurd (hc.symm.trans hd) (by simp)
    exact (hother d hdc).trans (h.none_posted d hd)
  · by_cases hdc : d = con
    · obtain rfl : c = e := Option.some.inj (hc.symm.trans (hdc ▸ he))
      intro hphase
      have hacc := h.accounted con c hc hphase
      have hlen : (move w.places (.posted con) .application ck (.posted con)).length + 1 =
          (w.places (.posted con)).length := by
        rw [move, put_of_ne (by simp)]
        exact length_take hck
      rw [handling, if_neg (by simp [hidle])] at hacc
      rw [hdc, handling]
      show (move w.places (.posted con) .application ck (.posted con)).length +
        (if Function.update w.thread c.cq_index (some con) c.cq_index = some con then 1 else 0) +
          rounds c.phase = _
      rw [Function.update_self, if_pos rfl]
      omega
    · intro hphase
      rw [handling_of_ne (w := w) e rfl (by simp [hidle]) (by simpa using Ne.symm hdc)]
      show (move w.places (.posted con) .application ck (.posted d)).length + _ + _ = _
      rw [hother d hdc]
      exact h.accounted d e he hphase
  · rcases of_update hd with ⟨rfl, hcd⟩ | ⟨-, hd⟩
    · cases hcd
      exact ⟨c, hc, rfl⟩
    · exact h.busy i d hd

/-- **`activate_recv_chunk`** makes up for the receive that has been handled. -/
theorem inv_activate {i : ℕ} (h : w.Inv) (hi : w.thread i = some con)
    (hget : w.getFor (.posted con) con r = some w') :
    Inv { w' with thread := Function.update w'.thread i none } := by
  obtain ⟨hplaced, hplaces, hmsg, hthread⟩ := getFor_cases h.toPlaced hget
  obtain ⟨c, hc, hcq⟩ := h.busy i con hi
  refine ⟨⟨hplaced.wf, hplaced.sorted, hplaced.out, hplaced.cut⟩, fun d hd => ?_, fun d e he => ?_,
    fun j d hd => ?_⟩
  · change w'.msg d = none at hd
    rw [hmsg] at hd
    have hdc : d ≠ con := by
      rintro rfl
      exact absurd (hc.symm.trans hd) (by simp)
    show w'.places (.posted d) = []
    rw [hplaces, put_of_ne (by simpa using hdc)]
    exact h.none_posted d hd
  · change w'.msg d = some e at he
    rw [hmsg] at he
    by_cases hdc : d = con
    · obtain rfl : c = e := Option.some.inj (hc.symm.trans (hdc ▸ he))
      intro hphase
      have hacc := h.accounted con c hc hphase
      rw [handling, if_pos (hcq ▸ hi)] at hacc
      rw [hdc, handling]
      show (w'.places (.posted con)).length +
        (if Function.update w'.thread i none c.cq_index = some con then 1 else 0) +
          rounds c.phase = _
      rw [hcq, Function.update_self, if_neg (by simp), hplaces, length_put]
      omega
    · intro hphase
      rw [handling_of_ne (w := w) e (by rw [hthread]) (by simpa [hi] using Ne.symm hdc) (by simp)]
      show (w'.places (.posted d)).length + _ + _ = _
      rw [hplaces, put_of_ne (by simpa using hdc)]
      exact h.accounted d e he hphase
  · show ∃ e, w'.msg d = some e ∧ e.cq_index = j
    rcases of_update hd with ⟨-, hnone⟩ | ⟨-, hd⟩
    · cases hnone
    · rw [hmsg]
      exact h.busy j d (hthread ▸ hd)

/-- **Every step that meets the guard keeps the invariant.** -/
theorem inv_step {op : RoleOp} (h : w.Inv) (hguard : w.Guard op) (hstep : w.step op = some w') :
    w'.Inv := by
  cases op with
  | construct con buffer_num cq_index =>
    simp only [step] at hstep
    split at hstep
    · rename_i hnew
      cases hstep
      have hnone : w.msg con = none := Option.isNone_iff_eq_none.mp hnew.2
      have hidle : ∀ i, w.thread i ≠ some con := by
        intro i hi
        obtain ⟨d, hd, -⟩ := h.busy i con hi
        exact absurd (hnone.symm.trans hd) (by simp)
      refine inv_setMsg h (fun _ => ?_) fun d hd => absurd (hnone.symm.trans hd) (by simp)
      rw [h.none_posted con hnone, handling, if_neg (hidle cq_index)]
      simp [rounds]
    · cases hstep
  | «open» con ok =>
    obtain ⟨c, hc, hstep⟩ := Option.bind_eq_some_iff.mp hstep
    split at hstep
    · rename_i n hphase
      cases hstep
      refine inv_setMsg h (fun hok => ?_) fun d hd => ?_
      · cases ok with
        | false => exact absurd rfl hok
        | true =>
          have hacc := h.accounted con c hc (by simp [hphase])
          rw [hphase] at hacc
          show (w.places (.posted con)).length + w.handling con c + rounds (InitPhase.loop n) = _
          rwa [rounds_loop]
      · obtain rfl : c = d := Option.some.inj (hc.symm.trans hd)
        rfl
    · cases hstep
  | init_recv con r =>
    obtain ⟨c, hc, hstep⟩ := Option.bind_eq_some_iff.mp hstep
    split at hstep
    · rename_i n hphase
      obtain ⟨w₁, hget, rfl⟩ := Option.map_eq_some_iff.mp hstep
      exact inv_init_recv h hc hphase hget
    · cases hstep
  | connected con recv_callback send_callback =>
    obtain ⟨c, hc, hstep⟩ := Option.bind_eq_some_iff.mp hstep
    split at hstep
    · cases hstep
      refine inv_setMsg h (h.accounted con c hc) fun d hd => ?_
      obtain rfl : c = d := Option.some.inj (hc.symm.trans hd)
      rfl
    · cases hstep
  | get con r =>
    obtain ⟨hplaced, hplaces, hmsg, hthread⟩ := getFor_cases h.toPlaced hstep
    refine h.of_placed hplaced hmsg hthread fun d => ?_
    rw [hplaces, put_of_ne (by simp)]
  | send con ck ok =>
    simp only [step] at hstep
    split at hstep
    · rename_i hck
      cases hstep
      split
      · exact h.of_placed (placed_move h.toPlaced hck.2 _) rfl rfl (posted_send w.places con ck)
      · exact h
    · cases hstep
  | reclaim ck con link =>
    simp only [step] at hstep
    split at hstep
    · rename_i hck
      obtain ⟨s, hs, rfl⟩ := Option.map_eq_some_iff.mp hstep
      exact h.of_placed (placed_reclaim h.toPlaced hck hs) rfl rfl (posted_reclaim w.places ck)
    · cases hstep
  | recv con ck =>
    obtain ⟨c, hc, hstep⟩ := Option.bind_eq_some_iff.mp hstep
    split at hstep
    · rename_i hcan
      cases hstep
      rw [if_pos (hguard c hc)]
      exact inv_recv h hc hcan.2.1 hcan.2.2
    · cases hstep
  | activate i r =>
    obtain ⟨con, hi, hstep⟩ := Option.bind_eq_some_iff.mp hstep
    obtain ⟨w₁, hget, rfl⟩ := Option.map_eq_some_iff.mp hstep
    exact inv_activate h hi hget
  | sent con ck =>
    obtain ⟨c, -, hstep⟩ := Option.bind_eq_some_iff.mp hstep
    split at hstep
    · rename_i hck
      cases hstep
      exact h.of_placed (placed_move h.toPlaced hck.2.2 _) rfl rfl (posted_sent w.places con ck)
    · cases hstep

/-- **A receive that no callback is called for** leaves a chunk without a role. -/
theorem guard_of_oneRole {op : RoleOp} (h : w.Inv) (hstep : w.step op = some w')
    (hgood : w'.OneRole) : w.Guard op := by
  cases op with
  | recv con ck =>
    intro c hc
    obtain ⟨d, hd, hstep⟩ := Option.bind_eq_some_iff.mp hstep
    obtain rfl : c = d := Option.some.inj (hc.symm.trans hd)
    split at hstep
    · rename_i hcan
      by_contra hcb
      rw [if_neg hcb] at hstep
      cases hstep
      have hck : ck ∈ w.places (.posted con) := hcan.2.2
      have hout : w.holder ck ≠ none := (h.out ck).mpr ⟨_, hck⟩
      rcases hgood.1 ck ((h.cut ck).mpr (Or.inr hout)) with ⟨hfree, -⟩ | ⟨-, hplace⟩
      · exact hout (h.wf.free ck hfree)
      · exact ((h.sorted.lies_take hck).mp hplace.exists).1 rfl
    · cases hstep
  | _ => trivial

end

/-! ## Runs -/

/-- A run in which each chunk has one role meets the guard. -/
theorem meets_of_oneRole {mem : Mem} {domain : Addr} {size n : ℤ} {ops : List RoleOp}
    (h : Always step (fun w => w.OneRole ∧ w.Credits) (init mem domain size n) ops) :
    Meets step Guard (init mem domain size n) ops := by
  have keep : ∀ w op w', Inv w → True → w.Guard op → step w op = some w' → Inv w' :=
    fun _ _ _ h _ hg hstep => inv_step h hg hstep
  exact meets_of_always keep (fun _ _ _ h _ hstep hgood => guard_of_oneRole h hstep hgood.1)
    (inv_init mem domain size n) (meets_true _ ops) h

/-- **Each chunk has one role.**  In every run of any number of connections on a pool, in which
`get` and `fi_recv` succeed, no connection is destroyed, and the application sends and gives
back what it holds, each chunk has one role and each connection its receives, throughout,
exactly when every receive is handled by a connection that has a receive callback. -/
theorem one_role (mem : Mem) (domain : Addr) (request_buffer_size next_request_buffer_number : ℤ)
    (ops : List RoleOp) :
    Always step (fun w => w.OneRole ∧ w.Credits)
        (init mem domain request_buffer_size next_request_buffer_number) ops ↔
      Meets step Guard (init mem domain request_buffer_size next_request_buffer_number) ops := by
  have keep : ∀ w op w', Inv w → w.Guard op → step w op = some w' → Inv w' :=
    fun _ _ _ h hg hstep => inv_step h hg hstep
  refine ⟨meets_of_oneRole, fun hguard => ?_⟩
  exact (always_of_meets keep (inv_init mem domain _ _) hguard).mono fun _ h =>
    ⟨h.oneRole, h.credits⟩

/-- A connection with one receive, whose application has set no receive callback. -/
def unheard : List RoleOp :=
  [.construct 1 1 0, .open 1 true,
    .init_recv 1 ⟨⟨4096, none⟩, ⟨nullptr, none⟩, 4096⟩, .connected 1 false true, .recv 1 4096]

/-- The chunk of a receive that no callback is called for has no role. -/
theorem unheard_no_role :
    ¬ Always step (fun w => w.OneRole ∧ w.Credits) (init (fun _ => {}) nullptr 8 1) unheard :=
  fun h => absurd (meets_of_oneRole h) (by decide +kernel)

end RoleWorld

end Hpnl
