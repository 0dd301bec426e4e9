import Hpnl.RdmStack.Lifecycle
import Hpnl.Connection.Destructor

/-!
# The end of an RDM stack

`~RdmStack` deletes the connections before it closes its own objects, and `~RdmConnection` gives
the chunks in `used_chunks`, and for an external service those in `send_chunks`, back to the chunk
manager before it closes its endpoint and its address vector.  What the first of these two loops
does to `used_chunks` decides whether anything is closed at all.

* `RdmServiceWorld` — an RDM stack with the chunks of its connections; `step`, `destroy` — the
  calls, the rounds of each `init` and the traffic, and the end.
* `deleteAll_eq`, `astray_of_deleteAll` — the connections are deleted one after the other exactly
  when no `reclaim` erases the entry that the loop stands at.
* `all_closed_once_iff` — **everything is closed exactly once, and after all that was opened on it,
  if and only if** `init` finds nothing, `bind` is called on servers only and finds no
  `server_info`, and no chunk is filed under its own `buffer_id` in the end.
-/

namespace Hpnl

open Transition OpenObjects

/-- An RDM stack, with the chunk manager, the memory and the chunks of its connections; `ids` are
the addresses of the connections in `cons`. -/
structure RdmServiceWorld where
  external_service : Bool
  buffer_num : ℤ
  stack : RdmStackWorld
  chunks : ConnectionWorld
  ids : List ConId

inductive RdmServiceOp where
  /-- A call; a connection that it makes is put at this address. -/
  | call (op : RdmStackOp) (con : ConId)
  /-- A round of the `init` of a connection, traffic, or a buffer for an external manager. -/
  | chunk (op : ConnectionOp)

/-- Neither a constructor, nor what stands around the rounds of `init`, nor a destructor. -/
def ConnectionOp.isTraffic : ConnectionOp → Bool
  | .construct .. | .open .. | .destroy .. => false
  | .init_recv .. | .init_send .. | .get .. | .send .. | .reclaim .. | .set_buffer .. => true

/-- `RdmConnection::init` gets to its loop. -/
def RdmInit.InitReply.opens (r : RdmInit.InitReply) (is_server : Bool) : Bool :=
  (is_server || r.getinfo) && r.endpoint && r.av_open && r.bind_cq && r.bind_av && r.enable

/-- It gets there unless the process dies at the hints or at the assertion on `fi_av_insert`. -/
theorem RdmInit.opens_iff (s : RdmInit.State) (r : RdmInit.InitReply) :
    (∃ t, RdmInit.openEndpoint s r = .done t) ↔ r.opens s.con.is_server = true ∧
      (s.con.is_server = false → r.hints = true ∧ r.inserted = true) := by
  obtain ⟨hints, getinfo, endpoint, av_open, bind_cq, bind_av, enable, getname, inserted, rounds⟩ :=
    r
  unfold RdmInit.openEndpoint RdmInit.InitReply.opens
  cases hs : s.con.is_server with
  | true =>
    cases endpoint <;> cases av_open <;> cases bind_cq <;> cases bind_av <;> cases enable <;>
      simp [hs]
  | false =>
    cases hints <;> cases getinfo <;> simp [hs]
    cases endpoint <;> cases av_open <;> cases bind_cq <;> cases bind_av <;> cases enable <;>
      cases inserted <;> simp

/-- The connection that a call makes gets to the loop of its `init`. -/
def RdmStackOp.opens : RdmStackOp → Bool
  | .init _ => false
  | .bind _ _ _ r => r.opens true
  | .get_con _ r => r.opens false

namespace RdmServiceWorld

/-- A stack and a chunk manager as they are constructed. -/
def construct (is_server external_service : Bool) (buffer_num : ℤ) (mem : Mem) (mgr : ChunkMgr) :
    RdmServiceWorld :=
  { external_service := external_service
    buffer_num := buffer_num
    stack := .construct is_server
    chunks := .init mem mgr
    ids := [] }

/-- The connection that a call has made. -/
def connected (w : RdmServiceWorld) (op : RdmStackOp) (con : ConId) : Option ConnectionWorld :=
  (w.chunks.step (.construct con .rdm w.external_service w.buffer_num)).bind fun k =>
    k.step (.open con op.opens)

/-- The rounds of `init` are steps of their own. -/
def step (w : RdmServiceWorld) : RdmServiceOp → Option RdmServiceWorld
  | .call op con =>
      (w.stack.step op).bind fun s =>
        if s.cons.length = w.stack.cons.length then some { w with stack := s }
        else (w.connected op con).map fun k =>
          { w with stack := s, chunks := k, ids := w.ids ++ [con] }
  | .chunk op =>
      if op.isTraffic then (w.chunks.step op).map fun k => { w with chunks := k } else none

/-- `delete con`; `none` when the loop over `used_chunks` moves on from an entry that it has
erased. -/
def deleteCon (links links' : ConId → ℕ → ℕ) (x : ConnectionWorld × OpenObjects)
    (c : RdmCon × ConId) : Option (ConnectionWorld × OpenObjects) :=
  (x.1.cons c.2).bind fun k =>
    if (x.1.destroy k (links c.2) (links' c.2)).valid then
      some ((x.1.destroy k (links c.2) (links' c.2)).world, c.1.destroy x.2)
    else none

/-- `for (auto con : cons) delete con`. -/
def deleteAll (links links' : ConId → ℕ → ℕ) (cs : List (RdmCon × ConId))
    (x : ConnectionWorld × OpenObjects) : Option (ConnectionWorld × OpenObjects) :=
  cs.foldlM (deleteCon links links') x

/-- `RdmStack::~RdmStack`; the links are written into the chunks that a pool takes back. -/
def destroy (w : RdmServiceWorld) (links links' : ConId → ℕ → ℕ) : Option OpenObjects :=
  (deleteAll links links' (w.stack.cons.zip w.ids) (w.chunks, w.stack.objects)).map fun x =>
    w.stack.closeOwn x.2

/-! ## The condition -/

/-- What the calls have to meet. -/
def Guard (w : RdmServiceWorld) : RdmServiceOp → Prop
  | .call op _ => w.stack.Guard op
  | .chunk _ => True

instance (w : RdmServiceWorld) : DecidablePred w.Guard
  | .call op _ => inferInstanceAs (Decidable (w.stack.Guard op))
  | .chunk _ => isTrue trivial

/-- What a connection at this address has filed. -/
def filed (k : ConnectionWorld) (con : ConId) : List Addr := ((k.cons con).map (·.filed)).getD []

/-- No chunk is filed twice, by one connection or by two, and none has the `buffer_id` under which
a later one of its connection is filed. -/
def Tidy (k : ConnectionWorld) (ids : List ConId) : Prop :=
  (ids.flatMap (filed k)).Nodup ∧
    ∀ con ∈ ids, ∀ c ∈ k.cons con, Connection.Apart k.mem c.used_chunks.entries

/-- No chunk is filed under its own `buffer_id`. -/
def AllAstray (k : ConnectionWorld) (ids : List ConId) : Prop :=
  ∀ con ∈ ids, ∀ c ∈ k.cons con, Connection.Astray k.mem c.used_chunks.entries

instance (k : ConnectionWorld) (ids : List ConId) : Decidable (Tidy k ids) :=
  inferInstanceAs (Decidable (_ ∧ _))

instance (k : ConnectionWorld) (ids : List ConId) : Decidable (AllAstray k ids) :=
  inferInstanceAs (Decidable (∀ con ∈ ids, _))

end RdmServiceWorld

/-! ## What the others are left with -/

namespace ConnectionWorld

variable {s t : ConnectionWorld} {c : Connection} {a : Addr} {con d : ConId}

theorem isSome_setCon (c : Connection) (hd : (s.cons d).isSome) :
    ((s.setCon con c).cons d).isSome := by
  show (Function.update s.cons con (some c) d).isSome
  by_cases h : d = con
  · rw [h, Function.update_self]
    rfl
  · rw [Function.update_of_ne h]
    exact hd

theorem cons_get {r : GetReply} {c' : Connection} {ck : Addr}
    (hget : s.get con c r = some (t, c', ck)) : t.cons = s.cons := by
  unfold get at hget
  split at hget
  · obtain ⟨⟨mgr, mem, impl, b⟩, -, heq⟩ := Option.map_eq_some_iff.mp hget
    cases heq
    rfl
  · exact absurd hget (by simp)

/-- A round of `init` keeps the connections. -/
theorem isSome_round {n : ℕ} {r : GetReply} (fab : FabricReply) (hd : (s.cons d).isSome)
    (hround : s.msgRecv con c n r fab = some t ∨ s.msgSend con c n r fab = some t ∨
      s.rdmRecv con c n r fab = some t ∨ s.rdmSend con c n r = some t) : (t.cons d).isSome := by
  rcases hround with hround | hround | hround | hround
  · obtain ⟨⟨u, c', ck⟩, hget, rfl⟩ := Option.map_eq_some_iff.mp hround
    replace hd : (u.cons d).isSome := by rwa [cons_get hget]
    dsimp only
    split_ifs <;> exact isSome_setCon _ hd
  · obtain ⟨⟨u, c', ck⟩, hget, rfl⟩ := Option.map_eq_some_iff.mp hround
    replace hd : (u.cons d).isSome := by rwa [cons_get hget]
    dsimp only
    split_ifs <;> exact isSome_setCon _ hd
  · unfold rdmRecv at hround
    dsimp only at hround
    split at hround
    · cases hround
      exact isSome_setCon _ hd
    · obtain ⟨⟨u, c', ck⟩, hget, hround⟩ := Option.bind_eq_some_iff.mp hround
      replace hd : (u.cons d).isSome := by rwa [cons_get hget]
      dsimp only at hround
      split_ifs at hround <;> cases hround <;> exact isSome_setCon _ hd
  · unfold rdmSend at hround
    split at hround
    · cases hround
      exact isSome_setCon _ hd
    · obtain ⟨⟨u, c', ck⟩, hget, hround⟩ := Option.bind_eq_some_iff.mp hround
      replace hd : (u.cons d).isSome := by rwa [cons_get hget]
      dsimp only at hround
      split_ifs at hround
      cases hround
      exact isSome_setCon _ hd

/-- Traffic keeps the connections. -/
theorem isSome_traffic {op : ConnectionOp} (hop : op.isTraffic = true) (hd : (s.cons d).isSome)
    (hstep : s.step op = some t) : (t.cons d).isSome := by
  cases op with
  | construct | «open» | destroy => cases hop
  | init_recv con r fab =>
    obtain ⟨c, -, hstep⟩ := Option.bind_eq_some_iff.mp hstep
    split at hstep
    · exact isSome_round fab hd (Or.inl hstep)
    · exact isSome_round fab hd (Or.inr (Or.inr (Or.inl hstep)))
    · exact absurd hstep (by simp)
  | init_send con r fab =>
    obtain ⟨c, -, hstep⟩ := Option.bind_eq_some_iff.mp hstep
    split at hstep
    · exact isSome_round fab hd (Or.inr (Or.inl hstep))
    · exact isSome_round fab hd (Or.inr (Or.inr (Or.inr hstep)))
    · exact absurd hstep (by simp)
  | get con r =>
    obtain ⟨c, -, hstep⟩ := Option.bind_eq_some_iff.mp hstep
    obtain ⟨⟨u, c', ck⟩, hget, rfl⟩ := Option.map_eq_some_iff.mp hstep
    refine isSome_setCon _ ?_
    rwa [cons_get hget]
  | send con ck size =>
    obtain ⟨-, hstep⟩ := Option.ite_none_right_eq_some.mp hstep
    cases hstep
    exact hd
  | reclaim con ck link =>
    obtain ⟨c, -, hstep⟩ := Option.bind_eq_some_iff.mp hstep
    obtain ⟨-, hstep⟩ := Option.ite_none_right_eq_some.mp hstep
    cases hstep
    exact isSome_setCon _ hd
  | set_buffer ck buffer =>
    obtain ⟨-, hstep⟩ := Option.ite_none_right_eq_some.mp hstep
    obtain ⟨mgr, -, rfl⟩ := Option.map_eq_some_iff.mp hstep
    exact hd

/-- Only the chunks that are given back are written to. -/
theorem mem_freeUsed {l : List (ℤ × Addr)} (links : ℕ → ℕ) (s : ConnectionWorld) (c : Connection)
    (ha : a ∉ l.map Prod.snd) : (freeUsed l links s c).world.mem a = s.mem a := by
  induction l generalizing links s c with
  | nil => rfl
  | cons e l ih =>
    obtain ⟨k, ck⟩ := e
    rw [List.map_cons, List.mem_cons, not_or] at ha
    unfold freeUsed
    split
    · dsimp only
      split
      · exact (ih _ _ _ ha.2).trans (mem_reclaim_of_ne s c ck _ ha.1)
      · exact mem_reclaim_of_ne s c ck _ ha.1
    · exact ih _ _ _ ha.2

theorem mem_freeSend {l : List Addr} (links : ℕ → ℕ) (s : ConnectionWorld) (c : Connection)
    (ha : a ∉ l) : (freeSend l links s c).mem a = s.mem a := by
  induction l generalizing links s c with
  | nil => rfl
  | cons ck l ih =>
    rw [List.mem_cons, not_or] at ha
    exact (ih _ _ _ ha.2).trans (mem_reclaim_of_ne s c ck _ ha.1)

theorem mem_destroy (links links' : ℕ → ℕ) (ha : a ∉ c.filed) :
    (s.destroy c links links').world.mem a = s.mem a := by
  rw [Connection.filed, List.mem_append, not_or] at ha
  unfold destroy
  dsimp only
  split
  · exact (mem_freeSend _ _ _ ha.2).trans (mem_freeUsed _ _ _ ha.1)
  · exact mem_freeUsed _ _ _ ha.1

theorem cons_freeUsed (l : List (ℤ × Addr)) (links : ℕ → ℕ) (s : ConnectionWorld)
    (c : Connection) : (freeUsed l links s c).world.cons = s.cons := by
  induction l generalizing links s c with
  | nil => rfl
  | cons e l ih =>
    obtain ⟨k, ck⟩ := e
    unfold freeUsed
    split
    · dsimp only
      split
      · exact ih _ _ _
      · rfl
    · exact ih _ _ _

theorem cons_freeSend (l : List Addr) (links : ℕ → ℕ) (s : ConnectionWorld) (c : Connection) :
    (freeSend l links s c).cons = s.cons := by
  induction l generalizing links s c with
  | nil => rfl
  | cons ck l ih => exact ih _ _ _

theorem cons_destroy (s : ConnectionWorld) (c : Connection) (links links' : ℕ → ℕ) :
    (s.destroy c links links').world.cons = s.cons := by
  unfold destroy
  dsimp only
  split
  · rw [cons_freeSend, cons_freeUsed]
  · exact cons_freeUsed _ _ _ _

/-- The destructor gets past its first loop exactly when that erases no entry that it stands
at. -/
theorem valid_destroy_iff (hnodup : c.filed.Nodup)
    (hapart : Connection.Apart s.mem c.used_chunks.entries) (links links' : ℕ → ℕ) :
    (s.destroy c links links').valid = true ↔ Connection.Astray s.mem c.used_chunks.entries := by
  constructor
  · intro hvalid
    exact own_of_valid links s c has_of_mem_entries (List.nodup_append.mp hnodup).1 hapart
      (valid_freeUsed hvalid)
  · exact fun hastray => (destroy_eq hnodup hapart hastray links links').1

end ConnectionWorld

namespace Connection

variable {mem mem' : Mem} {l : List (ℤ × Addr)}

theorem apart_congr (h : ∀ e ∈ l, mem' e.2 = mem e.2) : Apart mem' l ↔ Apart mem l := by
  refine ⟨fun hl => hl.imp_of_mem ?_, fun hl => hl.imp_of_mem ?_⟩
  · intro e e' he _ hee'
    rwa [← h e he]
  · intro e e' he _ hee'
    rwa [h e he]

theorem astray_congr (h : ∀ e ∈ l, mem' e.2 = mem e.2) : Astray mem' l ↔ Astray mem l := by
  refine forall₂_congr fun e he => ?_
  rw [h e he]

end Connection

namespace RdmServiceWorld

variable {k k' : ConnectionWorld} {ids : List ConId} {con : ConId} {c : Connection}

/-! ## The connections are deleted -/

theorem filed_eq (hc : k.cons con = some c) : filed k con = c.filed := by
  rw [filed, hc]
  rfl

/-- What other connections have filed is where it was. -/
theorem mem_entries_eq (hmem : ∀ a ∈ ids.flatMap (filed k), k'.mem a = k.mem a)
    (hcon : con ∈ ids) (hc : c ∈ k.cons con) :
    ∀ e ∈ c.used_chunks.entries, k'.mem e.2 = k.mem e.2 := by
  intro e he
  refine hmem e.2 (List.mem_flatMap.mpr ⟨con, hcon, ?_⟩)
  rw [filed_eq hc]
  exact List.mem_append_left _ (List.mem_map_of_mem he)

theorem filed_congr (hcons : k'.cons = k.cons) : filed k' = filed k := by
  funext con
  rw [filed, filed, hcons]

theorem tidy_congr (hcons : k'.cons = k.cons)
    (hmem : ∀ a ∈ ids.flatMap (filed k), k'.mem a = k.mem a) : Tidy k' ids ↔ Tidy k ids := by
  unfold Tidy
  rw [filed_congr hcons, hcons]
  exact and_congr_right fun _ => forall₂_congr fun con hcon => forall₂_congr fun c hc =>
    Connection.apart_congr (mem_entries_eq hmem hcon hc)

theorem allAstray_congr (hcons : k'.cons = k.cons)
    (hmem : ∀ a ∈ ids.flatMap (filed k), k'.mem a = k.mem a) :
    AllAstray k' ids ↔ AllAstray k ids := by
  unfold AllAstray
  rw [hcons]
  exact forall₂_congr fun con hcon => forall₂_congr fun c hc =>
    Connection.astray_congr (mem_entries_eq hmem hcon hc)

/-- **The connections are deleted** one after the other, unless a loop moves on from an entry that
it has erased. -/
theorem deleteAll_eq (links links' : ConId → ℕ → ℕ) {cs : List (RdmCon × ConId)}
    (k : ConnectionWorld) (o : OpenObjects) (hsome : ∀ p ∈ cs, (k.cons p.2).isSome)
    (htidy : Tidy k (cs.map Prod.snd)) :
    (deleteAll links links' cs (k, o)).map Prod.snd =
      if AllAstray k (cs.map Prod.snd) then some ((cs.map Prod.fst).foldl RdmCon.destroy o)
      else none := by
  induction cs generalizing k o with
  | nil =>
    have hnone : AllAstray k [] := fun con hcon => absurd hcon List.not_mem_nil
    rw [List.map_nil, if_pos hnone]
    rfl
  | cons p cs ih =>
    obtain ⟨r, con⟩ := p
    obtain ⟨c, hc⟩ := Option.isSome_iff_exists.mp (hsome (r, con) List.mem_cons_self)
    replace hc : k.cons con = some c := hc
    obtain ⟨hnodup, hapart⟩ := htidy
    rw [List.map_cons, List.flatMap_cons, List.nodup_append, filed_eq hc] at hnodup
    obtain ⟨hhead, hrest, hdisjoint⟩ := hnodup
    have hvalid := ConnectionWorld.valid_destroy_iff (s := k) hhead
      (hapart con List.mem_cons_self c hc) (links con) (links' con)
    have hstep : deleteAll links links' ((r, con) :: cs) (k, o) =
        (deleteCon links links' (k, o) (r, con)).bind (deleteAll links links' cs) :=
      List.foldlM_cons
    by_cases hastray : Connection.Astray k.mem c.used_chunks.entries
    · -- what the other connections have filed is not touched
      have hcons := ConnectionWorld.cons_destroy k c (links con) (links' con)
      have hmem : ∀ a ∈ (cs.map Prod.snd).flatMap (filed k),
          (k.destroy c (links con) (links' con)).world.mem a = k.mem a := fun a ha =>
        ConnectionWorld.mem_destroy _ _ fun hin => hdisjoint a hin a ha rfl
      have htail : Tidy k (cs.map Prod.snd) :=
        ⟨hrest, fun d hd => hapart d (List.mem_cons_of_mem _ hd)⟩
      have hone : deleteCon links links' (k, o) (r, con) =
          some ((k.destroy c (links con) (links' con)).world, r.destroy o) := by
        simp only [deleteCon, hc, Option.bind_some, if_pos (hvalid.mpr hastray)]
      have hsome' : ∀ p ∈ cs,
          ((k.destroy c (links con) (links' con)).world.cons p.2).isSome := by
        rw [hcons]
        exact fun p hp => hsome p (List.mem_cons_of_mem _ hp)
      rw [hstep, hone, Option.bind_some, ih _ _ hsome' ((tidy_congr hcons hmem).mpr htail)]
      refine if_congr ?_ rfl rfl
      rw [allAstray_congr hcons hmem]
      refine ⟨fun h d hd e he => ?_, fun h d hd => h d (List.mem_cons_of_mem _ hd)⟩
      rcases List.mem_cons.mp hd with rfl | hd
      · obtain rfl : c = e := Option.some.inj (hc.symm.trans he)
        exact hastray
      · exact h d hd e he
    · have hnone : deleteCon links links' (k, o) (r, con) = none := by
        simp only [deleteCon, hc, Option.bind_some, if_neg fun h => hastray (hvalid.mp h)]
      rw [hstep, hnone, if_neg fun h => hastray (h con List.mem_cons_self c hc)]
      rfl

/-! ## Runs -/

variable {w w' : RdmServiceWorld}

/-- What a step does to the stack. -/
theorem step_stack {op : RdmServiceOp} (hstep : w.step op = some w') :
    (∃ sop con, op = .call sop con ∧ w.stack.step sop = some w'.stack) ∨
      (∃ cop, op = .chunk cop) ∧ w'.stack = w.stack := by
  cases op with
  | call sop con =>
    refine Or.inl ⟨sop, con, rfl, ?_⟩
    obtain ⟨s, hs, hstep⟩ := Option.bind_eq_some_iff.mp hstep
    split at hstep
    · cases hstep
      exact hs
    · obtain ⟨k, -, rfl⟩ := Option.map_eq_some_iff.mp hstep
      exact hs
  | chunk cop =>
    refine Or.inr ⟨⟨cop, rfl⟩, ?_⟩
    obtain ⟨-, hstep⟩ := Option.ite_none_right_eq_some.mp hstep
    obtain ⟨k, -, rfl⟩ := Option.map_eq_some_iff.mp hstep
    rfl

/-- A call that meets the condition leaves the stack in order. -/
theorem good_step {op : RdmServiceOp} (hw : w.stack.Good) (hguard : w.Guard op)
    (hstep : w.step op = some w') : w'.stack.Good := by
  obtain ⟨sop, con, rfl, hstack⟩ | ⟨-, heq⟩ := step_stack hstep
  · exact RdmStackWorld.step_good hw hguard hstack
  · rw [heq]
    exact hw

/-- One that does not loses something. -/
theorem damaged_step {op : RdmServiceOp} (hw : w.stack.Good) (hguard : ¬ w.Guard op)
    (hstep : w.step op = some w') : w'.stack.Damaged := by
  obtain ⟨sop, con, rfl, hstack⟩ | ⟨⟨cop, rfl⟩, -⟩ := step_stack hstep
  · exact RdmStackWorld.step_lost hw hguard hstack
  · exact absurd trivial hguard

theorem damaged_stays {op : RdmServiceOp} (hw : w.stack.Damaged) (hstep : w.step op = some w') :
    w'.stack.Damaged := by
  obtain ⟨sop, con, rfl, hstack⟩ | ⟨-, heq⟩ := step_stack hstep
  · exact RdmStackWorld.step_damaged hw hstack
  · rw [heq]
    exact hw

/-- Every connection of the stack is at its address. -/
structure Placed (w : RdmServiceWorld) : Prop where
  length : w.stack.cons.length = w.ids.length
  cons : ∀ con ∈ w.ids, (w.chunks.cons con).isSome

/-- A new connection is at its address, and the others where they were. -/
theorem isSome_connected {op : RdmStackOp} {con d : ConId} {k : ConnectionWorld}
    (hd : d ∈ w.ids ++ [con]) (hcons : ∀ d ∈ w.ids, (w.chunks.cons d).isSome)
    (hcon : w.connected op con = some k) : (k.cons d).isSome := by
  obtain ⟨k₁, hk₁, hk⟩ := Option.bind_eq_some_iff.mp hcon
  obtain ⟨-, hk₁⟩ := Option.ite_none_right_eq_some.mp hk₁
  cases hk₁
  have hmade : ∀ c, ((w.chunks.setCon con c).cons d).isSome := by
    intro c
    rcases List.mem_append.mp hd with hd | hd
    · exact ConnectionWorld.isSome_setCon c (hcons d hd)
    · obtain rfl := List.mem_singleton.mp hd
      show (Function.update w.chunks.cons d (some c) d).isSome
      rw [Function.update_self]
      rfl
  obtain ⟨c, -, hk⟩ := Option.bind_eq_some_iff.mp hk
  split at hk
  · cases hk
    exact ConnectionWorld.isSome_setCon _ (hmade _)
  · exact absurd hk (by simp)

theorem placed_step {op : RdmServiceOp} (hw : w.Placed) (hstep : w.step op = some w') :
    w'.Placed := by
  cases op with
  | call sop con =>
    obtain ⟨s, hs, hstep⟩ := Option.bind_eq_some_iff.mp hstep
    split at hstep
    · rename_i hlength
      cases hstep
      exact ⟨hlength.trans hw.length, hw.cons⟩
    · rename_i hlength
      obtain ⟨k, hk, rfl⟩ := Option.map_eq_some_iff.mp hstep
      refine ⟨?_, fun d hd => isSome_connected hd hw.cons hk⟩
      show s.cons.length = (w.ids ++ [con]).length
      rw [(RdmStackWorld.length_step hs).resolve_left hlength, List.length_append, hw.length]
      rfl
  | chunk cop =>
    obtain ⟨hop, hstep⟩ := Option.ite_none_right_eq_some.mp hstep
    obtain ⟨k, hk, rfl⟩ := Option.map_eq_some_iff.mp hstep
    exact ⟨hw.length, fun d hd => ConnectionWorld.isSome_traffic hop (hw.cons d hd) hk⟩

/-- The destructors come to their end when no `reclaim` erases the entry that the loop stands at,
and then they close what the stack closes. -/
theorem destroy_of_tidy (links links' : ConId → ℕ → ℕ) (h : w.Placed)
    (htidy : Tidy w.chunks w.ids) :
    w.destroy links links' =
      if AllAstray w.chunks w.ids then some w.stack.destroy else none := by
  have hids : (w.stack.cons.zip w.ids).map Prod.snd = w.ids := List.map_snd_zip h.length.ge
  have hcons : (w.stack.cons.zip w.ids).map Prod.fst = w.stack.cons :=
    List.map_fst_zip h.length.le
  have hall := deleteAll_eq links links' w.chunks w.stack.objects
    (fun p hp => h.cons p.2 (List.of_mem_zip hp).2) (hids.symm ▸ htidy)
  rw [hids, hcons] at hall
  have hmap : w.destroy links links' = ((deleteAll links links' (w.stack.cons.zip w.ids)
      (w.chunks, w.stack.objects)).map Prod.snd).map w.stack.closeOwn := by
    rw [Option.map_map]
    rfl
  rw [hmap, hall]
  split
  · rfl
  · rfl

/-- A server binds, posts one of the two chunks of its pool as a receive and takes the other one,
and makes a connection besides whose address vector cannot be opened. -/
def serverRun : List RdmServiceOp :=
  [.call (.init ⟨true, .ok, true, true, true⟩) 0, .call (.bind true true .ok RdmInit.allGood) 1,
    .chunk (.init_recv 1 ⟨⟨4096, none⟩, ⟨nullptr, none⟩, 4096⟩ ⟨none, true⟩),
    .chunk (.get 1 ⟨⟨nullptr, none⟩, ⟨nullptr, none⟩, 4232⟩),
    .call (.get_con true { RdmInit.allGood with av_open := false }) 2]

/-- Its pool, whose first chunk links to the other one. -/
def server : RdmServiceWorld :=
  construct true false 1 ConnectionWorld.linkedMem (.pool (ChunkPool.new nullptr 8 2))

-- it loses a `server_info` when it binds again
example : (run step server (serverRun ++ [.call (.bind true true .ok RdmInit.allGood) 3])).map
    (fun w => (w.destroy (fun _ => id) (fun _ => id)).map fun o => decide o.ClosedOnce) =
      some (some false) := by
  decide +kernel

end RdmServiceWorld

end Hpnl
