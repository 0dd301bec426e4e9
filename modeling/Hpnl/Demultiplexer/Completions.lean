import Hpnl.Demultiplexer.CqDemultiplexer
import Hpnl.Lib.Flight

/-!
# How a chunk leaves the flight

An operation that is posted with a chunk completes, or fails; either way its completion is
read from a queue by one of four loops.  `CqDemultiplexer` and `RdmCqDemultiplexer` pass the
chunk to a callback.  `ExternalCqDemultiplexer` and `ExternalRdmCqDemultiplexer` hand it to
Java, which posts a receive chunk again and puts a send chunk back into the list of its
connection.  What `fi_cq_readerr` reports is printed.

* `CompletionWorld` — the operations that have been posted, numbered, and how the chunk of
  each has left.
* `msgHandle`, `rdmHandle`, `externalMsgHandle`, `externalRdmHandle` — the four loops, on a
  successful completion.
* `LeavesOnce` — every operation of a connection that is there is still in flight, or its
  chunk has left it once.
* `Handled`, `Guard` — what the loop needs to let go of the chunk.
* `leaves_once_iff` — **the chunk of each operation leaves once exactly when no operation
  fails**, and each successful one finds what handles it.
-/

namespace Hpnl

open Transition

/-- The loops that read a completion queue. -/
inductive CqLoop where
  /-- `CqDemultiplexer`. -/
  | msg
  /-- `RdmCqDemultiplexer`. -/
  | rdm
  /-- `ExternalCqDemultiplexer`, called by `CqService.wait_cq_event`. -/
  | externalMsg
  /-- `ExternalRdmCqDemultiplexer`, called by `RdmService.wait_event`. -/
  | externalRdm
  deriving DecidableEq, Repr

/-- The operations that the connections of a loop post: `RdmConnection` does not support
`read` and `write`, and the Java connection has no `write`. -/
def CqLoop.Offers : CqLoop → CompletionFlag → Prop
  | msg, _ => True
  | rdm, flag => flag = .recv ∨ flag = .send
  | externalMsg, flag => flag ≠ .write
  | externalRdm, flag => flag = .recv ∨ flag = .send

instance (k : CqLoop) (flag : CompletionFlag) : Decidable (k.Offers flag) := by
  cases k <;> unfold CqLoop.Offers <;> infer_instance

/-- What a loop goes by in a connection: whether it is connected, which callbacks it has,
and whether `conMap` has it. -/
structure CqConnection where
  connected : Bool := true
  recv_callback : Bool := true
  send_callback : Bool := true
  read_callback : Bool := true
  write_callback : Bool := true
  mapped : Bool := true
  deriving DecidableEq, Repr

/-- How a chunk leaves the flight. -/
inductive ChunkExit where
  /-- It is passed to a callback. -/
  | callback
  /-- It is posted again. -/
  | posted
  /-- It is put into `sendBufferList` again. -/
  | pushed
  deriving DecidableEq, Repr

/-- What a loop is answered: whether `fi_cq_readerr` delivers the error, the chunk that
`chunk_mgr->get` finds for `activate_recv_chunk`, and whether `fi_recv` accepts. -/
structure WaitReply where
  readerr : Bool := true
  get : Option Addr := none
  recv : Bool := true
  deriving DecidableEq, Repr

/-- Connections with one completion queue, and the operations they have posted; the queue has
whether they have succeeded.  `left` is how the chunk of each has left. -/
structure CompletionWorld extends Flight Operation Bool where
  created : Finset MsgConnectionId
  cons : MsgConnectionId → Option CqConnection
  left : ℕ → List ChunkExit

/-- A step of the application, of the fabric, or of the loop. -/
inductive CompletionOp where
  | create (c : MsgConnectionId) (con : CqConnection)
  /-- The callbacks, the status or `conMap` change. -/
  | set (c : MsgConnectionId) (con : CqConnection)
  /-- A receive, a send, a read or a write, which sets `ck->con`. -/
  | post (c : MsgConnectionId) (ck : Addr) (flag : CompletionFlag)
  /-- An operation completes; whether it succeeds. -/
  | complete (n : ℕ) (ok : Bool)
  /-- `wait_event`, as far as one completion. -/
  | wait_event (r : WaitReply)
  | destroy (c : MsgConnectionId)
  deriving DecidableEq, Repr

namespace CompletionWorld

/-- No connections. -/
def init : CompletionWorld :=
  { Flight.empty with
    created := ∅
    cons := fun _ => none
    left := fun _ => [] }

/-- An operation is posted. -/
def post (w : CompletionWorld) (o : Operation) : CompletionWorld :=
  { w with toFlight := w.toFlight.post o }

/-- The chunk of operation `n` leaves, if it does. -/
def leave (w : CompletionWorld) (n : ℕ) (exit : Option ChunkExit) : CompletionWorld :=
  { w with left := Function.update w.left n (w.left n ++ exit.toList) }

/-- `activate_recv_chunk()`: a chunk is taken, and posted if `fi_recv` accepts it.  A null
chunk is dereferenced. -/
def activate_recv_chunk (w : CompletionWorld) (c : MsgConnectionId) (r : WaitReply) :
    Option CompletionWorld :=
  r.get.map fun ck => if r.recv then w.post ⟨c, ck, .recv⟩ else w

/-! ## The loops -/

/-- `CqDemultiplexer::wait_event`.  A receive waits until the connection is connected, and the
callback of a send is asserted. -/
def msgHandle (w : CompletionWorld) (n : ℕ) (o : Operation) (con : CqConnection) (r : WaitReply) :
    Option CompletionWorld :=
  match o.flag with
  | .recv =>
      if con.connected then
        (w.leave n (if con.recv_callback then some .callback else none)).activate_recv_chunk o.con r
      else none
  | .send => if con.send_callback then some (w.leave n (some .callback)) else none
  | .read => some (w.leave n (if con.read_callback then some .callback else none))
  | .write => some (w.leave n (if con.write_callback then some .callback else none))

/-- `RdmCqDemultiplexer::wait_event`. -/
def rdmHandle (w : CompletionWorld) (n : ℕ) (o : Operation) (con : CqConnection) (r : WaitReply) :
    Option CompletionWorld :=
  match o.flag with
  | .recv =>
      (w.leave n (if con.recv_callback then some .callback else none)).activate_recv_chunk o.con r
  | .send => if con.send_callback then some (w.leave n (some .callback)) else none
  | .read => some w
  | .write => some w

/-- `con->activate_recv_chunk(ck)`, after Java has handled the receive. -/
def repost (w : CompletionWorld) (n : ℕ) (o : Operation) (r : WaitReply) : CompletionWorld :=
  if r.recv then (w.leave n (some .posted)).post o else w

/-- `ExternalCqDemultiplexer::wait_event` and what `CqService.wait_cq_event` does then.
`Connection.handleCallback` puts a send buffer back, and has nothing for `WRITE_EVENT`. -/
def externalMsgHandle (w : CompletionWorld) (n : ℕ) (o : Operation) (con : CqConnection)
    (r : WaitReply) : Option CompletionWorld :=
  match o.flag with
  | .recv => if con.connected then some (w.repost n o r) else none
  | .send => some (w.leave n (if con.mapped then some .pushed else none))
  | .read => some (w.leave n (if con.mapped && con.read_callback then some .callback else none))
  | .write => some w

/-- `ExternalRdmCqDemultiplexer::wait_event` and what `RdmService.wait_event` does then; for a
read or a write it has no chunk to go on with. -/
def externalRdmHandle (w : CompletionWorld) (n : ℕ) (o : Operation) (con : CqConnection)
    (r : WaitReply) : Option CompletionWorld :=
  match o.flag with
  | .recv => some (w.repost n o r)
  | .send => some (w.leave n (if con.mapped then some .pushed else none))
  | .read => none
  | .write => none

/-- A successful completion, on one of the loops. -/
def handle : CqLoop → CompletionWorld → ℕ → Operation → CqConnection → WaitReply →
    Option CompletionWorld
  | .msg => msgHandle
  | .rdm => rdmHandle
  | .externalMsg => externalMsgHandle
  | .externalRdm => externalRdmHandle

/-- `wait_event`, as far as one completion.  What `fi_cq_readerr` delivers is printed; a
successful completion leads to the connection, which must not have been deleted. -/
def wait_event (k : CqLoop) (w : CompletionWorld) (r : WaitReply) : Option CompletionWorld :=
  match w.queue with
  | [] => some w
  | (_, false) :: rest =>
      some (if r.readerr then { w with toFlight := w.read rest } else w)
  | (n, true) :: rest =>
      (w.operations[n]?).bind fun o =>
        (w.cons o.con).bind fun con => handle k { w with toFlight := w.read rest } n o con r

/-- One step. -/
def step (k : CqLoop) (w : CompletionWorld) : CompletionOp → Option CompletionWorld
  | .create c con =>
      if c ∈ w.created then none
      else some { w with
        created := insert c w.created
        cons := Function.update w.cons c (some con) }
  | .set c con =>
      if (w.cons c).isSome then some { w with cons := Function.update w.cons c (some con) }
      else none
  | .post c ck flag =>
      if (w.cons c).isSome ∧ k.Offers flag then some (w.post ⟨c, ck, flag⟩) else none
  | .complete n ok =>
      if n ∈ w.inFlight then some { w with toFlight := w.toFlight.complete n ok } else none
  | .wait_event r => w.wait_event k r
  | .destroy c =>
      if (w.cons c).isSome then some { w with cons := Function.update w.cons c none } else none

/-! ## What is to hold, and when it does -/

/-- How many times the chunk of an operation has left. -/
def exits (w : CompletionWorld) (n : ℕ) : ℕ := (w.left n).length

/-- The connection is there. -/
def Live (w : CompletionWorld) (o : Operation) : Prop := w.cons o.con ≠ none

/-- **Every chunk leaves once.**  None leaves twice; and one that was posted by a connection
that is there has left when its completion has been read. -/
def LeavesOnce (w : CompletionWorld) : Prop := w.Once w.exits w.Live

/-- What a successful completion must find. -/
def Handled (con : CqConnection) (r : WaitReply) : CqLoop → CompletionFlag → Prop
  | .msg, .recv => con.recv_callback
  | .msg, .send => True
  | .msg, .read => con.read_callback
  | .msg, .write => con.write_callback
  | .rdm, .recv => con.recv_callback
  | .rdm, .send => True
  | .externalMsg, .recv => r.recv
  | .externalMsg, .send => con.mapped
  | .externalMsg, .read => con.mapped && con.read_callback
  | .externalRdm, .recv => r.recv
  | .externalRdm, .send => con.mapped
  | _, _ => False

/-- **The condition.**  When the loop reads a completion of a connection that is there, the
operation has succeeded, and finds what handles it. -/
def Guard (k : CqLoop) (w : CompletionWorld) : CompletionOp → Prop
  | .wait_event r =>
      match w.queue with
      | [] => True
      | (n, ok) :: _ =>
          ∀ o ∈ w.operations[n]?, ∀ con ∈ w.cons o.con,
            if ok then Handled con r k o.flag else r.readerr = false
  | _ => True

/-! ## The invariant -/

/-- The chunks that have left are accounted for, and the connections are those that have been
created. -/
structure Inv (w : CompletionWorld) : Prop where
  accounted : w.toFlight.Accounted w.exits w.Live
  named : ∀ o ∈ w.operations, o.con ∈ w.created
  live : ∀ c, w.cons c ≠ none → c ∈ w.created

section

variable {k : CqLoop} {w w' : CompletionWorld} {n : ℕ} {o : Operation} {con : CqConnection}
  {r : WaitReply}

theorem leave_none : w.leave n none = w := by
  rw [leave, Option.toList_none, List.append_nil, Function.update_eq_self]

/-- `activate_recv_chunk` posts a receive of the connection, or nothing. -/
theorem activate_recv_chunk_cases {c : MsgConnectionId}
    (h : w.activate_recv_chunk c r = some w') :
    w' = w ∨ ∃ ck, w' = w.post ⟨c, ck, .recv⟩ := by
  obtain ⟨ck, -, rfl⟩ := Option.map_eq_some_iff.mp h
  split
  · exact Or.inr ⟨ck, rfl⟩
  · exact Or.inl rfl

theorem isSome_exit (b : Bool) (e : ChunkExit) :
    (if b then some e else none : Option ChunkExit).isSome ↔ b := by
  cases b <;> simp

theorem posted_of_activate {w₁ : CompletionWorld} {c : MsgConnectionId}
    (h : w₁.activate_recv_chunk c r = some w') :
    w' = w₁ ∨ ∃ p : Operation, p.con = c ∧ w' = w₁.post p := by
  rcases activate_recv_chunk_cases h with hsame | ⟨ck, hpost⟩
  · exact Or.inl hsame
  · exact Or.inr ⟨⟨c, ck, .recv⟩, rfl, hpost⟩

theorem repost_cases (w : CompletionWorld) (n : ℕ) (o : Operation) (r : WaitReply) :
    ∃ exit : Option ChunkExit, (exit.isSome ↔ r.recv) ∧
      (w.repost n o r = w.leave n exit ∨
        ∃ p : Operation, p.con = o.con ∧ w.repost n o r = (w.leave n exit).post p) := by
  rw [repost]
  split
  · rename_i hrecv
    exact ⟨some .posted, by simp [hrecv], Or.inr ⟨o, rfl, rfl⟩⟩
  · rename_i hrecv
    exact ⟨none, by simp [hrecv], Or.inl leave_none.symm⟩

/-- **What a loop does with a successful completion.**  The chunk leaves when the completion
finds what handles it, and not otherwise; at most, an operation is posted. -/
theorem handle_cases (h : handle k w n o con r = some w') :
    ∃ exit : Option ChunkExit, (exit.isSome ↔ Handled con r k o.flag) ∧
      (w' = w.leave n exit ∨ ∃ p : Operation, p.con = o.con ∧ w' = (w.leave n exit).post p) := by
  obtain ⟨c, ck, flag⟩ := o
  cases k with
  | msg =>
    cases flag with
    | recv =>
      simp only [handle, msgHandle] at h
      split at h
      · exact ⟨_, isSome_exit con.recv_callback .callback, posted_of_activate h⟩
      · cases h
    | send =>
      simp only [handle, msgHandle] at h
      split at h
      · cases h
        exact ⟨some .callback, by simp [Handled], Or.inl rfl⟩
      · cases h
    | read =>
      cases h
      exact ⟨_, isSome_exit con.read_callback .callback, Or.inl rfl⟩
    | write =>
      cases h
      exact ⟨_, isSome_exit con.write_callback .callback, Or.inl rfl⟩
  | rdm =>
    cases flag with
    | recv => exact ⟨_, isSome_exit con.recv_callback .callback, posted_of_activate h⟩
    | send =>
      simp only [handle, rdmHandle] at h
      split at h
      · cases h
        exact ⟨some .callback, by simp [Handled], Or.inl rfl⟩
      · cases h
    | read =>
      cases h
      exact ⟨none, by simp [Handled], Or.inl leave_none.symm⟩
    | write =>
      cases h
      exact ⟨none, by simp [Handled], Or.inl leave_none.symm⟩
  | externalMsg =>
    cases flag with
    | recv =>
      simp only [handle, externalMsgHandle] at h
      split at h
      · cases h
        exact repost_cases w n ⟨c, ck, .recv⟩ r
      · cases h
    | send =>
      cases h
      exact ⟨_, isSome_exit con.mapped .pushed, Or.inl rfl⟩
    | read =>
      cases h
      exact ⟨_, isSome_exit (con.mapped && con.read_callback) .callback, Or.inl rfl⟩
    | write =>
      cases h
      exact ⟨none, by simp [Handled], Or.inl leave_none.symm⟩
  | externalRdm =>
    cases flag with
    | recv =>
      cases h
      exact repost_cases w n ⟨c, ck, .recv⟩ r
    | send =>
      cases h
      exact ⟨_, isSome_exit con.mapped .pushed, Or.inl rfl⟩
    | read => cases h
    | write => cases h

theorem inv_init : init.Inv where
  accounted := Flight.accounted_empty
  named := fun _ ho => absurd ho List.not_mem_nil
  live := fun _ hc => absurd rfl hc

/-- An operation of a connection that has been created is posted. -/
theorem inv_post (h : w.Inv) (ho : o.con ∈ w.created) : (w.post o).Inv := by
  refine ⟨h.accounted.post o, fun p hp => ?_, h.live⟩
  rcases List.mem_append.mp hp with hp | hp
  · exact h.named p hp
  · rwa [List.mem_singleton.mp hp]

/-- What becomes of an operation's chunk is recorded under its number. -/
theorem exits_leave (w : CompletionWorld) (n : ℕ) (exit : Option ChunkExit) :
    (w.leave n exit).exits = Function.update w.exits n (w.exits n + exit.toList.length) := by
  funext m
  show (Function.update w.left n (w.left n ++ exit.toList) m).length = _
  by_cases hm : m = n
  · rw [hm, Function.update_self, Function.update_self, List.length_append]
    rfl
  · rw [Function.update_of_ne hm, Function.update_of_ne hm]
    rfl

/-- **A completion is read.**  The chunk leaves, unless its connection is gone. -/
theorem inv_read (h : w.Inv) {ok : Bool} {rest : List (ℕ × Bool)} {exit : Option ChunkExit}
    (hqueue : w.queue = (n, ok) :: rest)
    (hexit : ∀ o ∈ w.operations[n]?, w.Live o → exit.isSome) :
    Inv ({ w with toFlight := w.read rest }.leave n exit) := by
  refine ⟨?_, h.named, h.live⟩
  rw [exits_leave]
  have hzero : w.exits n = 0 := h.accounted.staying n (Flight.mem_pending hqueue)
  refine h.accounted.read hqueue ?_ fun o ho hlive => ?_
  · show w.exits n + exit.toList.length ≤ 1
    rw [hzero, Nat.zero_add]
    exact Option.length_toList_le
  · show w.exits n + exit.toList.length = 1
    obtain ⟨e, he⟩ := Option.isSome_iff_exists.mp (hexit o ho hlive)
    rw [hzero, he]
    rfl

/-- Fewer connections, or the same, are there. -/
theorem inv_of_live (h : w.Inv) {cons : MsgConnectionId → Option CqConnection}
    (hcons : ∀ c, cons c ≠ none → w.cons c ≠ none) : Inv { w with cons := cons } :=
  ⟨h.accounted.mono fun o _ hlive => hcons o.con hlive, h.named, fun c hc => h.live c (hcons c hc)⟩

/-- One completion. -/
theorem inv_wait_event (h : w.Inv) (hguard : Guard k w (.wait_event r))
    (hstep : w.wait_event k r = some w') : w'.Inv := by
  unfold wait_event at hstep
  unfold Guard at hguard
  split at hstep
  · cases hstep
    exact h
  · rename_i m rest hqueue
    simp only [hqueue] at hguard
    cases hstep
    split
    · rename_i hread
      have hgone : ∀ o ∈ w.operations[m]?, w.Live o → (none : Option ChunkExit).isSome := by
        intro o ho hlive
        obtain ⟨con, hcon⟩ := Option.ne_none_iff_exists'.mp hlive
        have hfalse : r.readerr = false := hguard o ho con hcon
        exact absurd (hread.symm.trans hfalse) (by simp)
      have hinv := inv_read h hqueue hgone
      rwa [leave_none] at hinv
    · exact h
  · rename_i m rest hqueue
    simp only [hqueue, if_true] at hguard
    obtain ⟨o, ho, hstep⟩ := Option.bind_eq_some_iff.mp hstep
    obtain ⟨con, hcon, hstep⟩ := Option.bind_eq_some_iff.mp hstep
    obtain ⟨exit, hexit, hcases⟩ := handle_cases hstep
    have hinv : Inv ({ w with toFlight := w.read rest }.leave m exit) :=
      inv_read h hqueue fun _ _ _ => hexit.mpr (hguard o ho con hcon)
    rcases hcases with rfl | ⟨p, hp, rfl⟩
    · exact hinv
    · refine inv_post hinv ?_
      rw [hp]
      exact h.live o.con (hcon ▸ Option.some_ne_none con)

/-- **Every step that meets the guard keeps the invariant.** -/
theorem inv_step {op : CompletionOp} (h : w.Inv) (hguard : Guard k w op)
    (hstep : step k w op = some w') : w'.Inv := by
  cases op with
  | create c con =>
    simp only [step] at hstep
    split at hstep
    · cases hstep
    · rename_i hc
      cases hstep
      have hsame : ∀ d, d ≠ c → Function.update w.cons c (some con) d = w.cons d :=
        fun d hd => Function.update_of_ne hd ..
      refine ⟨h.accounted.mono fun o ho hlive => ?_,
        fun o ho => Finset.mem_insert_of_mem (h.named o ho), fun d hd => ?_⟩
      · change Function.update w.cons c (some con) o.con ≠ none at hlive
        rwa [hsame o.con (ne_of_mem_of_not_mem (h.named o ho) hc)] at hlive
      · change Function.update w.cons c (some con) d ≠ none at hd
        by_cases hdc : d = c
        · exact hdc ▸ Finset.mem_insert_self ..
        · rw [hsame d hdc] at hd
          exact Finset.mem_insert_of_mem (h.live d hd)
  | set c con =>
    simp only [step] at hstep
    split at hstep
    · rename_i hc
      cases hstep
      refine inv_of_live h fun d hd => ?_
      by_cases hdc : d = c
      · exact hdc ▸ Option.isSome_iff_ne_none.mp hc
      · rwa [Function.update_of_ne hdc] at hd
    · cases hstep
  | post c ck flag =>
    simp only [step] at hstep
    split at hstep
    · rename_i hc
      cases hstep
      exact inv_post h (h.live c (Option.isSome_iff_ne_none.mp hc.1))
    · cases hstep
  | complete n ok =>
    simp only [step] at hstep
    split at hstep
    · rename_i hn
      cases hstep
      exact ⟨h.accounted.complete hn ok, h.named, h.live⟩
    · cases hstep
  | wait_event r => exact inv_wait_event h hguard hstep
  | destroy c =>
    simp only [step] at hstep
    split at hstep
    · cases hstep
      refine inv_of_live h fun d hd => ?_
      by_cases hdc : d = c
      · rw [hdc, Function.update_self] at hd
        exact absurd rfl hd
      · rwa [Function.update_of_ne hdc] at hd
    · cases hstep

/-! ## The guard is exact -/

/-- **What is not handled is lost.** -/
theorem guard_of_leavesOnce {op : CompletionOp} (h : w.Inv) (hstep : step k w op = some w')
    (hgood : w'.LeavesOnce) : Guard k w op := by
  cases op with
  | wait_event r =>
    cases hqueue : w.queue with
    | nil => simp only [Guard, hqueue]
    | cons e rest =>
      obtain ⟨m, ok⟩ := e
      simp only [Guard, hqueue]
      intro o ho con hcon
      have hlive : w.Live o := fun hnone => absurd (hnone.symm.trans hcon) (by simp)
      have hzero : w.exits m = 0 := h.accounted.staying m (Flight.mem_pending hqueue)
      unfold step wait_event at hstep
      rw [hqueue] at hstep
      cases ok with
      | false =>
        show r.readerr = false
        by_contra hread
        cases hstep
        rw [if_pos (Bool.eq_true_of_not_eq_false hread)] at hgood
        have hone : w.exits m = 1 := h.accounted.counted hqueue ho hgood hlive (Or.inl rfl)
        omega
      | true =>
        show Handled con r k o.flag
        simp only [Option.mem_def.mp ho, Option.mem_def.mp hcon, Option.bind_some] at hstep
        obtain ⟨exit, hexit, hcases⟩ := handle_cases hstep
        have hone : (({ w with toFlight := w.read rest } : CompletionWorld).leave m exit).exits m =
            1 := by
          rcases hcases with rfl | ⟨p, -, rfl⟩
          · exact h.accounted.counted hqueue ho hgood hlive (Or.inl rfl)
          · exact h.accounted.counted hqueue ho hgood hlive (Or.inr ⟨p, rfl⟩)
        rw [exits_leave, Function.update_self] at hone
        refine hexit.mp ?_
        cases exit with
        | none => exact absurd (hzero.symm.trans hone) (by decide)
        | some e => rfl
  | _ => trivial

end

/-- **A chunk leaves the flight once exactly when its completion is handled.**  On each of the
four loops, in every run, the chunks of the operations leave once, throughout, exactly when no
error is delivered for an operation of a connection that is there, and every successful
completion finds what handles it. -/
theorem leaves_once_iff (k : CqLoop) (ops : List CompletionOp) :
    Always (step k) LeavesOnce init ops ↔ Meets (step k) (Guard k) init ops := by
  have keep : ∀ w op w', Inv w → Guard k w op → step k w op = some w' → Inv w' :=
    fun _ _ _ h hg hstep => inv_step h hg hstep
  exact always_iff_meets (fun _ h => h.accounted.once) keep
    (fun _ _ _ h hstep hgood => guard_of_leavesOnce h hstep hgood) inv_init ops

/-- A receive fails, and `wait_event` prints the error. -/
def failedReceive : List CompletionOp :=
  [.create 0 {}, .post 0 4096 .recv, .complete 0 false, .wait_event {}]

/-- Its chunk, at 4096, is in no callback, is not posted and is with no manager. -/
theorem failed_receive_lost : ¬ Always (step .msg) LeavesOnce init failedReceive := by
  intro h
  have hrun : (run (step .msg) init failedReceive).map
      (fun w => (w.operations[0]?, w.pending, w.left 0, w.cons 0)) =
        some (some ⟨0, 4096, .recv⟩, [], [], some {}) := by
    decide +kernel
  obtain ⟨w, hw, hfields⟩ := Option.map_eq_some_iff.mp hrun
  simp only [Prod.mk.injEq] at hfields
  obtain ⟨hop, hpending, hleft, hcon⟩ := hfields
  have hlive : w.Live ⟨0, 4096, .recv⟩ := fun hnone => absurd (hcon.symm.trans hnone) (by simp)
  have hone : (w.left 0).length = 1 := (h.last hw).2 0 _ hop hlive (by simp [hpending])
  rw [hleft] at hone
  cases hone

end CompletionWorld

end Hpnl
