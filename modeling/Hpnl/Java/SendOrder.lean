import Hpnl.Java.SendWorld

/-!
# The order of the calls into the native layer

The native calls of a service, followed by what waits for one of its completion
threads, are in order for a relation between handlers, as long as nothing is queued,
done at once or queued again out of order.

* `Ordered` — the order, with everything waiting for the thread of its connection.
* `Fits` — a step keeps the order; `ordered_step` is the step lemma, for any relation
  that does not relate handlers of two connections.
* `frames_in_order` — **the frames of a connection reach the native send in the order of
  the calls of `send`, as long as** no message is sent at once past one that waits, and
  none waits again behind another.
-/

namespace Hpnl

open Transition WorkQueue

namespace SendWorld

/-- The completion thread that serves a connection. -/
def home (w : SendWorld) (c : ConnectionId) : ℕ := (w.con c).elim 0 JavaConnection.index

/-- What the native layer has done, as handlers. -/
def history (w : SendWorld) : List ExternalHandler := w.native.map NativeCall.handler

section Ordered

variable {R : ExternalHandler → ExternalHandler → Prop} {w w' : SendWorld}

/-- The native calls, and then the queue of any thread, are in order. -/
structure Ordered (R : ExternalHandler → ExternalHandler → Prop) (w : SendWorld) : Prop where
  inOrder : InOrder R (fun x => w.home x.con) w.history w.externalHandlers
  known : ∀ i, ∀ x ∈ w.externalHandlers i, ∃ k, w.con x.con = some k

theorem ordered_init (buffer : BufferId → HpnlBuffer) : Ordered R (init buffer) :=
  ⟨InOrder.nil R _, fun _ _ h => absurd h List.not_mem_nil⟩

theorem home_of_some {c : ConnectionId} {k : JavaConnection} (hk : w.con c = some k) :
    w.home c = k.index := by
  rw [home, hk]
  rfl

theorem Still.home_eq (h : Still w w') {c : ConnectionId} {k : JavaConnection}
    (hk : w.con c = some k) : w'.home c = w.home c := by
  obtain ⟨k', hk', hindex, -⟩ := h.con c k hk
  rw [home_of_some hk, home_of_some hk', hindex]

theorem Ordered.still (h : Ordered R w) (hs : Still w w') : Ordered R w' := by
  constructor
  · rw [history, hs.native, hs.externalHandlers]
    refine h.inOrder.congr_home fun i x hx => ?_
    obtain ⟨k, hk⟩ := h.known i x hx
    exact hs.home_eq hk
  · intro i x hx
    rw [hs.externalHandlers] at hx
    obtain ⟨k, hk⟩ := h.known i x hx
    obtain ⟨k', hk', -⟩ := hs.con _ k hk
    exact ⟨k', hk'⟩

theorem Ordered.addExternalEvent (h : Ordered R w) {e : ExternalHandler} {k : JavaConnection}
    (hk : w.con e.con = some k)
    (hlast : ∀ x ∈ w.history ++ w.externalHandlers k.index, R x e) :
    Ordered R (w.addExternalEvent k.index e) := by
  refine ⟨h.inOrder.enqueue (home_of_some hk) hlast, fun i x hx => ?_⟩
  rcases mem_addExternalEvent hx with hx | rfl
  · exact h.known i x hx
  · exact ⟨k, hk⟩

theorem Ordered.poll (h : Ordered R w) {i : ℕ} {e : ExternalHandler}
    {rest : List ExternalHandler} (hq : w.externalHandlers i = e :: rest) :
    Ordered R (w.poll i) := by
  constructor
  · have hdrop := h.inOrder.drop hq
    show InOrder R _ w.history (Function.update w.externalHandlers i (w.externalHandlers i).tail)
    rw [hq]
    exact hdrop
  · exact fun j x hx => h.known j x (mem_poll hx)

/-- A native call of a handler that does not wait, or does not wait any more. -/
theorem Ordered.native_append (h : Ordered R w) (apart : ∀ x y, x.con ≠ y.con → R x y)
    (call : NativeCall) (hlog : ∀ x ∈ w.history, R x call.handler)
    (hqueue : ∀ y ∈ w.externalHandlers (w.home call.handler.con), R call.handler y) :
    Ordered R { w with native := w.native ++ [call] } := by
  refine ⟨?_, h.known⟩
  have happend := h.inOrder.log_append
    (fun x y hne => apart x y fun heq => hne (congrArg w.home heq)) hlog hqueue
  show InOrder R _ ((w.native ++ [call]).map NativeCall.handler) w.externalHandlers
  rw [List.map_append]
  exact happend

theorem still_taken {m : Message} {k : JavaConnection} (hk : w.con m.con = some k)
    (b : BufferId) (h : HpnlBuffer) : Still w (w.taken m k b h) := by
  obtain ⟨hq, hn, hc⟩ :=
    still_setCon (w := w) hk (show (takeSendBuffer k).index = _ from rfl) le_rfl
  exact ⟨hq, hn, hc⟩

/-- A send keeps the order if it waits at the right place, and if nothing that waits
should have been done before a send that is done at once. -/
theorem Ordered.after_send (h : Ordered R w) (apart : ∀ x y, x.con ≠ y.con → R x y)
    {m : Message} {k : JavaConnection} (hk : w.con m.con = some k) (thread : Option ℕ) (reply : ℤ)
    (hwait : (thread = some k.index → k.sendBufferList = []) →
      ∀ x ∈ w.history ++ w.externalHandlers k.index, R x (.send m))
    (hnow : thread = some k.index → k.sendBufferList ≠ [] →
      (∀ x ∈ w.history, R x (.send m)) ∧ ∀ y ∈ w.externalHandlers k.index, R (.send m) y) :
    Ordered R ((send thread m reply).after w) := by
  rcases after_send_cases hk thread reply with ⟨hlist, heq⟩ | ⟨b, rest, hb, ht, hlist, hrun⟩
  · rw [heq]
    exact Ordered.addExternalEvent h (e := .send m) hk (hwait hlist)
  · have htaken := h.still (still_taken hk b hb)
    rcases hrun with ⟨-, heq⟩ | ⟨-, heq⟩
    · obtain ⟨hlog, hqueue⟩ := hnow ht (by simp [hlist])
      have hkt : (w.taken m k b hb).con m.con = some (takeSendBuffer k) :=
        con_setCon_self ..
      rw [heq]
      have hhome : (w.taken m k b hb).home m.con = k.index :=
        (home_of_some hkt).trans rfl
      have hdone := htaken.native_append apart
        (.send m ((w.taken m k b hb).buffer b).byteBuffer.remainingBytes) hlog
        (fun y hy => hqueue y (by rw [← hhome]; exact hy))
      exact hdone.still (still_setCon hkt rfl le_rfl)
    · rw [heq]
      exact htaken

/-- The send at the head of a queue, when it finds no send buffer and will wait again,
and what it will wait behind. -/
def waitsAgain (w : SendWorld) (index : ℕ) : Option (Message × List ExternalHandler) :=
  match w.externalHandlers index with
  | .send m :: rest =>
      (w.con m.con).bind fun k => if k.sendBufferList = [] then some (m, rest) else none
  | _ => none

theorem waitsAgain_eq {index : ℕ} {m : Message} {rest : List ExternalHandler} {k : JavaConnection}
    (hq : w.externalHandlers index = .send m :: rest) (hk : w.con m.con = some k)
    (hlist : k.sendBufferList = []) : w.waitsAgain index = some (m, rest) := by
  simp [waitsAgain, hq, hk, hlist]

/-- What a step must do to keep the order: a send that waits, or that waits again, goes
behind what it must follow, and a send that does not wait passes nothing. -/
def Fits (R : ExternalHandler → ExternalHandler → Prop) (w : SendWorld) : SendOp → Prop
  | .send thread c buffer b seq _ => ∀ k ∈ w.con c,
      if thread = some k.index ∧ k.sendBufferList ≠ [] then
        (∀ x ∈ w.history, R x (.send (w.message c k buffer b seq))) ∧
          ∀ y ∈ w.externalHandlers k.index, R (.send (w.message c k buffer b seq)) y
      else
        ∀ x ∈ w.history ++ w.externalHandlers k.index, R x (.send (w.message c k buffer b seq))
  | .waitExternalEvent index _ => ∀ p ∈ w.waitsAgain index, ∀ x ∈ p.2, R x (.send p.1)
  | .delCon c => ∀ k ∈ w.con c, ∀ x ∈ w.history ++ w.externalHandlers k.index, R x (.free c)
  | _ => True

/-- **A step that fits keeps the order.** -/
theorem ordered_step (apart : ∀ x y, x.con ≠ y.con → R x y) {op : SendOp} (h : Ordered R w)
    (hfits : Fits R w op) (hstep : step w op = some w') : Ordered R w' := by
  rcases step_cases hstep with hs | ⟨thread, c, buffer, b, seq, reply, k, rfl, hk, rfl⟩ |
    ⟨c, k, rfl, hk, rfl⟩ | ⟨index, reply, e, rest, dead, rfl, hq, rfl⟩
  · exact h.still hs
  · -- the call is counted before anything else happens
    have hcalled : Ordered R (w.setCon c { k with calls := k.calls + 1 }) :=
      h.still (still_setCon hk rfl (Nat.le_succ _))
    have hfits := hfits k hk
    refine hcalled.after_send apart (con_setCon_self ..) thread reply ?_ ?_
    · intro hlist
      rw [if_neg (fun hnow => hnow.2 (hlist hnow.1))] at hfits
      exact hfits
    · intro ht hlist
      rw [if_pos ⟨ht, hlist⟩] at hfits
      exact hfits
  · exact Ordered.addExternalEvent h (e := .free c) hk (hfits k hk)
  · have hpoll := h.poll hq
    obtain ⟨hlog, hcons, hcross⟩ := List.pairwise_append.mp (h.inOrder.ordered index)
    rw [hq] at hcons hcross
    have hrest : (w.poll index).externalHandlers index = rest := externalHandlers_poll hq
    have hhome : w.home e.con = index := h.inOrder.placed index e (hq ▸ List.mem_cons_self)
    have hbefore : ∀ x ∈ w.history, R x e := fun x hx => hcross x hx e List.mem_cons_self
    have hbehind := (List.pairwise_cons.mp hcons).1
    suffices hdone : Ordered R ((handle index reply e).after (w.poll index)) from
      ⟨hdone.inOrder, hdone.known⟩
    cases e with
    | free c =>
      refine hpoll.native_append apart (.free c) hbefore fun y hy => ?_
      change y ∈ (w.poll index).externalHandlers (w.home (ExternalHandler.free c).con) at hy
      rw [hhome, hrest] at hy
      exact hbehind y hy
    | send m =>
      obtain ⟨k, hk⟩ := h.known index (.send m) (hq ▸ List.mem_cons_self)
      have hindex : k.index = index := (home_of_some hk).symm.trans hhome
      refine hpoll.after_send apart hk (some index) reply ?_ ?_
      · intro hlist x hx
        rw [hindex, hrest] at hx
        rcases List.mem_append.mp hx with hx | hx
        · exact hbefore x hx
        · exact hfits _ (waitsAgain_eq hq hk (hlist (congrArg some hindex.symm))) x hx
      · intro _ _
        rw [hindex, hrest]
        exact ⟨hbefore, hbehind⟩

end Ordered

/-! ## The order of the calls of `send` -/

section InOrder

variable {w w' : SendWorld}

/-- Of two sends of one connection, the one that was called first comes first. -/
def Earlier : ExternalHandler → ExternalHandler → Prop
  | .send m, .send m' => m.con = m'.con → m.call < m'.call
  | _, _ => True

instance : DecidableRel Earlier
  | .send m, .send m' => inferInstanceAs (Decidable (m.con = m'.con → m.call < m'.call))
  | .send _, .free _ | .free _, .send _ | .free _, .free _ => isTrue trivial

theorem earlier_apart (x y : ExternalHandler) (h : x.con ≠ y.con) : Earlier x y := by
  cases x with
  | free c => trivial
  | send m =>
    cases y with
    | free c => trivial
    | send m' => exact fun heq => absurd heq h

/-- The frames of every connection have been handed to the native send in the order in
which its `send` was called. -/
def SentInOrder (w : SendWorld) : Prop := w.history.Pairwise Earlier

instance (w : SendWorld) : Decidable w.SentInOrder :=
  inferInstanceAs (Decidable (w.history.Pairwise Earlier))

/-- A send that is done at once finds no send of its connection waiting, and a send that
waits again for want of a buffer is the last of its connection. -/
def NonePassed (w : SendWorld) : SendOp → Prop
  | .send thread c _ _ _ _ => ∀ k ∈ w.con c, thread = some k.index → k.sendBufferList ≠ [] →
      ∀ x ∈ w.externalHandlers k.index, x.isSendOf c = false
  | .waitExternalEvent index _ => ∀ p ∈ w.waitsAgain index, ∀ x ∈ p.2, x.isSendOf p.1.con = false
  | _ => True

instance (w : SendWorld) : DecidablePred w.NonePassed
  | .send .. | .waitExternalEvent .. => by unfold NonePassed; infer_instance
  | .establishConnection .. | .sendCompleted .. | .sendFailed .. | .delCon .. | .conMapRemove ..
  | .get .. | .activate_recv_chunk .. | .received .. => isTrue trivial

/-- A send that has been counted. -/
def IsCounted (w : SendWorld) (m : Message) : Prop := ∃ k, w.con m.con = some k ∧ m.call < k.calls

/-- Every send that has been done or waits has been counted. -/
structure Counted (w : SendWorld) : Prop where
  done : ∀ m, .send m ∈ w.history → w.IsCounted m
  waiting : ∀ i m, .send m ∈ w.externalHandlers i → w.IsCounted m

theorem Still.isCounted (hs : Still w w') {m : Message} (h : w.IsCounted m) : w'.IsCounted m := by
  obtain ⟨k, hk, hlt⟩ := h
  obtain ⟨k', hk', -, hcalls⟩ := hs.con _ k hk
  exact ⟨k', hk', hlt.trans_le hcalls⟩

theorem Counted.still (h : Counted w) (hs : Still w w') : Counted w' := by
  constructor
  · intro m hm
    rw [history, hs.native] at hm
    exact hs.isCounted (h.done m hm)
  · intro i m hm
    rw [hs.externalHandlers] at hm
    exact hs.isCounted (h.waiting i m hm)

theorem Counted.addExternalEvent (h : Counted w) {e : ExternalHandler}
    (he : ∀ m, e = .send m → w.IsCounted m) (i : ℕ) : Counted (w.addExternalEvent i e) := by
  refine ⟨h.done, fun j m hm => ?_⟩
  rcases mem_addExternalEvent hm with hm | rfl
  · exact h.waiting j m hm
  · exact he m rfl

theorem Counted.after_send (h : Counted w) {m : Message} {k : JavaConnection}
    (hk : w.con m.con = some k) (hm : w.IsCounted m) (thread : Option ℕ) (reply : ℤ) :
    Counted ((send thread m reply).after w) := by
  rcases after_send_cases hk thread reply with ⟨-, heq⟩ | ⟨b, rest, hb, -, -, hrun⟩
  · rw [heq]
    exact h.addExternalEvent (fun m' heq => by cases heq; exact hm) k.index
  · have hs := still_taken hk b hb
    have htaken := h.still hs
    rcases hrun with ⟨-, heq⟩ | ⟨-, heq⟩
    · rw [heq]
      have hkt : (w.taken m k b hb).con m.con = some (takeSendBuffer k) :=
        con_setCon_self ..
      have hs' : Still (w.taken m k b hb) ((w.taken m k b hb).setCon m.con
          { takeSendBuffer k with
            accepted := if reply = 0 then (takeSendBuffer k).accepted ++ [b]
              else (takeSendBuffer k).accepted }) := still_setCon hkt rfl le_rfl
      have hset := htaken.still hs'
      refine ⟨fun m' hm' => ?_, hset.waiting⟩
      have hin : .send m' ∈ w.history ++ [ExternalHandler.send m] := by
        rwa [show (w.sent m k b hb reply).history = w.history ++ [.send m] from
          List.map_append] at hm'
      rcases List.mem_append.mp hin with hin | hin
      · exact hset.done m' hin
      · cases List.mem_singleton.mp hin
        exact hs'.isCounted (hs.isCounted hm)
    · rw [heq]
      exact htaken

theorem counted_init (buffer : BufferId → HpnlBuffer) : Counted (init buffer) :=
  ⟨fun _ h => absurd h List.not_mem_nil, fun _ _ h => absurd h List.not_mem_nil⟩

/-- Calls are counted when they are made, so every step keeps the count. -/
theorem counted_step {op : SendOp} (h : Counted w) (hstep : step w op = some w') : Counted w' := by
  rcases step_cases hstep with hs | ⟨thread, c, buffer, b, seq, reply, k, rfl, hk, rfl⟩ |
    ⟨c, k, rfl, hk, rfl⟩ | ⟨index, reply, e, rest, dead, rfl, hq, rfl⟩
  · exact h.still hs
  · have hstill : Still w (w.setCon c { k with calls := k.calls + 1 }) :=
      still_setCon hk rfl (Nat.le_succ _)
    have hcalled := h.still hstill
    have hself := con_setCon_self w c { k with calls := k.calls + 1 }
    exact hcalled.after_send (m := w.message c k buffer b seq) hself ⟨_, hself, Nat.lt_succ_self _⟩
      thread reply
  · exact h.addExternalEvent (fun m heq => by cases heq) k.index
  · have hpoll : Counted (w.poll index) :=
      ⟨h.done, fun i m hm => h.waiting i m (mem_poll hm)⟩
    suffices hdone : Counted ((handle index reply e).after (w.poll index)) from
      ⟨hdone.done, hdone.waiting⟩
    cases e with
    | free c =>
      refine ⟨fun m hm => ?_, hpoll.waiting⟩
      rw [show ((handle index reply (.free c)).after (w.poll index)).history =
        w.history ++ [.free c] from List.map_append] at hm
      rcases List.mem_append.mp hm with hm | hm
      · exact h.done m hm
      · cases List.mem_singleton.mp hm
    | send m =>
      have hm := h.waiting index m (hq ▸ List.mem_cons_self)
      obtain ⟨k, hk, -⟩ := id hm
      exact hpoll.after_send hk hm (some index) reply

/-- Where no send is passed by a later one, the order of the calls is kept. -/
theorem fits_of_nonePassed {op : SendOp} (hcounted : Counted w) (hnone : NonePassed w op) :
    Fits Earlier w op := by
  cases op with
  | send thread c buffer b seq reply =>
    intro k hk
    -- whatever has been done or waits was called before this send
    have hbefore : ∀ m, w.IsCounted m → m.con = c → m.call < k.calls := by
      rintro m ⟨j, hj, hlt⟩ rfl
      cases hk.symm.trans hj
      exact hlt
    have hlog : ∀ x ∈ w.history, Earlier x (.send (w.message c k buffer b seq)) := by
      intro x hx
      cases x with
      | free d => trivial
      | send m => exact hbefore m (hcounted.done m hx)
    split
    · rename_i hnow
      refine ⟨hlog, fun y hy => ?_⟩
      cases y with
      | free d => trivial
      | send m =>
        have hne := hnone k hk hnow.1 hnow.2 (.send m) hy
        exact fun heq => absurd heq.symm (of_decide_eq_false hne)
    · intro x hx
      rcases List.mem_append.mp hx with hx | hx
      · exact hlog x hx
      · cases x with
        | free d => trivial
        | send m => exact hbefore m (hcounted.waiting _ m hx)
  | waitExternalEvent index reply =>
    intro p hp x hx
    cases x with
    | free d => trivial
    | send m' => exact fun heq => absurd heq (of_decide_eq_false (hnone p hp (.send m') hx))
  | delCon c =>
    intro k hk x hx
    cases x <;> trivial
  | _ => trivial

/-- **The order of the frames.**  In a run in which no send passes another one of its
connection that waits, the frames of every connection are handed to the native send in
the order of the calls. -/
theorem frames_in_order (buffer : BufferId → HpnlBuffer) (ops : List SendOp)
    (h : Meets step NonePassed (init buffer) ops) :
    Always step SentInOrder (init buffer) ops := by
  have hkeep : ∀ w op w', Ordered Earlier w ∧ Counted w → NonePassed w op →
      step w op = some w' → Ordered Earlier w' ∧ Counted w' := by
    rintro w op w' ⟨hord, hcounted⟩ hnone hstep
    exact ⟨ordered_step earlier_apart hord (fits_of_nonePassed hcounted hnone) hstep,
      counted_step hcounted hstep⟩
  have hinit : Ordered Earlier (init buffer) ∧ Counted (init buffer) :=
    ⟨ordered_init buffer, counted_init buffer⟩
  exact (always_of_meets hkeep hinit h).mono fun w hw => hw.1.inOrder.log_pairwise

end InOrder

/-! ## A message that overtakes another -/

/-- The first message comes from another thread, the second one from the completion
thread, which then runs the handler of the first. -/
def overtakingRun : List SendOp :=
  [.establishConnection 0 0 [7, 8], .send none 0 (oneByte 1) 0 1 0,
    .send (some 0) 0 (oneByte 2) 0 2 0, .waitExternalEvent 0 0]

theorem frames_out_of_order : ¬ Always step SentInOrder (init smallBuffers) overtakingRun := by
  intro h
  have hrun : (run step (init smallBuffers) overtakingRun).map (fun w => decide w.SentInOrder) =
      some false := by
    decide +kernel
  obtain ⟨w, hw, hfalse⟩ := Option.map_eq_some_iff.mp hrun
  exact of_decide_eq_false hfalse (h.last hw)

/-- Messages from another thread, and then one from the completion thread. -/
theorem frames_in_order_queued : Always step SentInOrder (init smallBuffers)
    [.establishConnection 0 0 [7, 8], .send none 0 (oneByte 1) 0 1 0, .waitExternalEvent 0 0,
      .send (some 0) 0 (oneByte 2) 0 2 0] :=
  frames_in_order smallBuffers _ (by decide +kernel)

end SendWorld

end Hpnl
