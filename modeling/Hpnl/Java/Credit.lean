import Hpnl.Java.SendWorld

/-!
# Send buffers as credit

`send` takes a buffer from `sendBufferList`, the native layer keeps it until the send is
completed, and `handleCallback` puts it back.  Nothing puts it back when `put` throws or
when the native send answers anything but 0.

* `Balanced` — the list and the accepted sends together are the buffers that were
  pushed when the connection was established.
* `credit_kept` — **all connections are balanced throughout a run, exactly when** every
  `put` returns, every native send answers 0, and every completion succeeds and finds
  its connection.
-/

namespace Hpnl

open Transition

/-- No send buffer has been lost or duplicated: those in the list and those of the sends
that have been accepted and not completed are the ones that were pushed. -/
def JavaConnection.Balanced (k : JavaConnection) : Prop :=
  k.sendBufferList.length + k.accepted.length = k.pushed.length ∧
    (k.sendBufferList ++ k.accepted).Perm k.pushed

namespace JavaConnection

variable {k : JavaConnection}

theorem balanced_iff_perm : k.Balanced ↔ (k.sendBufferList ++ k.accepted).Perm k.pushed :=
  ⟨fun h => h.2, fun h => ⟨(List.length_append ..).symm.trans h.length_eq, h⟩⟩

/-- A buffer that is taken and not accepted is lost. -/
theorem not_balanced_take {b : BufferId} {rest : List BufferId} (h : k.Balanced)
    (hlist : k.sendBufferList = b :: rest) : ¬ { k with sendBufferList := rest }.Balanced := by
  rintro ⟨hlen, -⟩
  have hold := h.1
  rw [hlist, List.length_cons] at hold
  change rest.length + k.accepted.length = k.pushed.length at hlen
  omega

/-- A buffer that is taken and accepted is not. -/
theorem balanced_accept {b : BufferId} {rest : List BufferId} (h : k.Balanced)
    (hlist : k.sendBufferList = b :: rest) :
    { k with sendBufferList := rest, accepted := k.accepted ++ [b] }.Balanced := by
  have hperm := h.2
  rw [hlist] at hperm
  refine balanced_iff_perm.mpr (List.Perm.trans ?_ hperm)
  show (rest ++ (k.accepted ++ [b])).Perm (b :: rest ++ k.accepted)
  rw [← List.append_assoc]
  exact List.perm_append_singleton b (rest ++ k.accepted)

/-- A completion that puts the buffer back. -/
theorem balanced_complete {b : BufferId} (h : k.Balanced) (hb : b ∈ k.accepted) :
    { k with
      accepted := k.accepted.erase b
      sendBufferList := k.sendBufferList ++ [b] }.Balanced := by
  refine balanced_iff_perm.mpr (List.Perm.trans ?_ h.2)
  show (k.sendBufferList ++ [b] ++ k.accepted.erase b).Perm (k.sendBufferList ++ k.accepted)
  rw [List.append_assoc, List.singleton_append]
  exact (List.perm_cons_erase hb).symm.append_left k.sendBufferList

/-- A completion that does not. -/
theorem not_balanced_complete {b : BufferId} (h : k.Balanced) (hb : b ∈ k.accepted) :
    ¬ { k with accepted := k.accepted.erase b }.Balanced := by
  rintro ⟨hlen, -⟩
  have hold := h.1
  have hpos := List.length_pos_of_mem hb
  have herase := List.length_erase_of_mem hb
  change k.sendBufferList.length + (k.accepted.erase b).length = k.pushed.length at hlen
  omega

end JavaConnection

namespace SendWorld

/-- Every connection is balanced. -/
def Credit (w : SendWorld) : Prop := ∀ c k, w.con c = some k → k.Balanced

/-- If a send on the thread takes a buffer, then `put` returns and the native send answers
0. -/
def Accepted (w : SendWorld) (thread : Option ℕ) (m : Message) (reply : ℤ) : Prop :=
  ∀ k ∈ w.con m.con, thread = some k.index → ∀ b ∈ k.sendBufferList.head?,
    reply = 0 ∧ ∃ h, w.putResult m b = .ok () h

/-- Every send that takes a buffer is accepted; a completion succeeds, and finds its
connection in the `conMap`. -/
def CreditKept (w : SendWorld) : SendOp → Prop
  | .send thread c buffer b seq reply =>
      ∀ k ∈ w.con c, w.Accepted thread (w.message c k buffer b seq) reply
  | .waitExternalEvent index reply => ∀ m rest, w.externalHandlers index = .send m :: rest →
      w.Accepted (some index) m reply
  | .sendCompleted c _ => ∀ k ∈ w.con c, k.mapped = true
  | .sendFailed _ _ => False
  | _ => True

variable {w w' : SendWorld}

theorem credit_init (buffer : BufferId → HpnlBuffer) : (init buffer).Credit :=
  fun _ _ h => absurd h (by simp [init])

/-- Only the connection that has changed has to be looked at. -/
theorem credit_setCon (h : w.Credit) (c : ConnectionId) (k : JavaConnection) :
    (w.setCon c k).Credit ↔ k.Balanced := by
  constructor
  · exact fun hset => hset c k (con_setCon_self ..)
  · intro hk d j hj
    by_cases hd : d = c
    · subst hd
      cases (con_setCon_self w d k).symm.trans hj
      exact hk
    · exact h d j ((con_setCon_of_ne hd).symm.trans hj)

theorem accepted_iff {m : Message} {k : JavaConnection} (hk : w.con m.con = some k)
    {thread : Option ℕ} {reply : ℤ} : w.Accepted thread m reply ↔ (thread = some k.index →
      ∀ b ∈ k.sendBufferList.head?, reply = 0 ∧ ∃ h, w.putResult m b = .ok () h) := by
  constructor
  · exact fun hacc => hacc k hk
  · intro hacc j hj
    cases hk.symm.trans hj
    exact hacc

/-- A send keeps the credit exactly if the buffer it takes is accepted. -/
theorem credit_after_send (h : w.Credit) {m : Message} {k : JavaConnection}
    (hk : w.con m.con = some k) (thread : Option ℕ) (reply : ℤ) :
    ((send thread m reply).after w).Credit ↔ w.Accepted thread m reply := by
  rw [accepted_iff hk]
  have hbal := h _ k hk
  rcases after_send_cases hk thread reply with ⟨hlist, heq⟩ | ⟨b, rest, hb, ht, hlist, hrun⟩
  · rw [heq]
    refine ⟨fun _ ht b hb => ?_, fun _ => h⟩
    rw [hlist ht] at hb
    exact absurd hb (by simp)
  have htake : takeSendBuffer k = { k with sendBufferList := rest } := by
    rw [takeSendBuffer, hlist]
    rfl
  rcases hrun with ⟨hput, heq⟩ | ⟨⟨e, hput⟩, heq⟩
  · rw [heq]
    have hset : (w.sent m k b hb reply).Credit ↔ { takeSendBuffer k with
        accepted := if reply = 0 then k.accepted ++ [b] else k.accepted }.Balanced := by
      constructor
      · exact fun hs => hs m.con _ (con_setCon_self ..)
      · intro hk' d j hj
        by_cases hd : d = m.con
        · subst hd
          cases (con_setCon_self (w.taken m k b hb) m.con _).symm.trans hj
          exact hk'
        · have hj' := (con_setCon_of_ne (w := w.taken m k b hb) hd).symm.trans hj
          exact h d j ((con_setCon_of_ne (w := w) hd).symm.trans hj')
    rw [hset, htake]
    by_cases hreply : reply = 0
    · simp only [hreply, if_true]
      refine ⟨fun _ _ b' hb' => ?_, fun _ => JavaConnection.balanced_accept hbal hlist⟩
      rw [hlist, List.head?_cons, Option.mem_some_iff] at hb'
      exact ⟨trivial, hb, hb' ▸ hput⟩
    · simp only [hreply, if_false, false_and]
      refine ⟨fun hlost => absurd hlost (JavaConnection.not_balanced_take hbal hlist), ?_⟩
      exact fun hacc => (hacc ht b (by rw [hlist]; rfl)).elim
  · rw [heq]
    have hset : (w.taken m k b hb).Credit ↔ (takeSendBuffer k).Balanced :=
      credit_setCon h m.con (takeSendBuffer k)
    rw [hset, htake]
    refine ⟨fun hlost => absurd hlost (JavaConnection.not_balanced_take hbal hlist), ?_⟩
    intro hacc
    obtain ⟨-, h', hput'⟩ := hacc ht b (by rw [hlist]; rfl)
    exact absurd (hput.symm.trans hput') (by simp)

/-- **A step keeps the credit exactly if it meets the condition.** -/
theorem credit_step {op : SendOp} (h : w.Credit) (hstep : step w op = some w') :
    w'.Credit ↔ w.CreditKept op := by
  cases op with
  | establishConnection c index buffers =>
    obtain ⟨-, rfl⟩ := step_establishConnection hstep
    rw [credit_setCon h]
    exact ⟨fun _ => trivial, fun _ => JavaConnection.balanced_iff_perm.mpr (by simp)⟩
  | send thread c buffer b seq reply =>
    obtain ⟨k, hk, -, rfl⟩ := step_send hstep
    have hcalled : (w.setCon c { k with calls := k.calls + 1 }).Credit :=
      (credit_setCon h c _).mpr (h c k hk)
    have hself := con_setCon_self w c { k with calls := k.calls + 1 }
    have hkept : w.CreditKept (.send thread c buffer b seq reply) ↔
        w.Accepted thread (w.message c k buffer b seq) reply := by
      constructor
      · exact fun hkept => hkept k hk
      · intro hacc j hj
        cases hk.symm.trans hj
        exact hacc
    rw [credit_after_send (m := w.message c k buffer b seq) hcalled hself, hkept,
      accepted_iff (m := w.message c k buffer b seq) hself,
      accepted_iff (m := w.message c k buffer b seq) hk]
    simp only [putResult_setCon]
  | waitExternalEvent index reply =>
    obtain ⟨-, ⟨hq, rfl⟩ | ⟨e, rest, dead, hq, rfl⟩⟩ := step_waitExternalEvent hstep
    · refine ⟨fun _ m rest hm => ?_, fun _ => h⟩
      rw [hq] at hm
      exact absurd hm (by simp)
    · show ((handle index reply e).after (w.poll index)).Credit ↔ _
      cases e with
      | free c =>
        refine ⟨fun _ m rest hm => ?_, fun _ => h⟩
        rw [hq] at hm
        exact absurd hm (by simp)
      | send m =>
        have hkept : w.CreditKept (.waitExternalEvent index reply) ↔
            (w.poll index).Accepted (some index) m reply := by
          constructor
          · exact fun hkept => hkept m rest hq
          · intro hacc m' rest' hq'
            cases hq.symm.trans hq'
            exact hacc
        rw [hkept]
        cases hk : w.con m.con with
        | none =>
          refine iff_of_true ?_ fun k hk' => absurd (hk.symm.trans hk') (by simp)
          rw [show (handle index reply (.send m)).after (w.poll index) = w.poll index from
            after_send_of_none (w := w.poll index) hk (some index) reply]
          exact h
        | some k => exact credit_after_send (w := w.poll index) h hk (some index) reply
  | sendCompleted c bufferId =>
    obtain ⟨k, hk, hb, -, rfl⟩ := step_sendCompleted hstep
    have hkept : w.CreditKept (.sendCompleted c bufferId) ↔ k.mapped = true := by
      constructor
      · exact fun hkept => hkept k hk
      · intro hmapped j hj
        cases hk.symm.trans hj
        exact hmapped
    rw [credit_setCon h, hkept]
    cases hmapped : k.mapped with
    | true =>
      simp only [if_true, iff_true]
      exact JavaConnection.balanced_complete (h c k hk) hb
    | false =>
      simp only [Bool.false_eq_true, if_false, iff_false]
      exact JavaConnection.not_balanced_complete (h c k hk) hb
  | sendFailed c bufferId =>
    obtain ⟨k, hk, hb, -, rfl⟩ := step_sendFailed hstep
    rw [credit_setCon h]
    exact iff_of_false (JavaConnection.not_balanced_complete (h c k hk) hb) id
  | delCon c =>
    obtain ⟨k, -, rfl⟩ := step_delCon hstep
    exact iff_of_true h trivial
  | conMapRemove c =>
    obtain ⟨k, hk, rfl⟩ := step_conMapRemove hstep
    rw [credit_setCon h]
    exact iff_of_true (h c k hk) trivial
  | get bufferId blockBufferSize =>
    cases hstep
    exact iff_of_true h trivial
  | activate_recv_chunk bufferId =>
    obtain ⟨-, rfl⟩ := step_activate_recv_chunk hstep
    exact iff_of_true h trivial
  | received bufferId bytes =>
    obtain ⟨-, -, rfl⟩ := step_received hstep
    exact iff_of_true h trivial

/-- **When no send buffer is lost.**  Throughout a run the send buffers of every connection
are those that were pushed, exactly when every send that takes one is accepted and every
completion gives it back. -/
theorem credit_kept (buffer : BufferId → HpnlBuffer) (ops : List SendOp) :
    Always step Credit (init buffer) ops ↔ Meets step CreditKept (init buffer) ops :=
  always_iff_meets (fun _ h => h) (fun _ _ _ h hkept hstep => (credit_step h hstep).mpr hkept)
    (fun _ _ _ h hstep hafter => (credit_step h hstep).mp hafter) (credit_init buffer) ops

/-- A send that the native layer refuses for the moment. -/
def refusedRun : List SendOp :=
  [.establishConnection 0 0 [7], .send (some 0) 0 (oneByte 1) 0 1 (-11)]

theorem credit_lost : ¬ Always step Credit (init smallBuffers) refusedRun := by
  intro h
  have hrun : (run step (init smallBuffers) refusedRun).map (fun w =>
      (w.con 0).map fun k => (k.sendBufferList, k.accepted, k.pushed)) =
        some (some ([], [], [7])) := by
    decide +kernel
  obtain ⟨w, hw, hcon⟩ := Option.map_eq_some_iff.mp hrun
  obtain ⟨k, hk, hfields⟩ := Option.map_eq_some_iff.mp hcon
  simp only [Prod.mk.injEq] at hfields
  obtain ⟨hlen, -⟩ := h.last hw 0 k hk
  rw [hfields.1, hfields.2.1, hfields.2.2] at hlen
  exact absurd hlen (by decide)

end SendWorld

end Hpnl
