import Hpnl.Java.Payload
import Hpnl.Java.SendOrder

/-!
# What a step of a service does

The steps of `SendWorld`, looked at for what each of them hands to the native layer, writes
to the buffers and changes in the connections, and for the messages it leaves behind.

* `Message.frame` — the frame of a message.
* `native_step` — a step hands over at most one frame, which is that of its message.
* `content_step` — a step writes only to buffers that a send may take, or that are posted.
* `con_step` — what becomes of a connection; no buffer gets into its lists by a send.
* `holds_step` — a step makes up no message.
-/

namespace Hpnl

open Transition

/-- The frame of a message. -/
def Message.frame (m : Message) : List UInt8 :=
  Type.MSG :: m.b :: (BigEndian.toBytes 8 m.seq.toNat ++ m.bytes)

namespace SendWorld

variable {w w' : SendWorld} {op : SendOp}

/-- A completion thread takes the head of its queue: nothing, a free, or a send, which may
be one of a connection that there never was. -/
theorem waitExternalEvent_cases {index : ℕ} {reply : ℤ}
    (hstep : step w (.waitExternalEvent index reply) = some w') :
    w' = w ∨
    (∃ c rest dead, w.externalHandlers index = .free c :: rest ∧
      w' = { (w.poll index).free c with dead := dead }) ∨
    ∃ m rest dead, w.externalHandlers index = .send m :: rest ∧
      (w.con m.con = none ∧ w' = { w.poll index with dead := dead } ∨
        ∃ k, w.con m.con = some k ∧
          w' = { (send (some index) m reply).after (w.poll index) with dead := dead }) := by
  obtain ⟨-, ⟨-, rfl⟩ | ⟨e, rest, dead, hq, rfl⟩⟩ := step_waitExternalEvent hstep
  · exact Or.inl rfl
  cases e with
  | free c => exact Or.inr (Or.inl ⟨c, rest, dead, hq, rfl⟩)
  | send m =>
    refine Or.inr (Or.inr ⟨m, rest, dead, hq, ?_⟩)
    cases hk : w.con m.con with
    | none =>
      have hnone := after_send_of_none (w := w.poll index) hk (some index) reply
      refine Or.inl ⟨rfl, ?_⟩
      show { (send (some index) m reply).after (w.poll index) with dead := dead } = _
      rw [hnone]
    | some k => exact Or.inr ⟨k, rfl, rfl⟩

/-! ## The native calls and the buffers -/

/-- A send adds to the native calls the frame of its message, or nothing. -/
theorem native_after_send {m : Message} {k : JavaConnection} (hk : w.con m.con = some k)
    (hm : (w.byteBuffer m.buffer).remainingBytes = m.bytes) (thread : Option ℕ) (reply : ℤ)
    (hsafe : w.SendSafe thread m.con m.buffer) :
    ((send thread m reply).after w).native = w.native ∨
      ((send thread m reply).after w).native = w.native ++ [.send m m.frame] := by
  rcases after_send_cases hk thread reply with ⟨-, heq⟩ | ⟨b, rest, h, ht, hlist, hrun⟩
  · rw [heq]
    exact Or.inl rfl
  rcases hrun with ⟨hput, heq⟩ | ⟨-, heq⟩
  · obtain ⟨-, -, hroom⟩ := hsafe k hk ht b (by rw [hlist]; rfl)
    have hframe : h.byteBuffer.remainingBytes = m.frame := by
      rw [HpnlBuffer.frame_of_ok hput hroom, HpnlBuffer.Put.bytes, Message.frame, ← hm]
      simp [HpnlBuffer.Put.header, HpnlBuffer.Put.src]
    have hself : (w.taken m k b h).buffer b = h := Function.update_self ..
    rw [heq]
    refine Or.inr ?_
    show w.native ++ [.send m ((w.taken m k b h).buffer b).byteBuffer.remainingBytes] = _
    rw [hself, hframe]
  · rw [heq]
    exact Or.inl rfl

/-- **What a step adds to the native calls**: nothing, the frame of a message, or a free. -/
theorem native_step (hi : Intact w) (hsafe : Undisturbed w op) (hstep : step w op = some w') :
    w'.native = w.native ∨ (∃ m, w'.native = w.native ++ [.send m m.frame]) ∨
      ∃ c, w'.native = w.native ++ [.free c] := by
  rcases step_cases hstep with hs | ⟨thread, c, buffer, b, seq, reply, k, rfl, hk, rfl⟩ |
    ⟨c, k, rfl, hk, rfl⟩ | ⟨index, reply, -, -, -, rfl, -, -⟩
  · exact Or.inl hs.native
  · have hcalled : SendSafe (w.setCon c { k with calls := k.calls + 1 }) thread c buffer := by
      intro j hj ht hpnlBuffer hlist
      cases (con_setCon_self w c { k with calls := k.calls + 1 }).symm.trans hj
      have hput := hsafe k hk ht hpnlBuffer hlist
      unfold PutSafe at hput ⊢
      rw [byteBuffer_setCon]
      exact hput
    rcases native_after_send (m := w.message c k buffer b seq) (con_setCon_self ..)
      (by rw [byteBuffer_setCon]; rfl) thread reply hcalled with h | h
    · exact Or.inl h
    · exact Or.inr (Or.inl ⟨_, h⟩)
  · exact Or.inl rfl
  · rcases waitExternalEvent_cases hstep with rfl | ⟨c, rest, dead, -, rfl⟩ |
      ⟨m, rest, dead, hq, ⟨-, rfl⟩ | ⟨k, hk, rfl⟩⟩
    · exact Or.inl rfl
    · exact Or.inr (Or.inr ⟨c, rfl⟩)
    · exact Or.inl rfl
    · have hm := hi.waiting index m (hq ▸ List.mem_cons_self)
      have hread := byteBuffer_poll w index m.buffer
      have hpoll : SendSafe (w.poll index) (some index) m.con m.buffer := by
        intro j hj ht hpnlBuffer hlist
        obtain ⟨hself, hothers, hroom⟩ := hsafe m rest hq j hj ht hpnlBuffer hlist
        exact ⟨hself, fun i m' hm' => hothers i m' (mem_poll hm'), hread ▸ hroom⟩
      rcases native_after_send (w := w.poll index) hk (hread ▸ hm) (some index) reply hpoll
        with h | h
      · exact Or.inl h
      · exact Or.inr (Or.inl ⟨_, h⟩)

/-- A send writes to no buffer but the one it takes. -/
theorem buffer_after_send {m : Message} {k : JavaConnection} (hk : w.con m.con = some k)
    (thread : Option ℕ) (reply : ℤ) {b : BufferId} (hb : b ∉ k.sendBufferList) :
    ((send thread m reply).after w).buffer b = w.buffer b := by
  rcases after_send_cases hk thread reply with ⟨-, heq⟩ | ⟨b', rest, h, -, hlist, hrun⟩
  · rw [heq]
    rfl
  have hne : b ≠ b' := by
    rintro rfl
    exact hb (hlist ▸ List.mem_cons_self)
  rcases hrun with ⟨-, heq⟩ | ⟨-, heq⟩ <;> rw [heq] <;> exact Function.update_of_ne hne ..

/-- **A step leaves a buffer's bytes alone**, unless the buffer may be taken by a send, or
is received into. -/
theorem content_step (hstep : step w op = some w') {b : BufferId}
    (hsend : ∀ c k, w.con c = some k → b ∉ k.sendBufferList)
    (hreceived : ∀ bytes, op ≠ .received b bytes) :
    (w'.buffer b).byteBuffer.content = (w.buffer b).byteBuffer.content := by
  cases op with
  | establishConnection c index buffers =>
    obtain ⟨-, rfl⟩ := step_establishConnection hstep
    rfl
  | send thread c buffer type seq reply =>
    obtain ⟨k, hk, -, rfl⟩ := step_send hstep
    have hsame := buffer_after_send (w := w.setCon c { k with calls := k.calls + 1 })
      (m := w.message c k buffer type seq) (con_setCon_self ..) thread reply (hsend c k hk)
    rw [hsame, buffer_setCon]
  | waitExternalEvent index reply =>
    rcases waitExternalEvent_cases hstep with rfl | ⟨c, rest, dead, -, rfl⟩ |
      ⟨m, rest, dead, -, ⟨-, rfl⟩ | ⟨k, hk, rfl⟩⟩
    · rfl
    · rfl
    · rfl
    · have hsame := buffer_after_send (w := w.poll index) hk (some index) reply (hsend m.con k hk)
      show (((send (some index) m reply).after (w.poll index)).buffer b).byteBuffer.content = _
      rw [hsame]
      rfl
  | sendCompleted c bufferId =>
    obtain ⟨k, -, -, -, rfl⟩ := step_sendCompleted hstep
    rfl
  | sendFailed c bufferId =>
    obtain ⟨k, -, -, -, rfl⟩ := step_sendFailed hstep
    rfl
  | delCon c =>
    obtain ⟨k, -, rfl⟩ := step_delCon hstep
    rfl
  | conMapRemove c =>
    obtain ⟨k, -, rfl⟩ := step_conMapRemove hstep
    rfl
  | get bufferId blockBufferSize =>
    cases hstep
    by_cases hb : b = bufferId
    · subst hb
      show ((Function.update w.buffer b _) b).byteBuffer.content = _
      rw [Function.update_self]
      exact HpnlBuffer.content_get _ _
    · show ((Function.update w.buffer bufferId _) b).byteBuffer.content = _
      rw [Function.update_of_ne hb]
  | activate_recv_chunk bufferId =>
    obtain ⟨-, rfl⟩ := step_activate_recv_chunk hstep
    rfl
  | received bufferId bytes =>
    obtain ⟨hlen, -, rfl⟩ := step_received hstep
    have hb : b ≠ bufferId := by
      rintro rfl
      exact hreceived bytes rfl
    show ((Function.update w.buffer bufferId _) b).byteBuffer.content = _
    rw [Function.update_of_ne hb]

/-- **A step posts no buffer**, and receives into none, unless it says so. -/
theorem posted_step (hstep : step w op = some w') (hpost : ∀ b, op ≠ .activate_recv_chunk b)
    (hreceived : ∀ b bytes, op ≠ .received b bytes) : w'.posted = w.posted := by
  have hsend : ∀ {v : SendWorld} {m : Message} {k : JavaConnection} (_ : v.con m.con = some k)
      (thread : Option ℕ) (reply : ℤ), ((send thread m reply).after v).posted = v.posted := by
    intro v m k hk thread reply
    rcases after_send_cases hk thread reply with ⟨-, heq⟩ | ⟨b, rest, h, -, -, ⟨-, heq⟩ | ⟨-, heq⟩⟩
      <;> rw [heq] <;> rfl
  cases op with
  | establishConnection c index buffers =>
    obtain ⟨-, rfl⟩ := step_establishConnection hstep
    rfl
  | send thread c buffer b seq reply =>
    obtain ⟨k, -, -, rfl⟩ := step_send hstep
    exact hsend (m := w.message c k buffer b seq) (con_setCon_self ..) thread reply
  | waitExternalEvent index reply =>
    rcases waitExternalEvent_cases hstep with rfl | ⟨c, rest, dead, -, rfl⟩ |
      ⟨m, rest, dead, -, ⟨-, rfl⟩ | ⟨k, hk, rfl⟩⟩
    · rfl
    · rfl
    · rfl
    · exact hsend (v := w.poll index) hk (some index) reply
  | sendCompleted c bufferId =>
    obtain ⟨k, -, -, -, rfl⟩ := step_sendCompleted hstep
    rfl
  | sendFailed c bufferId =>
    obtain ⟨k, -, -, -, rfl⟩ := step_sendFailed hstep
    rfl
  | delCon c =>
    obtain ⟨k, -, rfl⟩ := step_delCon hstep
    rfl
  | conMapRemove c =>
    obtain ⟨k, -, rfl⟩ := step_conMapRemove hstep
    rfl
  | get bufferId blockBufferSize =>
    cases hstep
    rfl
  | activate_recv_chunk bufferId => exact absurd rfl (hpost bufferId)
  | received bufferId bytes => exact absurd rfl (hreceived bufferId bytes)

/-! ## The connections -/

/-- The call of `send` that a step is, if it is one. -/
def callOf (w : SendWorld) : SendOp → Option Message
  | .send _ c buffer b seq _ => (w.con c).map fun k => w.message c k buffer b seq
  | _ => none

/-- The call that a step is, if it is one on the connection. -/
def callsOn (w : SendWorld) (op : SendOp) (c : ConnectionId) : List Message :=
  ((w.callOf op).filter fun m => m.con = c).toList

theorem mem_callsOn {m : Message} {c : ConnectionId} :
    m ∈ w.callsOn op c ↔ m ∈ w.callOf op ∧ m.con = c := by
  simp [callsOn, Option.filter_eq_some_iff]

/-- A connection after `n` more calls: it has no more buffers than before, and it is not put
into the `conMap` again. -/
structure Follows (n : ℕ) (k k' : JavaConnection) : Prop where
  calls : k'.calls = k.calls + n
  mapped : k'.mapped = true → k.mapped = true
  buffers : ∀ b ∈ k'.sendBufferList ++ k'.accepted, b ∈ k.sendBufferList ++ k.accepted

/-- No connection comes or goes, and each follows what it was. -/
def ConsFollow (n : ConnectionId → ℕ) (w w' : SendWorld) : Prop :=
  ∀ c, w.con c = none ∧ w'.con c = none ∨
    ∃ k k', w.con c = some k ∧ w'.con c = some k' ∧ Follows (n c) k k'

theorem Follows.refl (k : JavaConnection) : Follows 0 k k := ⟨rfl, id, fun _ => id⟩

theorem Follows.trans {i j : ℕ} {k k' k'' : JavaConnection} (h : Follows i k k')
    (h' : Follows j k' k'') : Follows (i + j) k k'' :=
  ⟨by rw [h'.calls, h.calls, Nat.add_assoc], fun hm => h.mapped (h'.mapped hm),
    fun b hb => h.buffers b (h'.buffers b hb)⟩

theorem consFollow_of_eq (hc : w'.con = w.con) : ConsFollow (fun _ => 0) w w' := by
  intro c
  rw [hc]
  cases hk : w.con c with
  | none => exact Or.inl ⟨rfl, rfl⟩
  | some k => exact Or.inr ⟨k, k, rfl, rfl, Follows.refl k⟩

/-- One connection changes. -/
theorem consFollow_setCon {n : ConnectionId → ℕ} {c : ConnectionId} {k k' : JavaConnection}
    (hk : w.con c = some k) (hf : Follows (n c) k k') (hn : ∀ d, d ≠ c → n d = 0) :
    ConsFollow n w (w.setCon c k') := by
  intro d
  by_cases hd : d = c
  · subst hd
    exact Or.inr ⟨k, k', hk, con_setCon_self .., hf⟩
  · rw [con_setCon_of_ne hd, hn d hd]
    exact consFollow_of_eq rfl d

theorem ConsFollow.trans {m n : ConnectionId → ℕ} {w'' : SendWorld} (h : ConsFollow m w w')
    (h' : ConsFollow n w' w'') : ConsFollow (fun c => m c + n c) w w'' := by
  intro c
  rcases h c with ⟨hnone, hnone'⟩ | ⟨k, k', hk, hk', hf⟩ <;>
    rcases h' c with ⟨hn, hn'⟩ | ⟨j, j', hj, hj', hf'⟩
  · exact Or.inl ⟨hnone, hn'⟩
  · exact absurd (hnone'.symm.trans hj) (by simp)
  · exact absurd (hn.symm.trans hk') (by simp)
  · cases hk'.symm.trans hj
    exact Or.inr ⟨k, j', hk, hj', hf.trans hf'⟩

/-- A send moves a buffer from the list to the accepted ones, or loses it. -/
theorem consFollow_after_send {m : Message} {k : JavaConnection} (hk : w.con m.con = some k)
    (thread : Option ℕ) (reply : ℤ) :
    ConsFollow (fun _ => 0) w ((send thread m reply).after w) := by
  rcases after_send_cases hk thread reply with ⟨-, heq⟩ | ⟨b, rest, hb, -, hlist, hrun⟩
  · rw [heq]
    exact consFollow_of_eq rfl
  have htake : (takeSendBuffer k).sendBufferList = rest := by rw [takeSendBuffer, hlist, List.tail]
  rcases hrun with ⟨-, heq⟩ | ⟨-, heq⟩ <;> rw [heq]
  · -- the connection is changed twice, and the second change counts
    let k' : JavaConnection := { takeSendBuffer k with
      accepted := if reply = 0 then k.accepted ++ [b] else k.accepted }
    have hsent : (w.sent m k b hb reply).con = (w.setCon m.con k').con := Function.update_idem ..
    have hfollow : Follows 0 k k' := by
      refine ⟨rfl, id, fun x hx => ?_⟩
      change x ∈ (takeSendBuffer k).sendBufferList ++
        (if reply = 0 then k.accepted ++ [b] else k.accepted) at hx
      rw [htake] at hx
      rw [hlist]
      split at hx
      · simp only [List.mem_append, List.mem_cons, List.not_mem_nil, or_false] at hx ⊢
        tauto
      · exact List.mem_cons_of_mem b hx
    exact ConsFollow.trans (n := fun _ => 0) (m := fun _ => 0)
      (consFollow_setCon hk hfollow fun _ _ => rfl) (consFollow_of_eq hsent)
  · refine consFollow_setCon hk ⟨rfl, id, fun x hx => ?_⟩ fun _ _ => rfl
    rw [htake] at hx
    rw [hlist]
    exact List.mem_cons_of_mem b hx

/-- **What a step makes of the connections**: one is established, or each follows what it
was. -/
theorem con_step (hstep : step w op = some w') :
    (∃ c index buffers, op = .establishConnection c index buffers ∧ w.con c = none ∧
      w' = w.setCon c ⟨index, buffers, true, [], buffers, 0⟩) ∨
    ConsFollow (fun c => (w.callsOn op c).length) w w' := by
  cases op with
  | establishConnection c index buffers =>
    obtain ⟨hnone, rfl⟩ := step_establishConnection hstep
    exact Or.inl ⟨c, index, buffers, rfl, hnone, rfl⟩
  | send thread c buffer b seq reply =>
    obtain ⟨k, hk, -, rfl⟩ := step_send hstep
    have hcallOf : w.callOf (.send thread c buffer b seq reply) =
        some (w.message c k buffer b seq) := by
      rw [callOf, hk]
      rfl
    have hcalled : ConsFollow (fun d => (w.callsOn (.send thread c buffer b seq reply) d).length) w
        (w.setCon c { k with calls := k.calls + 1 }) := by
      refine consFollow_setCon hk ⟨?_, id, fun _ => id⟩ fun d hd => ?_
      · simp [callsOn, hcallOf, message, Option.filter]
      · simp [callsOn, hcallOf, message, Option.filter, Ne.symm hd]
    exact Or.inr (hcalled.trans (consFollow_after_send (m := w.message c k buffer b seq)
      (con_setCon_self ..) thread reply))
  | waitExternalEvent index reply =>
    refine Or.inr ?_
    rcases waitExternalEvent_cases hstep with rfl | ⟨c, rest, dead, -, rfl⟩ |
      ⟨m, rest, dead, -, ⟨-, rfl⟩ | ⟨k, hk, rfl⟩⟩
    · exact consFollow_of_eq rfl
    · exact consFollow_of_eq rfl
    · exact consFollow_of_eq rfl
    · exact consFollow_after_send (w := w.poll index) hk (some index) reply
  | sendCompleted c bufferId =>
    obtain ⟨k, hk, hb, -, rfl⟩ := step_sendCompleted hstep
    refine Or.inr (consFollow_setCon hk ⟨rfl, id, fun x hx => ?_⟩ fun _ _ => rfl)
    rcases List.mem_append.mp hx with hx | hx
    · change x ∈ (if k.mapped then k.sendBufferList ++ [bufferId] else k.sendBufferList) at hx
      split at hx
      · rcases List.mem_append.mp hx with hx | hx
        · exact List.mem_append_left _ hx
        · exact List.mem_append_right _ (List.mem_singleton.mp hx ▸ hb)
      · exact List.mem_append_left _ hx
    · exact List.mem_append_right _ (List.mem_of_mem_erase hx)
  | sendFailed c bufferId =>
    obtain ⟨k, hk, -, -, rfl⟩ := step_sendFailed hstep
    refine Or.inr (consFollow_setCon hk ⟨rfl, id, fun x hx => ?_⟩ fun _ _ => rfl)
    rcases List.mem_append.mp hx with hx | hx
    · exact List.mem_append_left _ hx
    · exact List.mem_append_right _ (List.mem_of_mem_erase hx)
  | delCon c =>
    obtain ⟨k, -, rfl⟩ := step_delCon hstep
    exact Or.inr (consFollow_of_eq rfl)
  | conMapRemove c =>
    obtain ⟨k, hk, rfl⟩ := step_conMapRemove hstep
    exact Or.inr (consFollow_setCon hk ⟨rfl, fun h => absurd h (by simp), fun _ => id⟩
      fun _ _ => rfl)
  | get bufferId blockBufferSize =>
    cases hstep
    exact Or.inr (consFollow_of_eq rfl)
  | activate_recv_chunk bufferId =>
    obtain ⟨-, rfl⟩ := step_activate_recv_chunk hstep
    exact Or.inr (consFollow_of_eq rfl)
  | received bufferId bytes =>
    obtain ⟨-, -, rfl⟩ := step_received hstep
    exact Or.inr (consFollow_of_eq rfl)

/-! ### What follows for the calls, the buffers and the `conMap` -/

/-- How often `send` has been called on a connection. -/
def calls (w : SendWorld) (c : ConnectionId) : ℕ := (w.con c).elim 0 JavaConnection.calls

/-- Calls are numbered. -/
theorem call_of_callOf {m : Message} (hm : m ∈ w.callOf op) : m.call = w.calls m.con := by
  cases op with
  | send thread c buffer b seq reply =>
    obtain ⟨k, hk, rfl⟩ := Option.map_eq_some_iff.mp hm
    show k.calls = (w.con c).elim 0 JavaConnection.calls
    rw [hk]
    rfl
  | _ => cases hm

theorem calls_step (hstep : step w op = some w') (c : ConnectionId) :
    w'.calls c = w.calls c + (w.callsOn op c).length := by
  rcases con_step hstep with ⟨d, index, buffers, rfl, hnone, rfl⟩ | hf
  · by_cases hc : c = d
    · subst hc
      rw [calls, con_setCon_self, calls, hnone]
      rfl
    · rw [calls, con_setCon_of_ne hc]
      rfl
  · rcases hf c with ⟨hk, hk'⟩ | ⟨k, k', hk, hk', hf⟩
    · have hcalls : w.callsOn op c = [] := by
        refine List.eq_nil_iff_forall_not_mem.mpr fun m hm => ?_
        obtain ⟨hcall, rfl⟩ := mem_callsOn.mp hm
        cases op with
        | send thread d buffer b seq reply =>
          obtain ⟨j, hj, rfl⟩ := Option.map_eq_some_iff.mp hcall
          exact absurd (hk.symm.trans hj) (by simp)
        | _ => cases hcall
      rw [calls, calls, hk, hk', hcalls]
      rfl
    · rw [calls, calls, hk, hk']
      exact hf.calls

/-- The buffers that the sends of a service take are among those of a set. -/
def SendBuffersIn (S : Finset BufferId) (w : SendWorld) : Prop :=
  ∀ c k, w.con c = some k → ∀ b ∈ k.sendBufferList ++ k.accepted, b ∈ S

/-- Sends take buffers of the lists only, and completions give back what was taken. -/
theorem sendBuffersIn_step {S : Finset BufferId} (h : SendBuffersIn S w)
    (hnew : ∀ c index buffers, op = .establishConnection c index buffers → ∀ b ∈ buffers, b ∈ S)
    (hstep : step w op = some w') : SendBuffersIn S w' := by
  intro c k' hk' b hb
  rcases con_step hstep with ⟨d, index, buffers, rfl, -, rfl⟩ | hf
  · by_cases hc : c = d
    · subst hc
      cases (con_setCon_self ..).symm.trans hk'
      rw [List.append_nil] at hb
      exact hnew c index buffers rfl b hb
    · exact h c k' ((con_setCon_of_ne hc).symm.trans hk') b hb
  · rcases hf c with ⟨-, hnone⟩ | ⟨k, j, hk, hj, hf⟩
    · exact absurd (hnone.symm.trans hk') (by simp)
    · cases hj.symm.trans hk'
      exact h c k hk b (hf.buffers b hb)

/-- A connection that is in the `conMap` has been there since it was established. -/
theorem mapped_step (hstep : step w op = some w') {c : ConnectionId}
    (h : ∀ k ∈ w'.con c, k.mapped = true) : ∀ k ∈ w.con c, k.mapped = true := by
  intro k hk
  rcases con_step hstep with ⟨d, index, buffers, rfl, hnone, rfl⟩ | hf
  · have hc : c ≠ d := by
      rintro rfl
      exact absurd (hnone.symm.trans hk) (by simp)
    exact h k ((con_setCon_of_ne hc).trans hk)
  · rcases hf c with ⟨hnone, -⟩ | ⟨j, k', hj, hk', hf⟩
    · exact absurd (hnone.symm.trans hk) (by simp)
    · cases hj.symm.trans hk
      exact hf.mapped (h k' hk')

/-! ## The messages -/

/-- What holds of all messages that wait or have been handed to the native layer. -/
structure Holds (P : Message → Prop) (w : SendWorld) : Prop where
  done : ∀ m, .send m ∈ w.history → P m
  waiting : ∀ i m, .send m ∈ w.externalHandlers i → P m

section Messages

variable {P : Message → Prop}

theorem Holds.mono {Q : Message → Prop} (h : Holds P w) (hPQ : ∀ m, P m → Q m) : Holds Q w :=
  ⟨fun m hm => hPQ m (h.done m hm), fun i m hm => hPQ m (h.waiting i m hm)⟩

theorem Holds.addExternalEvent (h : Holds P w) {e : ExternalHandler}
    (he : ∀ m, e = .send m → P m) (i : ℕ) : Holds P (w.addExternalEvent i e) := by
  refine ⟨h.done, fun j m hm => ?_⟩
  rcases mem_addExternalEvent hm with hm | rfl
  · exact h.waiting j m hm
  · exact he m rfl

theorem Holds.after_send (h : Holds P w) {m : Message} {k : JavaConnection}
    (hk : w.con m.con = some k) (hm : P m) (thread : Option ℕ) (reply : ℤ) :
    Holds P ((send thread m reply).after w) := by
  rcases after_send_cases hk thread reply with ⟨-, heq⟩ | ⟨b, rest, hb, -, -, hrun⟩
  · rw [heq]
    exact h.addExternalEvent (fun m' heq => by cases heq; exact hm) k.index
  rcases hrun with ⟨-, heq⟩ | ⟨-, heq⟩
  · rw [heq]
    refine ⟨fun m' hm' => ?_, h.waiting⟩
    rw [show (w.sent m k b hb reply).history = w.history ++ [.send m] from List.map_append] at hm'
    rcases List.mem_append.mp hm' with hm' | hm'
    · exact h.done m' hm'
    · cases List.mem_singleton.mp hm'
      exact hm
  · rw [heq]
    exact ⟨h.done, h.waiting⟩

/-- **No message is made up**: what holds of the messages and of the call holds of the
messages afterwards. -/
theorem holds_step (h : Holds P w) (hnew : ∀ m ∈ w.callOf op, P m)
    (hstep : step w op = some w') : Holds P w' := by
  rcases step_cases hstep with hs | ⟨thread, c, buffer, b, seq, reply, k, rfl, hk, rfl⟩ |
    ⟨c, k, rfl, hk, rfl⟩ | ⟨index, reply, -, -, -, rfl, -, -⟩
  · constructor
    · intro m hm
      rw [history, hs.native] at hm
      exact h.done m hm
    · intro i m hm
      rw [hs.externalHandlers] at hm
      exact h.waiting i m hm
  · have hcall : P (w.message c k buffer b seq) := hnew _ (by rw [callOf, hk]; rfl)
    have hcalled : Holds P (w.setCon c { k with calls := k.calls + 1 }) := ⟨h.done, h.waiting⟩
    exact hcalled.after_send (m := w.message c k buffer b seq) (con_setCon_self ..) hcall thread
      reply
  · exact h.addExternalEvent (fun m heq => by cases heq) k.index
  · have hpoll : Holds P (w.poll index) :=
      ⟨h.done, fun i m hm => h.waiting i m (mem_poll hm)⟩
    rcases waitExternalEvent_cases hstep with rfl | ⟨c, rest, dead, -, rfl⟩ |
      ⟨m, rest, dead, hq, ⟨-, rfl⟩ | ⟨k, hk, rfl⟩⟩
    · exact h
    · refine ⟨fun m hm => ?_, hpoll.waiting⟩
      change ExternalHandler.send m ∈
        ((w.poll index).native ++ [NativeCall.free c]).map NativeCall.handler at hm
      rw [List.map_append] at hm
      rcases List.mem_append.mp hm with hm | hm
      · exact h.done m hm
      · cases List.mem_singleton.mp hm
    · exact ⟨hpoll.done, hpoll.waiting⟩
    · have hsend := hpoll.after_send hk (h.waiting index m (hq ▸ List.mem_cons_self)) (some index)
        reply
      exact ⟨hsend.done, hsend.waiting⟩

end Messages

end SendWorld

end Hpnl
