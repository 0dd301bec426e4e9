import Hpnl.Java.SendWorld

/-!
# What a frame carries

The `ByteBuffer` that a receive callback passes to `send` is a slice of the receive
buffer, which the native layer posts again when the callback returns.  A `send` that
waits reads the slice only when its handler runs.

* `get_eq_view` — what `HpnlBuffer.get` returns is a slice of the buffer's memory.
* `frame_of_ok`, `payload_of_ok` — a `put` that returns, with room for the header, has
  written the frame, and so copied what its source held.
* `payload_intact` — **the frames that are handed to the native send carry what the
  buffers held when `send` was called, as long as** nothing is received into, or put
  into, the memory of a slice that waits, and the header has room.
-/

namespace Hpnl

open Transition MachineInt

namespace HpnlBuffer

variable {h h' : HpnlBuffer} {p : ByteBuffer}

theorem getRest_eq_slice (hrun : getRest.run h = .ok p h') : p = h'.byteBuffer.slice := by
  obtain ⟨type, h₁, -, hrun⟩ := Java.ok_of_bind hrun
  obtain ⟨-, h₂, -, hrun⟩ := Java.ok_of_bind hrun
  obtain ⟨seq, h₃, -, hrun⟩ := Java.ok_of_bind hrun
  obtain ⟨-, h₄, -, hrun⟩ := Java.ok_of_bind hrun
  cases hrun
  rfl

/-- The payload that `get` returns shares the memory of the buffer. -/
theorem get_eq_view {n : ℤ} (hrun : (get n).run h = .ok p h') :
    p = h'.byteBuffer.view h'.byteBuffer.position h'.byteBuffer.remaining := by
  rw [← ByteBuffer.slice_eq_view]
  obtain ⟨-, h₁, -, hrun⟩ := Java.ok_of_bind hrun
  obtain ⟨-, h₂, -, hrun⟩ := Java.ok_of_bind hrun
  obtain ⟨tag, h₃, -, hrun⟩ := Java.ok_of_bind hrun
  by_cases htag : tag = Type.MSG
  · rw [if_pos htag] at hrun
    exact getRest_eq_slice hrun
  · rw [if_neg htag] at hrun
    obtain ⟨nameLength, h₄, -, hrun⟩ := Java.ok_of_bind hrun
    obtain ⟨-, h₅, -, hrun⟩ := Java.ok_of_bind hrun
    obtain ⟨nameTmp, h₆, -, hrun⟩ := Java.ok_of_bind hrun
    obtain ⟨-, h₇, -, hrun⟩ := Java.ok_of_bind hrun
    exact getRest_eq_slice hrun

/-- The header of a message. -/
theorem length_header_msg (src : ByteBuffer) (type : UInt8) (seq : UInt64) :
    (Put.msg src type seq).header.flatten.length = METADATA_SIZE.toNat := by
  simp [Put.header, METADATA_SIZE]

/-- A put that returns has written the frame, unless the source has room within the limit
and the header has not. -/
theorem frame_of_ok {src : ByteBuffer} {type : UInt8} {seq : UInt64}
    (hok : (putMsg src type seq).run h = .ok () h')
    (hroom : src.remaining ≤ h.byteBuffer.limit →
      METADATA_SIZE + src.remaining ≤ h.byteBuffer.limit) :
    h'.byteBuffer.remainingBytes = (Put.msg src type seq).bytes := by
  have hout : (Put.msg src type seq).outcome h = .ok h'.byteBuffer.remainingBytes :=
    Put.outcome_of_run (p := .msg src type seq) hok
  have hframe : (Put.msg src type seq).frame = METADATA_SIZE + src.remaining := rfl
  by_cases hsrc : src.remaining ≤ h.byteBuffer.limit
  · have hle := hroom hsrc
    have hcap := h.byteBuffer.limit_le
    rw [← hframe] at hle
    have hfits : (Put.msg src type seq).frame ≤ h.byteBuffer.capacity :=
      hle.trans (Int.ofNat_le.mpr hcap)
    have hneg : 0 ≤ (Put.msg src type seq).frame := by
      rw [hframe, METADATA_SIZE]
      omega
    rw [Put.outcome_of_le hfits hle hneg] at hout
    split at hout
    · exact (Except.ok.inj hout).symm
    · exact absurd hout (by simp)
  · -- neither the frame nor the bare payload has room
    by_cases hint : (Put.msg src type seq).frame < 2 ^ 31
    · have hlt : (h.byteBuffer.limit : ℤ) < toInt32 (Put.msg src type seq).frame := by
        rw [toInt32_eq_self (by rw [hframe, METADATA_SIZE]; omega) hint, hframe, METADATA_SIZE]
        omega
      rw [Put.outcome_of_lt_toInt32 hlt,
        if_neg (show ¬ (Put.msg src type seq).src.remaining ≤ _ from hsrc)] at hout
      exact absurd hout (by simp)
    · have hlen : src.remaining < 2 ^ 31 := by
        have := src.limit_le
        have := src.capacity_lt
        unfold ByteBuffer.remaining
        omega
      have hneg : toInt32 (Put.msg src type seq).frame < 0 := by
        rw [hframe, METADATA_SIZE] at hint ⊢
        simp only [toInt32]
        omega
      rw [Put.outcome_of_neg_toInt32 hneg] at hout
      exact absurd hout (by simp)

/-- It has copied its source behind the header. -/
theorem payload_of_ok {src : ByteBuffer} {type : UInt8} {seq : UInt64}
    (hok : (putMsg src type seq).run h = .ok () h')
    (hroom : src.remaining ≤ h.byteBuffer.limit →
      METADATA_SIZE + src.remaining ≤ h.byteBuffer.limit) :
    h'.byteBuffer.remainingBytes.drop METADATA_SIZE.toNat = src.remainingBytes := by
  rw [frame_of_ok hok hroom]
  exact List.drop_left' (length_header_msg src type seq)

end HpnlBuffer

/-- Whether a buffer shares the memory of the `HpnlBuffer`. -/
def Source.isSliceOf (bufferId : BufferId) : Source → Bool
  | own _ => false
  | slice r _ _ => r = bufferId

/-- The payload of a frame is what the buffer held when `send` was called. -/
def NativeCall.Intact : NativeCall → Prop
  | send m frame => frame.drop METADATA_SIZE.toNat = m.bytes
  | free _ => True

instance : DecidablePred NativeCall.Intact
  | .send m frame => inferInstanceAs (Decidable (frame.drop METADATA_SIZE.toNat = m.bytes))
  | .free _ => isTrue trivial

namespace SendWorld

/-- The payload of every frame that has been handed to the native send is what the
buffer held when `send` was called. -/
def PayloadIntact (w : SendWorld) : Prop := ∀ call ∈ w.native, call.Intact

instance (w : SendWorld) : Decidable w.PayloadIntact :=
  inferInstanceAs (Decidable (∀ call ∈ w.native, call.Intact))

/-- The send buffer shares its memory neither with the source nor with a send that
waits, and if the payload has room in it, the header has, too. -/
def PutSafe (w : SendWorld) (buffer : Source) (hpnlBuffer : BufferId) : Prop :=
  buffer.isSliceOf hpnlBuffer = false ∧
    (∀ i m, .send m ∈ w.externalHandlers i → m.buffer.isSliceOf hpnlBuffer = false) ∧
    ((w.byteBuffer buffer).remaining ≤ (w.buffer hpnlBuffer).byteBuffer.limit →
      METADATA_SIZE + (w.byteBuffer buffer).remaining ≤ (w.buffer hpnlBuffer).byteBuffer.limit)

/-- The send buffer that a send on the thread takes, if it takes one, is safe. -/
def SendSafe (w : SendWorld) (thread : Option ℕ) (c : ConnectionId) (buffer : Source) : Prop :=
  ∀ k ∈ w.con c, thread = some k.index → ∀ hpnlBuffer ∈ k.sendBufferList.head?,
    w.PutSafe buffer hpnlBuffer

/-- Send buffers that are taken are safe, and what is received changes nothing that a
send that waits has still to read. -/
def Undisturbed (w : SendWorld) : SendOp → Prop
  | .send thread c buffer _ _ _ => w.SendSafe thread c buffer
  | .waitExternalEvent index _ => ∀ m rest, w.externalHandlers index = .send m :: rest →
      w.SendSafe (some index) m.con m.buffer
  | .received r bytes => ∀ i m offset length, .send m ∈ w.externalHandlers i →
      m.buffer = .slice r offset length →
        ((bytes ++ (w.buffer r).byteBuffer.content.drop bytes.length).drop offset).take length =
          ((w.buffer r).byteBuffer.content.drop offset).take length
  | _ => True

/-- The frames are right, and what waits still reads what it was given. -/
structure Intact (w : SendWorld) : Prop where
  done : w.PayloadIntact
  waiting : ∀ i m, .send m ∈ w.externalHandlers i →
    (w.byteBuffer m.buffer).remainingBytes = m.bytes

variable {w w' : SendWorld}

theorem intact_init (buffer : BufferId → HpnlBuffer) : Intact (init buffer) :=
  ⟨fun _ h => absurd h List.not_mem_nil, fun _ _ h => absurd h List.not_mem_nil⟩

/-- Writing to a buffer is not seen through the slices of another one. -/
theorem byteBuffer_setBuffer {src : Source} {b : BufferId} (hsrc : src.isSliceOf b = false)
    (h : HpnlBuffer) : (w.setBuffer b h).byteBuffer src = w.byteBuffer src := by
  cases src with
  | own own => rfl
  | slice r offset length =>
    have hne : r ≠ b := of_decide_eq_false hsrc
    show ((Function.update w.buffer b h) r).byteBuffer.view offset length = _
    rw [Function.update_of_ne hne]
    rfl

/-- A step that moves no message is harmless if what waits reads what it read before. -/
theorem Intact.of_read (hi : Intact w) (hq : w'.externalHandlers = w.externalHandlers)
    (hn : w'.native = w.native)
    (hread : ∀ i m, .send m ∈ w.externalHandlers i →
      (w'.byteBuffer m.buffer).remainingBytes = (w.byteBuffer m.buffer).remainingBytes) :
    Intact w' := by
  refine ⟨fun call hcall => hi.done call (hn ▸ hcall), fun i m hm => ?_⟩
  rw [hq] at hm
  exact (hread i m hm).trans (hi.waiting i m hm)

theorem Intact.addExternalEvent (hi : Intact w) {e : ExternalHandler}
    (he : ∀ m, e = .send m → (w.byteBuffer m.buffer).remainingBytes = m.bytes) (i : ℕ) :
    Intact (w.addExternalEvent i e) := by
  refine ⟨hi.done, fun j m hm => ?_⟩
  have hread : ((w.addExternalEvent i e).byteBuffer m.buffer) = w.byteBuffer m.buffer := by
    cases m.buffer <;> rfl
  rw [hread]
  rcases mem_addExternalEvent hm with hm | rfl
  · exact hi.waiting j m hm
  · exact he m rfl

theorem Intact.after_send (hi : Intact w) {m : Message} {k : JavaConnection}
    (hk : w.con m.con = some k) (hm : (w.byteBuffer m.buffer).remainingBytes = m.bytes)
    (thread : Option ℕ) (reply : ℤ) (hsafe : w.SendSafe thread m.con m.buffer) :
    Intact ((send thread m reply).after w) := by
  rcases after_send_cases hk thread reply with ⟨-, heq⟩ | ⟨b, rest, h, ht, hlist, hrun⟩
  · rw [heq]
    exact hi.addExternalEvent (fun m' heq => by cases heq; exact hm) k.index
  obtain ⟨-, hothers, hroom⟩ := hsafe k hk ht b (by rw [hlist]; rfl)
  have htaken : Intact (w.taken m k b h) := by
    refine hi.of_read rfl rfl fun i m' hm' => ?_
    have hset := byteBuffer_setBuffer (w := w.setCon m.con (takeSendBuffer k)) (hothers i m' hm') h
    rw [byteBuffer_setCon] at hset
    exact congrArg ByteBuffer.remainingBytes hset
  rcases hrun with ⟨hput, heq⟩ | ⟨-, heq⟩
  · rw [heq]
    refine ⟨fun call hcall => ?_, fun i m' hm' => ?_⟩
    · rcases List.mem_append.mp hcall with hold | hnew
      · exact hi.done call hold
      · rw [List.mem_singleton.mp hnew]
        have hself : ((w.taken m k b h).buffer b) = h := Function.update_self ..
        show (((w.taken m k b h).buffer b).byteBuffer.remainingBytes).drop _ = m.bytes
        rw [hself, HpnlBuffer.payload_of_ok hput hroom, hm]
    · have hread : (w.sent m k b h reply).byteBuffer m'.buffer =
          (w.taken m k b h).byteBuffer m'.buffer := by
        cases m'.buffer <;> rfl
      rw [hread]
      exact htaken.waiting i m' hm'
  · rw [heq]
    exact htaken

theorem byteBuffer_poll (w : SendWorld) (index : ℕ) (src : Source) :
    (w.poll index).byteBuffer src = w.byteBuffer src := by
  cases src <;> rfl

theorem Intact.poll (hi : Intact w) (index : ℕ) : Intact (w.poll index) := by
  refine ⟨hi.done, fun i m hm => ?_⟩
  rw [byteBuffer_poll]
  exact hi.waiting i m (mem_poll hm)

/-- A buffer is written, and what waits does not see it. -/
theorem Intact.of_setBuffer (hi : Intact w) {b : BufferId} {h : HpnlBuffer}
    (hq : w'.externalHandlers = w.externalHandlers) (hn : w'.native = w.native)
    (hb : w'.buffer = Function.update w.buffer b h)
    (hsame : ∀ i m offset length, .send m ∈ w.externalHandlers i →
      m.buffer = .slice b offset length → (h.byteBuffer.view offset length).remainingBytes =
        ((w.buffer b).byteBuffer.view offset length).remainingBytes) : Intact w' := by
  refine hi.of_read hq hn fun i m hm => ?_
  cases hsrc : m.buffer with
  | own own => rfl
  | slice r offset length =>
    show ((w'.buffer r).byteBuffer.view offset length).remainingBytes =
      ((w.buffer r).byteBuffer.view offset length).remainingBytes
    rw [hb]
    by_cases hr : r = b
    · subst hr
      rw [Function.update_self]
      exact hsame i m offset length hm hsrc
    · rw [Function.update_of_ne hr]

theorem intact_step {op : SendOp} (hi : Intact w) (hsafe : Undisturbed w op)
    (hstep : step w op = some w') : Intact w' := by
  cases op with
  | establishConnection c index buffers =>
    obtain ⟨-, rfl⟩ := step_establishConnection hstep
    exact hi.of_read rfl rfl fun i m _ => by rw [byteBuffer_setCon]
  | send thread c buffer b seq reply =>
    obtain ⟨k, hk, -, rfl⟩ := step_send hstep
    have hcalled : Intact (w.setCon c { k with calls := k.calls + 1 }) :=
      hi.of_read rfl rfl fun i m _ => by rw [byteBuffer_setCon]
    refine hcalled.after_send (m := w.message c k buffer b seq) (con_setCon_self ..)
      (by rw [byteBuffer_setCon]; rfl) thread reply ?_
    intro j hj ht hpnlBuffer hlist
    cases (con_setCon_self w c { k with calls := k.calls + 1 }).symm.trans hj
    have hput := hsafe k hk ht hpnlBuffer hlist
    unfold PutSafe at hput ⊢
    rw [byteBuffer_setCon]
    exact hput
  | waitExternalEvent index reply =>
    obtain ⟨-, ⟨hq, rfl⟩ | ⟨e, rest, dead, hq, rfl⟩⟩ := step_waitExternalEvent hstep
    · exact hi
    have hpoll : Intact (w.poll index) := hi.poll index
    suffices hdone : Intact ((handle index reply e).after (w.poll index)) from
      hdone.of_read rfl rfl fun i m _ => by cases m.buffer <;> rfl
    cases e with
    | free c =>
      refine ⟨fun call hcall => ?_, hpoll.waiting⟩
      rcases List.mem_append.mp hcall with hold | hnew
      · exact hi.done call hold
      · rw [List.mem_singleton.mp hnew]
        trivial
    | send m =>
      have hm := hi.waiting index m (hq ▸ List.mem_cons_self)
      have hread := byteBuffer_poll w index m.buffer
      cases hk : w.con m.con with
      | none =>
        rw [show (handle index reply (.send m)).after (w.poll index) = w.poll index from
          after_send_of_none (w := w.poll index) hk (some index) reply]
        exact hpoll
      | some k =>
        refine hpoll.after_send hk (hread ▸ hm) (some index) reply ?_
        intro j hj ht hpnlBuffer hlist
        obtain ⟨hself, hothers, hroom⟩ := hsafe m rest hq j hj ht hpnlBuffer hlist
        exact ⟨hself, fun i m' hm' => hothers i m' (mem_poll hm'), hread ▸ hroom⟩
  | sendCompleted c bufferId =>
    obtain ⟨k, -, -, -, rfl⟩ := step_sendCompleted hstep
    exact hi.of_read rfl rfl fun i m _ => by rw [byteBuffer_setCon]
  | sendFailed c bufferId =>
    obtain ⟨k, -, -, -, rfl⟩ := step_sendFailed hstep
    exact hi.of_read rfl rfl fun i m _ => by rw [byteBuffer_setCon]
  | delCon c =>
    obtain ⟨k, -, rfl⟩ := step_delCon hstep
    exact hi.addExternalEvent (fun m heq => by cases heq) k.index
  | conMapRemove c =>
    obtain ⟨k, -, rfl⟩ := step_conMapRemove hstep
    exact hi.of_read rfl rfl fun i m _ => by rw [byteBuffer_setCon]
  | get bufferId blockBufferSize =>
    cases hstep
    refine hi.of_setBuffer rfl rfl rfl fun i m offset length _ _ => ?_
    rw [ByteBuffer.remainingBytes_view, ByteBuffer.remainingBytes_view, HpnlBuffer.content_get]
  | activate_recv_chunk bufferId =>
    obtain ⟨-, rfl⟩ := step_activate_recv_chunk hstep
    exact hi.of_read rfl rfl fun i m _ => by cases m.buffer <;> rfl
  | received bufferId bytes =>
    obtain ⟨hlen, -, rfl⟩ := step_received hstep
    refine hi.of_setBuffer rfl rfl rfl fun i m offset length hm hsrc => ?_
    rw [ByteBuffer.remainingBytes_view, ByteBuffer.remainingBytes_view]
    exact hsafe i m offset length hm hsrc

/-- **What the frames carry.**  In a run in which the memory of no slice that waits is
received into or put into, and in which a send buffer with room for a payload has room
for its header, the payload of every frame that is handed to the native send is what the
buffer held when `send` was called. -/
theorem payload_intact (buffer : BufferId → HpnlBuffer) (ops : List SendOp)
    (h : Meets step Undisturbed (init buffer) ops) :
    Always step PayloadIntact (init buffer) ops :=
  (always_of_meets (fun _ _ _ hi hsafe hstep => intact_step hi hsafe hstep) (intact_init buffer)
    h).mono fun _ hi => hi.done

/-- The frame of a message of one byte. -/
def frameOf (x : UInt8) : List UInt8 := [Type.MSG, 0, 0, 0, 0, 0, 0, 0, 0, 0, x]

/-- A receive callback answers with what it has received; the send waits in the queue, and the
next message arrives in another buffer before it goes out. -/
def answeringRun : List SendOp :=
  [.establishConnection 0 0 [8], .activate_recv_chunk 7, .received 7 (frameOf 65), .get 7 11,
    .send none 0 (.slice 7 10 1) 0 1 0, .activate_recv_chunk 6, .received 6 (frameOf 66),
    .waitExternalEvent 0 0]

theorem payload_intact_answer :
    (run step (init smallBuffers) answeringRun).map (fun w => w.native.length) = some 1 ∧
      Always step PayloadIntact (init smallBuffers) answeringRun := by
  refine ⟨by decide +kernel, payload_intact smallBuffers _ ?_⟩
  rintro _ ⟨⟩
  refine ⟨trivial, ?_⟩
  rintro _ ⟨⟩
  refine ⟨trivial, ?_⟩
  rintro _ ⟨⟩
  refine ⟨fun i m offset length hm => absurd hm List.not_mem_nil, ?_⟩
  rintro _ ⟨⟩
  refine ⟨trivial, ?_⟩
  rintro _ ⟨⟩
  refine ⟨fun k hk ht => absurd ht (by simp), ?_⟩
  rintro _ ⟨⟩
  refine ⟨trivial, ?_⟩
  rintro _ ⟨⟩
  refine ⟨fun i m offset length hm hsrc => ?_, ?_⟩
  · -- what waits is a slice of another buffer
    cases (mem_addExternalEvent hm).resolve_left List.not_mem_nil
    cases hsrc
  rintro _ -
  refine ⟨fun m rest hq k hk _ b hb => ?_, trivial⟩
  cases hq
  cases hk
  cases hb
  refine ⟨rfl, fun i m hm => ?_, by decide +kernel⟩
  cases (mem_addExternalEvent hm).resolve_left List.not_mem_nil
  rfl

/-- There is no send buffer left: the send waits, the receive buffer is posted again, and the next
message arrives before the buffer of an earlier send comes back. -/
def overwritingRun : List SendOp :=
  [.establishConnection 0 0 [8], .send (some 0) 0 (oneByte 64) 0 0 0, .activate_recv_chunk 7,
    .received 7 (frameOf 65), .get 7 11, .send (some 0) 0 (.slice 7 10 1) 0 1 0,
    .activate_recv_chunk 7, .received 7 (frameOf 66), .sendCompleted 0 8, .waitExternalEvent 0 0]

theorem payload_overwritten : ¬ Always step PayloadIntact (init smallBuffers) overwritingRun := by
  intro h
  have hrun : (run step (init smallBuffers) overwritingRun).map
      (fun w => decide w.PayloadIntact) = some false := by
    decide +kernel
  obtain ⟨w, hw, hfalse⟩ := Option.map_eq_some_iff.mp hrun
  exact of_decide_eq_false hfalse (h.last hw)

end SendWorld

end Hpnl
