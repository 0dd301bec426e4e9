import Hpnl.HpnlBuffer.Reuse
import Hpnl.Lib.Transition
import Hpnl.Lib.WorkQueue

/-!
# Sending from Java

A Java `Connection` keeps a list of send buffers.  `send` takes one and hands the frame
to the native layer when it is called on the thread that serves the connection's
completion queue; called on another thread, or when the list is empty, it leaves an
`ExternalHandler` in the queue of that thread, which calls `send` again.  A SEND
completion gives the buffer back.  The native connection is freed by a handler in the
same queue.

* `JavaConnection`, `ExternalHandler`, `NativeCall` — the objects.
* `SendWorld` — all connections of a service, the queues of the completion threads, the
  memory of the buffers, and the calls that the native layer has got.
* `send`, `waitExternalEvent`, `step` — what happens, one thread at a time.
* `send_cases`, `step_cases` — all that a send, and all that a step, can do; `step_send`,
  `step_sendCompleted` and the others — what each step does in full.
-/

namespace Hpnl

open Transition

/-- A `Connection` object; no number is given to two of them. -/
abbrev ConnectionId := ℕ

/-- The id of a chunk, which is that of its `HpnlBuffer`. -/
abbrev BufferId := ℕ

/-- The `ByteBuffer` that is given to `send`: one of its own, or a slice of a buffer of
the pool, which has its memory in common with it. -/
inductive Source where
  | own (b : ByteBuffer)
  | slice (bufferId : BufferId) (offset length : ℕ)
  deriving DecidableEq

/-- A call of `Connection.send`.  How many calls were made on the connection before it,
and what its buffer held at the time, is recorded for the statements only. -/
structure Message where
  con : ConnectionId
  buffer : Source
  b : UInt8
  seq : UInt64
  call : ℕ
  bytes : List UInt8
  deriving DecidableEq

/-- A handler in the queue of a completion thread: another try of a `send`, or the end
of a connection. -/
inductive ExternalHandler where
  | send (m : Message)
  | free (con : ConnectionId)
  deriving DecidableEq

/-- The connection that a handler is about. -/
def ExternalHandler.con : ExternalHandler → ConnectionId
  | send m => m.con
  | free c => c

/-- Whether a handler is a send of the connection. -/
def ExternalHandler.isSendOf (c : ConnectionId) : ExternalHandler → Bool
  | send m => m.con = c
  | free _ => false

/-- A call of a native method of a connection, with the frame it is given. -/
inductive NativeCall where
  | send (m : Message) (frame : List UInt8)
  | free (con : ConnectionId)
  deriving DecidableEq

/-- The handler that makes the call. -/
def NativeCall.handler : NativeCall → ExternalHandler
  | send m _ => .send m
  | free c => .free c

/-- A `Connection`.  `mapped`: it is in the `conMap` of the `EqService`.  The native
layer's part is `accepted`, the buffers of the sends it has taken and not completed;
`pushed`, the buffers that it got when it was established, and `calls`, how often `send`
has been called, are recorded for the statements. -/
structure JavaConnection where
  index : ℕ
  sendBufferList : List BufferId
  mapped : Bool
  accepted : List BufferId
  pushed : List BufferId
  calls : ℕ

/-- The Java side of a service: `dead` are the completion threads that an exception has
ended, `posted` the buffers the native layer may receive into. -/
structure SendWorld where
  con : ConnectionId → Option JavaConnection
  externalHandlers : ℕ → List ExternalHandler
  buffer : BufferId → HpnlBuffer
  posted : Finset BufferId
  dead : Finset ℕ
  native : List NativeCall

/-- One step of a thread.  `reply` is what a native send answers, if there is one. -/
inductive SendOp where
  | establishConnection (c : ConnectionId) (index : ℕ) (buffers : List BufferId)
  | send (thread : Option ℕ) (c : ConnectionId) (buffer : Source) (b : UInt8) (seq : UInt64)
      (reply : ℤ)
  | waitExternalEvent (index : ℕ) (reply : ℤ)
  | sendCompleted (c : ConnectionId) (bufferId : BufferId)
  | sendFailed (c : ConnectionId) (bufferId : BufferId)
  | delCon (c : ConnectionId)
  | conMapRemove (c : ConnectionId)
  | get (bufferId : BufferId) (blockBufferSize : ℤ)
  | activate_recv_chunk (bufferId : BufferId)
  | received (bufferId : BufferId) (bytes : List UInt8)
  deriving DecidableEq

namespace SendWorld

/-- No connection yet; the pool of buffers may be in any state. -/
def init (buffer : BufferId → HpnlBuffer) : SendWorld :=
  { con := fun _ => none, externalHandlers := fun _ => [], buffer := buffer, posted := ∅,
    dead := ∅, native := [] }

/-- `addExternalEvent(index, externalHandler)`. -/
def addExternalEvent (w : SendWorld) (index : ℕ) (h : ExternalHandler) : SendWorld :=
  { w with externalHandlers :=
      Function.update w.externalHandlers index (w.externalHandlers index ++ [h]) }

def setCon (w : SendWorld) (c : ConnectionId) (k : JavaConnection) : SendWorld :=
  { w with con := Function.update w.con c (some k) }

def setBuffer (w : SendWorld) (b : BufferId) (h : HpnlBuffer) : SendWorld :=
  { w with buffer := Function.update w.buffer b h }

/-- A `ByteBuffer` as it reads now. -/
def byteBuffer (w : SendWorld) : Source → ByteBuffer
  | .own b => b
  | .slice r offset length => (w.buffer r).byteBuffer.view offset length

/-- The call of `send` that a connection is about to get. -/
def message (w : SendWorld) (c : ConnectionId) (k : JavaConnection) (buffer : Source) (b : UInt8)
    (seq : UInt64) : Message :=
  ⟨c, buffer, b, seq, k.calls, (w.byteBuffer buffer).remainingBytes⟩

/-- What `hpnlBuffer.put(buffer, b, seq)` does to the send buffer. -/
def putResult (w : SendWorld) (m : Message) (hpnlBuffer : BufferId) :
    EStateM.Result JavaException HpnlBuffer Unit :=
  (HpnlBuffer.putMsg (w.byteBuffer m.buffer) m.b m.seq).run (w.buffer hpnlBuffer)

/-- `hpnlBuffer.put(buffer, b, seq)`. -/
def put (m : Message) (hpnlBuffer : BufferId) : Java SendWorld Unit := do
  let w ← MonadState.get
  Java.onField (fun w => w.buffer hpnlBuffer) (fun w h => w.setBuffer hpnlBuffer h)
    (HpnlBuffer.putMsg (w.byteBuffer m.buffer) m.b m.seq)

/-- `send(hpnlBuffer.size(), hpnlBuffer.getBufferId(), nativeHandle)`, which answers
`reply`: the frame in the send buffer is handed to the native layer. -/
def nativeSend (w : SendWorld) (m : Message) (k : JavaConnection) (hpnlBuffer : BufferId)
    (reply : ℤ) : SendWorld :=
  { w.setCon m.con { k with
      accepted := if reply = 0 then k.accepted ++ [hpnlBuffer] else k.accepted } with
    native := w.native ++ [.send m (w.buffer hpnlBuffer).byteBuffer.remainingBytes] }

/-- The end of `send`, with the buffer that `takeSendBuffer` has returned. -/
def sendWith (m : Message) (k : JavaConnection) (hpnlBuffer : BufferId) (reply : ℤ) :
    Java SendWorld ℤ := do
  put m hpnlBuffer
  modify fun w => w.nativeSend m k hpnlBuffer reply
  return reply

/-- The connection after `takeSendBuffer`. -/
def takeSendBuffer (k : JavaConnection) : JavaConnection :=
  { k with sendBufferList := k.sendBufferList.tail }

/-- `Connection.send(buffer, b, seq)` on a completion thread, or on some other thread. -/
def send (thread : Option ℕ) (m : Message) (reply : ℤ) : Java SendWorld ℤ := fun w =>
  match w.con m.con with
  | none => .error .NullPointerException w
  | some k =>
      if thread = some k.index then
        match k.sendBufferList with
        | [] => .ok 0 (w.addExternalEvent k.index (.send m))
        | hpnlBuffer :: _ =>
            (sendWith m (takeSendBuffer k) hpnlBuffer reply).run (w.setCon m.con (takeSendBuffer k))
      else .ok 0 (w.addExternalEvent k.index (.send m))

/-- `delete con`. -/
def free (w : SendWorld) (c : ConnectionId) : SendWorld :=
  { w with native := w.native ++ [.free c] }

/-- `externalHandler.handle()` on a completion thread; what it returns is not looked at. -/
def handle (index : ℕ) (reply : ℤ) : ExternalHandler → Java SendWorld ℤ
  | .send m => send (some index) m reply
  | .free c => fun w => .ok 0 (w.free c)

/-- `externalHandlerQueue.poll()`. -/
def poll (w : SendWorld) (index : ℕ) : SendWorld :=
  { w with externalHandlers :=
      Function.update w.externalHandlers index (w.externalHandlers index).tail }

/-- `waitExternalEvent(index)`. -/
def waitExternalEvent (index : ℕ) (reply : ℤ) : Java SendWorld ℤ := fun w =>
  match w.externalHandlers index with
  | [] => .ok 0 w
  | h :: _ => (do let _ ← handle index reply h; return 0 : Java SendWorld ℤ).run (w.poll index)

/-- A thread takes a step.  A callback catches what a `send` in it throws; nothing
catches what a handler throws, and the completion thread ends.  A completion of a
connection that is no longer in the `conMap` gives nothing back, and neither does one
that reports an error. -/
def step (w : SendWorld) : SendOp → Option SendWorld
  | .establishConnection c index buffers =>
      if (w.con c).isSome then none
      else some (w.setCon c ⟨index, buffers, true, [], buffers, 0⟩)
  | .send thread c buffer b seq reply =>
      match w.con c with
      | none => none
      | some k =>
          if ∃ i ∈ thread, i ∈ w.dead then none
          else some ((send thread (w.message c k buffer b seq) reply).after
            (w.setCon c { k with calls := k.calls + 1 }))
  | .waitExternalEvent index reply =>
      if index ∈ w.dead then none
      else
        match (waitExternalEvent index reply).run w with
        | .ok _ w' => some w'
        | .error _ w' => some { w' with dead := insert index w'.dead }
  | .sendCompleted c bufferId =>
      match w.con c with
      | none => none
      | some k =>
          if bufferId ∈ k.accepted ∧ k.index ∉ w.dead then
            some (w.setCon c { k with
              accepted := k.accepted.erase bufferId
              sendBufferList :=
                if k.mapped then k.sendBufferList ++ [bufferId] else k.sendBufferList })
          else none
  | .sendFailed c bufferId =>
      match w.con c with
      | none => none
      | some k =>
          if bufferId ∈ k.accepted ∧ k.index ∉ w.dead then
            some (w.setCon c { k with accepted := k.accepted.erase bufferId })
          else none
  | .delCon c =>
      match w.con c with
      | none => none
      | some k => some (w.addExternalEvent k.index (.free c))
  | .conMapRemove c =>
      match w.con c with
      | none => none
      | some k => some (w.setCon c { k with mapped := false })
  | .get bufferId blockBufferSize =>
      some (w.setBuffer bufferId ((HpnlBuffer.get blockBufferSize).after (w.buffer bufferId)))
  | .activate_recv_chunk bufferId =>
      if bufferId ∈ w.posted then none
      else some { w with posted := insert bufferId w.posted }
  | .received bufferId bytes =>
      if h : bytes.length ≤ (w.buffer bufferId).byteBuffer.capacity ∧ bufferId ∈ w.posted then
        some { w.setBuffer bufferId { w.buffer bufferId with
            byteBuffer := (w.buffer bufferId).byteBuffer.store bytes h.1 } with
          posted := w.posted.erase bufferId }
      else none

/-- Buffers of sixteen bytes. -/
def smallBuffers : BufferId → HpnlBuffer := fun _ =>
  { byteBuffer := ByteBuffer.wrap (List.replicate 16 0) (by decide) }

/-- A message of one byte. -/
def oneByte (x : UInt8) : Source := .own (ByteBuffer.wrap [x] (by simp))

/-! ## The queues -/

theorem mem_addExternalEvent {w : SendWorld} {i j : ℕ} {e x : ExternalHandler}
    (h : x ∈ (w.addExternalEvent i e).externalHandlers j) :
    x ∈ w.externalHandlers j ∨ x = e := by
  by_cases hj : j = i
  · subst hj
    have hin : x ∈ w.externalHandlers j ++ [e] := by
      simpa [addExternalEvent, Function.update_self] using h
    exact (List.mem_append.mp hin).imp_right List.mem_singleton.mp
  · exact Or.inl (by simpa [addExternalEvent, Function.update_of_ne hj] using h)

theorem mem_poll {w : SendWorld} {i j : ℕ} {x : ExternalHandler}
    (h : x ∈ (w.poll i).externalHandlers j) :
    x ∈ w.externalHandlers j := by
  by_cases hj : j = i
  · subst hj
    exact List.mem_of_mem_tail (by simpa [poll, Function.update_self] using h)
  · simpa [poll, Function.update_of_ne hj] using h

theorem externalHandlers_poll {w : SendWorld} {i : ℕ} {e : ExternalHandler}
    {rest : List ExternalHandler}
    (hq : w.externalHandlers i = e :: rest) : (w.poll i).externalHandlers i = rest := by
  simp [poll, hq]

/-! ## What a send can do -/

/-- The state when `put` has returned or thrown. -/
def taken (w : SendWorld) (m : Message) (k : JavaConnection) (hpnlBuffer : BufferId)
    (h : HpnlBuffer) : SendWorld :=
  (w.setCon m.con (takeSendBuffer k)).setBuffer hpnlBuffer h

/-- The state when the native send has answered, too. -/
def sent (w : SendWorld) (m : Message) (k : JavaConnection) (hpnlBuffer : BufferId)
    (h : HpnlBuffer) (reply : ℤ) : SendWorld :=
  (w.taken m k hpnlBuffer h).nativeSend m (takeSendBuffer k) hpnlBuffer reply

@[simp] theorem con_setCon_self (w : SendWorld) (c : ConnectionId) (k : JavaConnection) :
    (w.setCon c k).con c = some k := Function.update_self ..

theorem con_setCon_of_ne {w : SendWorld} {c d : ConnectionId} {k : JavaConnection} (h : d ≠ c) :
    (w.setCon c k).con d = w.con d := Function.update_of_ne h ..

@[simp] theorem byteBuffer_setCon (w : SendWorld) (c : ConnectionId) (k : JavaConnection)
    (src : Source) : (w.setCon c k).byteBuffer src = w.byteBuffer src := by
  cases src <;> rfl

@[simp] theorem buffer_setCon (w : SendWorld) (c : ConnectionId) (k : JavaConnection) :
    (w.setCon c k).buffer = w.buffer := rfl

/-- A put does not look at the connections. -/
@[simp] theorem putResult_setCon (w : SendWorld) (c : ConnectionId) (k : JavaConnection)
    (m : Message) (hpnlBuffer : BufferId) :
    (w.setCon c k).putResult m hpnlBuffer = w.putResult m hpnlBuffer := by
  simp only [putResult, byteBuffer_setCon, buffer_setCon]

/-- `put` changes the send buffer and nothing else, whether it returns or throws. -/
theorem put_run (w : SendWorld) (m : Message) (hpnlBuffer : BufferId) :
    (∃ h, w.putResult m hpnlBuffer = .ok () h ∧
      (put m hpnlBuffer).run w = .ok () (w.setBuffer hpnlBuffer h)) ∨
    ∃ e h, w.putResult m hpnlBuffer = .error e h ∧
      (put m hpnlBuffer).run w = .error e (w.setBuffer hpnlBuffer h) := by
  have hget : (MonadState.get : Java SendWorld SendWorld).run w = .ok w w := rfl
  cases hput : w.putResult m hpnlBuffer with
  | ok u h =>
    exact Or.inl ⟨h, rfl, (Java.bind_of_ok hget).trans (Java.onField_of_ok hput)⟩
  | error e h =>
    exact Or.inr ⟨e, h, rfl, (Java.bind_of_ok hget).trans (Java.onField_of_error hput)⟩

/-- A send of a connection that there never was. -/
theorem after_send_of_none {w : SendWorld} {m : Message} (hk : w.con m.con = none)
    (thread : Option ℕ) (reply : ℤ) : (send thread m reply).after w = w := by
  refine Java.after_of_error (e := .NullPointerException) ?_
  show send thread m reply w = _
  unfold send
  rw [hk]

/-- A send waits, for another thread or for a buffer, or it takes a buffer: then `put`
returns and the frame goes to the native layer, or `put` throws. -/
theorem send_cases {w : SendWorld} {m : Message} {k : JavaConnection} (hk : w.con m.con = some k)
    (thread : Option ℕ) (reply : ℤ) :
    ((thread = some k.index → k.sendBufferList = []) ∧
      (send thread m reply).run w = .ok 0 (w.addExternalEvent k.index (.send m))) ∨
    ∃ b rest, thread = some k.index ∧ k.sendBufferList = b :: rest ∧
      ((∃ h, w.putResult m b = .ok () h ∧
          (send thread m reply).run w = .ok reply (w.sent m k b h reply)) ∨
        ∃ e h, w.putResult m b = .error e h ∧
          (send thread m reply).run w = .error e (w.taken m k b h)) := by
  have hsend : (send thread m reply).run w = if thread = some k.index then
      match k.sendBufferList with
      | [] => .ok 0 (w.addExternalEvent k.index (.send m))
      | hpnlBuffer :: _ =>
          (sendWith m (takeSendBuffer k) hpnlBuffer reply).run (w.setCon m.con (takeSendBuffer k))
    else .ok 0 (w.addExternalEvent k.index (.send m)) := by
    show send thread m reply w = _
    unfold send
    rw [hk]
  rw [hsend]
  by_cases hthread : thread = some k.index
  · rw [if_pos hthread]
    cases hlist : k.sendBufferList with
    | nil => exact Or.inl ⟨fun _ => rfl, rfl⟩
    | cons b rest =>
      refine Or.inr ⟨b, rest, hthread, rfl, ?_⟩
      rcases put_run (w.setCon m.con (takeSendBuffer k)) m b with
        ⟨h, hput, hrun⟩ | ⟨e, h, hput, hrun⟩ <;> rw [putResult_setCon] at hput
      · exact Or.inl ⟨h, hput, Java.bind_of_ok hrun⟩
      · exact Or.inr ⟨e, h, hput, Java.bind_of_error hrun⟩
  · rw [if_neg hthread]
    exact Or.inl ⟨fun h => absurd h hthread, rfl⟩

/-- The same, of the state that is left. -/
theorem after_send_cases {w : SendWorld} {m : Message} {k : JavaConnection}
    (hk : w.con m.con = some k) (thread : Option ℕ) (reply : ℤ) :
    ((thread = some k.index → k.sendBufferList = []) ∧
      (send thread m reply).after w = w.addExternalEvent k.index (.send m)) ∨
    ∃ b rest h, thread = some k.index ∧ k.sendBufferList = b :: rest ∧
      (w.putResult m b = .ok () h ∧
          (send thread m reply).after w = w.sent m k b h reply ∨
        (∃ e, w.putResult m b = .error e h) ∧
          (send thread m reply).after w = w.taken m k b h) := by
  rcases send_cases hk thread reply with ⟨hlist, hrun⟩ | ⟨b, rest, ht, hlist, hrun⟩
  · exact Or.inl ⟨hlist, Java.after_of_ok hrun⟩
  · rcases hrun with ⟨h, hput, hrun⟩ | ⟨e, h, hput, hrun⟩
    · exact Or.inr ⟨b, rest, h, ht, hlist, Or.inl ⟨hput, Java.after_of_ok hrun⟩⟩
    · exact Or.inr ⟨b, rest, h, ht, hlist, Or.inr ⟨⟨e, hput⟩, Java.after_of_error hrun⟩⟩

/-! ## What a step can do -/

/-- Nothing has been queued, taken from a queue or handed to the native layer, and the
connections are where they were, with no fewer calls. -/
structure Still (w w' : SendWorld) : Prop where
  externalHandlers : w'.externalHandlers = w.externalHandlers
  native : w'.native = w.native
  con : ∀ c k, w.con c = some k → ∃ k', w'.con c = some k' ∧ k'.index = k.index ∧
    k.calls ≤ k'.calls

theorem still_setCon {w : SendWorld} {c : ConnectionId} {k k' : JavaConnection}
    (hk : w.con c = some k) (hindex : k'.index = k.index) (hcalls : k.calls ≤ k'.calls) :
    Still w (w.setCon c k') := by
  refine ⟨rfl, rfl, fun d j hj => ?_⟩
  by_cases hd : d = c
  · subst hd
    cases hk.symm.trans hj
    exact ⟨k', con_setCon_self .., hindex, hcalls⟩
  · exact ⟨j, (con_setCon_of_ne hd).trans hj, rfl, le_rfl⟩

theorem still_of_eq {w w' : SendWorld} (hq : w'.externalHandlers = w.externalHandlers)
    (hn : w'.native = w.native) (hc : w'.con = w.con) : Still w w' :=
  ⟨hq, hn, fun _ k hk => ⟨k, hc ▸ hk, rfl, le_rfl⟩⟩

/-! ## What each step does -/

section

variable {w w' : SendWorld} {c : ConnectionId} {bufferId : BufferId}

theorem step_establishConnection {index : ℕ} {buffers : List BufferId}
    (h : step w (.establishConnection c index buffers) = some w') :
    w.con c = none ∧ w' = w.setCon c ⟨index, buffers, true, [], buffers, 0⟩ := by
  simp only [step, Option.ite_none_left_eq_some, Option.some.injEq] at h
  exact ⟨by simpa using h.1, h.2.symm⟩

theorem step_send {thread : Option ℕ} {buffer : Source} {b : UInt8} {seq : UInt64} {reply : ℤ}
    (h : step w (.send thread c buffer b seq reply) = some w') :
    ∃ k, w.con c = some k ∧ (∀ i ∈ thread, i ∉ w.dead) ∧
      w' = (send thread (w.message c k buffer b seq) reply).after
        (w.setCon c { k with calls := k.calls + 1 }) := by
  simp only [step] at h
  cases hk : w.con c with
  | none => simp [hk] at h
  | some k =>
    simp only [hk, Option.ite_none_left_eq_some, Option.some.injEq] at h
    exact ⟨k, rfl, fun i hi hdead => h.1 ⟨i, hi, hdead⟩, h.2.symm⟩

theorem step_sendCompleted (h : step w (.sendCompleted c bufferId) = some w') :
    ∃ k, w.con c = some k ∧ bufferId ∈ k.accepted ∧ k.index ∉ w.dead ∧
      w' = w.setCon c { k with
        accepted := k.accepted.erase bufferId
        sendBufferList :=
          if k.mapped then k.sendBufferList ++ [bufferId] else k.sendBufferList } := by
  simp only [step] at h
  cases hk : w.con c with
  | none => simp [hk] at h
  | some k =>
    simp only [hk, Option.ite_none_right_eq_some, Option.some.injEq] at h
    exact ⟨k, rfl, h.1.1, h.1.2, h.2.symm⟩

theorem step_sendFailed (h : step w (.sendFailed c bufferId) = some w') :
    ∃ k, w.con c = some k ∧ bufferId ∈ k.accepted ∧ k.index ∉ w.dead ∧
      w' = w.setCon c { k with accepted := k.accepted.erase bufferId } := by
  simp only [step] at h
  cases hk : w.con c with
  | none => simp [hk] at h
  | some k =>
    simp only [hk, Option.ite_none_right_eq_some, Option.some.injEq] at h
    exact ⟨k, rfl, h.1.1, h.1.2, h.2.symm⟩

theorem step_delCon (h : step w (.delCon c) = some w') :
    ∃ k, w.con c = some k ∧ w' = w.addExternalEvent k.index (.free c) := by
  simp only [step] at h
  cases hk : w.con c with
  | none => simp [hk] at h
  | some k =>
    simp only [hk, Option.some.injEq] at h
    exact ⟨k, rfl, h.symm⟩

theorem step_conMapRemove (h : step w (.conMapRemove c) = some w') :
    ∃ k, w.con c = some k ∧ w' = w.setCon c { k with mapped := false } := by
  simp only [step] at h
  cases hk : w.con c with
  | none => simp [hk] at h
  | some k =>
    simp only [hk, Option.some.injEq] at h
    exact ⟨k, rfl, h.symm⟩

theorem step_activate_recv_chunk (h : step w (.activate_recv_chunk bufferId) = some w') :
    bufferId ∉ w.posted ∧ w' = { w with posted := insert bufferId w.posted } := by
  simp only [step, Option.ite_none_left_eq_some, Option.some.injEq] at h
  exact ⟨h.1, h.2.symm⟩

theorem step_received {bytes : List UInt8} (h : step w (.received bufferId bytes) = some w') :
    ∃ hlen : bytes.length ≤ (w.buffer bufferId).byteBuffer.capacity, bufferId ∈ w.posted ∧
      w' = { w.setBuffer bufferId { w.buffer bufferId with
          byteBuffer := (w.buffer bufferId).byteBuffer.store bytes hlen } with
        posted := w.posted.erase bufferId } := by
  simp only [step] at h
  split at h
  · rename_i hcan
    exact ⟨hcan.1, hcan.2, (Option.some.inj h).symm⟩
  · cases h

/-- A handler that runs leaves a state, and perhaps a dead thread. -/
theorem step_waitExternalEvent {index : ℕ} {reply : ℤ}
    (h : step w (.waitExternalEvent index reply) = some w') :
    index ∉ w.dead ∧ (w.externalHandlers index = [] ∧ w' = w ∨
      ∃ e rest dead, w.externalHandlers index = e :: rest ∧
        w' = { (handle index reply e).after (w.poll index) with dead := dead }) := by
  by_cases hdead : index ∈ w.dead
  · simp [step, hdead] at h
  refine ⟨hdead, ?_⟩
  simp only [step, hdead, if_false] at h
  unfold waitExternalEvent at h
  cases hq : w.externalHandlers index with
  | nil =>
    simp only [EStateM.run, hq, Option.some.injEq] at h
    exact Or.inl ⟨rfl, h.symm⟩
  | cons e rest =>
    simp only [EStateM.run, hq] at h
    refine Or.inr ⟨e, rest, ?_⟩
    cases hrun : handle index reply e (w.poll index) with
    | ok u t =>
      have hbind : (do let _ ← handle index reply e; return 0 : Java SendWorld ℤ)
          (w.poll index) = .ok 0 t := Java.bind_of_ok hrun
      rw [hbind, Option.some.injEq] at h
      refine ⟨t.dead, rfl, h.symm.trans ?_⟩
      have hafter : (handle index reply e).after (w.poll index) = t := Java.after_of_ok hrun
      rw [hafter]
    | error ex t =>
      have hbind : (do let _ ← handle index reply e; return 0 : Java SendWorld ℤ)
          (w.poll index) = .error ex t := Java.bind_of_error hrun
      rw [hbind, Option.some.injEq] at h
      refine ⟨insert index t.dead, rfl, h.symm.trans ?_⟩
      have hafter : (handle index reply e).after (w.poll index) = t := Java.after_of_error hrun
      rw [hafter]

/-- **What a step can do** to the queues and to the native layer: nothing, or one call
of `send`, or one of `delCon`, or the head of one queue. -/
theorem step_cases {op : SendOp} (h : step w op = some w') :
    Still w w' ∨
    (∃ thread c buffer b seq reply k, op = .send thread c buffer b seq reply ∧
      w.con c = some k ∧ w' = (send thread (w.message c k buffer b seq) reply).after
        (w.setCon c { k with calls := k.calls + 1 })) ∨
    (∃ c k, op = .delCon c ∧ w.con c = some k ∧ w' = w.addExternalEvent k.index (.free c)) ∨
    ∃ index reply e rest dead, op = .waitExternalEvent index reply ∧
      w.externalHandlers index = e :: rest ∧
      w' = { (handle index reply e).after (w.poll index) with dead := dead } := by
  cases op with
  | establishConnection c index buffers =>
    obtain ⟨hk, rfl⟩ := step_establishConnection h
    refine Or.inl ⟨rfl, rfl, fun d j hj => ⟨j, ?_, rfl, le_rfl⟩⟩
    have hd : d ≠ c := by
      rintro rfl
      exact absurd (hk.symm.trans hj) (by simp)
    exact (con_setCon_of_ne hd).trans hj
  | send thread c buffer b seq reply =>
    obtain ⟨k, hk, -, hw⟩ := step_send h
    exact Or.inr (Or.inl ⟨thread, c, buffer, b, seq, reply, k, rfl, hk, hw⟩)
  | waitExternalEvent index reply =>
    obtain ⟨-, ⟨-, rfl⟩ | ⟨e, rest, dead, hq, hw⟩⟩ := step_waitExternalEvent h
    · exact Or.inl (still_of_eq rfl rfl rfl)
    · exact Or.inr (Or.inr (Or.inr ⟨index, reply, e, rest, dead, rfl, hq, hw⟩))
  | sendCompleted c bufferId =>
    obtain ⟨k, hk, -, -, rfl⟩ := step_sendCompleted h
    exact Or.inl (still_setCon hk rfl le_rfl)
  | sendFailed c bufferId =>
    obtain ⟨k, hk, -, -, rfl⟩ := step_sendFailed h
    exact Or.inl (still_setCon hk rfl le_rfl)
  | delCon c =>
    obtain ⟨k, hk, hw⟩ := step_delCon h
    exact Or.inr (Or.inr (Or.inl ⟨c, k, rfl, hk, hw⟩))
  | conMapRemove c =>
    obtain ⟨k, hk, rfl⟩ := step_conMapRemove h
    exact Or.inl (still_setCon hk rfl le_rfl)
  | get bufferId blockBufferSize =>
    cases h
    exact Or.inl (still_of_eq rfl rfl rfl)
  | activate_recv_chunk bufferId =>
    obtain ⟨-, rfl⟩ := step_activate_recv_chunk h
    exact Or.inl (still_of_eq rfl rfl rfl)
  | received bufferId bytes =>
    obtain ⟨hlen, -, rfl⟩ := step_received h
    exact Or.inl (still_of_eq rfl rfl rfl)

end

end SendWorld

end Hpnl
