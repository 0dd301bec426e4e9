import Hpnl.HpnlBuffer.Frames
import Hpnl.Java.SendSteps
import Hpnl.Lib.Channel
import Hpnl.Lib.Places

/-!
# From `send` to the receive callback of the peer

Any number of services of the Java binding, with connections between them.  A frame that
a native send has accepted travels to the peer, where it is received into a buffer that
is posted; the completion waits in the queue of its completion thread, which calls `get`
on the buffer for the receive callback, and posts it again.

* `onReceiveOutcome_frame` — a buffer that begins with the frame of a message reads as it.
* `Fabric` — which endpoint is connected to which; `LinkWorld`, `LinkOp`, `step` — the
  services, what is on its way, and what can happen.
* `Inv` — the invariant; `inv_step` — a step that meets the guard keeps it.
* `delivered_in_order` — **the receive callbacks get the messages in the order of the calls
  of `send`, each once, with the bytes the caller's buffer held**, as long as no send passes
  another one and nothing a send has still to read is overwritten.
-/

namespace Hpnl

open Transition

/-- Elements of a list that are found at increasing places are a part of it, in order. -/
theorem sublist_of_index {α : Type*} {index : α → ℕ} {xs as : List α}
    (hlt : as.Pairwise fun a b => index a < index b) (hat : ∀ a ∈ as, xs[index a]? = some a) :
    as.Sublist xs := by
  have hbound : ∀ i : Fin as.length, index as[i] < xs.length := fun i =>
    (List.getElem?_eq_some_iff.mp (hat _ (List.getElem_mem i.isLt))).1
  have hmono : StrictMono fun i : Fin as.length => (⟨index as[i], hbound i⟩ : Fin xs.length) :=
    fun i j hij => List.pairwise_iff_getElem.mp hlt i j i.isLt j.isLt hij
  refine List.sublist_iff_exists_fin_orderEmbedding_get_eq.mpr
    ⟨OrderEmbedding.ofStrictMono _ hmono, fun i => ?_⟩
  exact ((List.getElem?_eq_some_iff.mp (hat _ (List.getElem_mem i.isLt))).2).symm

/-- What the receiver of a message is to read. -/
def Message.reading (m : Message) : HpnlBuffer.Reading := ⟨m.bytes, m.b, m.seq, none⟩

namespace HpnlBuffer

/-- A receive callback: `get`, and then the getters. -/
def onReceive (blockBufferSize : ℤ) : Java HpnlBuffer Reading := do
  let payload ← get blockBufferSize
  let this ← MonadState.get
  return ⟨payload.remainingBytes, this.type, this.seq, none⟩

/-- What it reads, or what it throws. -/
def onReceiveOutcome (blockBufferSize : ℤ) (h : HpnlBuffer) : Except JavaException Reading :=
  match onReceive blockBufferSize h with
  | .ok reading _ => .ok reading
  | .error e _ => .error e

/-- **A buffer that begins with the frame of a message reads as the message.** -/
theorem onReceiveOutcome_frame {h : HpnlBuffer} {m : Message}
    (hframe : m.frame <+: h.byteBuffer.content) :
    onReceiveOutcome m.frame.length h = .ok m.reading := by
  obtain ⟨b, hget, hb⟩ := get_of_prefix hframe
  have hlayout : ({ h with byteBuffer := b } : HpnlBuffer).byteBuffer.remainingBytes =
      Type.MSG :: m.b :: (BigEndian.toBytes 8 m.seq.toNat ++ m.bytes) := hb
  obtain ⟨result, h', hrun, hresult, htype, hseq, -⟩ := getFrame_msg hlayout
  have hreceive : (onReceive m.frame.length).run h = .ok m.reading h' := by
    have hread : (get m.frame.length).run h = .ok result h' := hget.trans hrun
    have hthis : (MonadState.get : Java HpnlBuffer HpnlBuffer).run h' = .ok h' h' := rfl
    rw [onReceive, Java.bind_of_ok hread, Java.bind_of_ok hthis, hresult, htype, hseq]
    rfl
  unfold onReceiveOutcome
  rw [show onReceive m.frame.length h = .ok m.reading h' from hreceive]

/-- The getters leave the buffer as `get` has left it. -/
theorem after_onReceive (n : ℤ) (h : HpnlBuffer) :
    (onReceive n).after h = (get n).after h := by
  cases hget : (get n).run h with
  | ok payload h' =>
    have hthis : (MonadState.get : Java HpnlBuffer HpnlBuffer).run h' = .ok h' h' := rfl
    have hrun : (onReceive n).run h = .ok ⟨payload.remainingBytes, h'.type, h'.seq, none⟩ h' := by
      rw [onReceive, Java.bind_of_ok hget, Java.bind_of_ok hthis]
      rfl
    rw [Java.after_of_ok hrun, Java.after_of_ok hget]
  | error e h' =>
    have hrun : (onReceive n).run h = .error e h' := by
      rw [onReceive, Java.bind_of_error hget]
    rw [Java.after_of_error hrun, Java.after_of_error hget]

end HpnlBuffer

/-- A service, and one of its connections. -/
abbrev Endpoint (Host : Type) := Host × ConnectionId

/-- A frame on its way.  The message it was made of is recorded for the statements. -/
structure Packet where
  message : Message
  frame : List UInt8

/-- A receive completion.  The message is recorded for the statements. -/
structure Arrival where
  con : ConnectionId
  bufferId : BufferId
  blockBufferSize : ℕ
  message : Message

/-- Which endpoint is connected to which, and the completion queue of each. -/
structure Fabric (Host : Type) where
  peer : Endpoint Host → Endpoint Host
  cq_index : Endpoint Host → ℕ
  injective : Function.Injective peer

/-- Services with connections between them.  `channel e` is what endpoint `e` sends;
`sendBuffers` and `recvBuffers` are the buffers that the native layer has got for either
use, `handled` those whose receive callback runs or has run; `delivered` is what the receive
callbacks of an endpoint have got.  The calls of `send`, and the messages of the receive
completions that have been read, are recorded for the statements. -/
structure LinkWorld (Host : Type) where
  host : Host → SendWorld
  channel : Endpoint Host → Channel Packet
  sendBuffers : Host → Finset BufferId
  recvBuffers : Host → Finset BufferId
  cq : Host → ℕ → List Arrival
  handled : Host → List BufferId
  delivered : Endpoint Host → List (Except JavaException HpnlBuffer.Reading)
  called : Endpoint Host → List Message
  read : Endpoint Host → List Message

/-- What can happen: a native connection posts a buffer when it is set up, a `Connection` is
established, a service takes a step of its own, a connection breaks, a frame arrives, a
receive completion is read, its buffer is posted again. -/
inductive LinkOp (Host : Type) where
  | post (h : Host) (bufferId : BufferId)
  | establishConnection (h : Host) (c : ConnectionId) (buffers : List BufferId)
  | own (h : Host) (op : SendOp)
  | cut (e : Endpoint Host)
  | arrive (e : Endpoint Host) (bufferId : BufferId)
  | recv (h : Host) (index : ℕ)
  | activate_recv_chunk (h : Host) (bufferId : BufferId)

/-- The answer of the native send of a step. -/
def SendOp.reply : SendOp → ℤ
  | send _ _ _ _ _ reply => reply
  | waitExternalEvent _ reply => reply
  | _ => 0

/-- A step that a service takes on its own. -/
def SendOp.isLocal : SendOp → Bool
  | send .. | waitExternalEvent .. | sendCompleted .. | sendFailed .. | delCon ..
  | conMapRemove .. => true
  | _ => false

namespace LinkWorld

variable {Host : Type} [DecidableEq Host]

/-- No connection yet. -/
def init (buffer : Host → BufferId → HpnlBuffer) : LinkWorld Host :=
  { host := fun h => SendWorld.init (buffer h), channel := fun _ => .empty,
    sendBuffers := fun _ => ∅, recvBuffers := fun _ => ∅, cq := fun _ _ => [],
    handled := fun _ => [], delivered := fun _ => [], called := fun _ => [], read := fun _ => [] }

def setHost (w : LinkWorld Host) (h : Host) (s : SendWorld) : LinkWorld Host :=
  { w with host := Function.update w.host h s }

/-- What a native call of a service does to the channels: an accepted send puts its frame on
the way, and the free of a connection breaks its channel. -/
def carry (reply : ℤ) (h : Host) (channel : Endpoint Host → Channel Packet) :
    NativeCall → Endpoint Host → Channel Packet
  | .send m frame =>
      if reply = 0 then
        Function.update channel (h, m.con) ((channel (h, m.con)).send ⟨m, frame⟩)
      else channel
  | .free c => Function.update channel (h, c) (channel (h, c)).cut

/-- The native calls that a step has added. -/
def newCalls (s s' : SendWorld) : List NativeCall := s'.native.drop s.native.length

/-- The head of a completion queue has been read, and `rest` is left. -/
def popCq (w : LinkWorld Host) (h : Host) (index : ℕ) (rest : List Arrival) : LinkWorld Host :=
  { w with cq := Function.update w.cq h (Function.update (w.cq h) index rest) }

/-- A receive completion has been read: the callback of the connection runs, if it is in the
`conMap`. -/
def handle (w : LinkWorld Host) (h : Host) (a : Arrival) : LinkWorld Host :=
  let buffer := (w.host h).buffer a.bufferId
  let w' := { w with
    handled := Function.update w.handled h (a.bufferId :: w.handled h)
    read := Function.update w.read (h, a.con) (w.read (h, a.con) ++ [a.message]) }
  if ((w.host h).con a.con).any JavaConnection.mapped then
    { w'.setHost h ((w.host h).setBuffer a.bufferId
        ((HpnlBuffer.onReceive a.blockBufferSize).after buffer)) with
      delivered := Function.update w.delivered (h, a.con)
        (w.delivered (h, a.con) ++ [HpnlBuffer.onReceiveOutcome a.blockBufferSize buffer]) }
  else w'

/-- A step.  The chunk manager hands out no buffer twice, and a completion thread reads no
receive completion of a connection before it is established. -/
def step (F : Fabric Host) (w : LinkWorld Host) : LinkOp Host → Option (LinkWorld Host)
  | .post h b =>
      if b ∈ w.recvBuffers h ∨ b ∈ w.sendBuffers h then none
      else ((w.host h).step (.activate_recv_chunk b)).map fun s =>
        { w.setHost h s with
          recvBuffers := Function.update w.recvBuffers h (insert b (w.recvBuffers h)) }
  | .establishConnection h c buffers =>
      if ∃ b ∈ buffers, b ∈ w.sendBuffers h ∨ b ∈ w.recvBuffers h then none
      else ((w.host h).step (.establishConnection c (F.cq_index (h, c)) buffers)).map fun s =>
        { w.setHost h s with
          sendBuffers := Function.update w.sendBuffers h (w.sendBuffers h ∪ buffers.toFinset) }
  | .own h op =>
      if op.isLocal then
        ((w.host h).step op).map fun s =>
          { w.setHost h s with
            channel := (newCalls (w.host h) s).foldl (carry op.reply h) w.channel
            called := fun e =>
              if e.1 = h then w.called e ++ (w.host h).callsOn op e.2 else w.called e }
      else none
  | .cut e => some { w with channel := Function.update w.channel e (w.channel e).cut }
  | .arrive e b =>
      (w.channel e).next?.bind fun next =>
        ((w.host (F.peer e).1).step (.received b next.1.frame)).map fun s =>
          { w.setHost (F.peer e).1 s with
            channel := Function.update w.channel e next.2
            cq := Function.update w.cq (F.peer e).1 (Function.update (w.cq (F.peer e).1)
              (F.cq_index (F.peer e)) (w.cq (F.peer e).1 (F.cq_index (F.peer e)) ++
                [⟨(F.peer e).2, b, next.1.frame.length, next.1.message⟩])) }
  | .recv h index =>
      match w.cq h index with
      | [] => none
      | a :: rest =>
          if ((w.host h).con a.con).isNone ∨ index ∈ (w.host h).dead then none
          else some ((w.popCq h index rest).handle h a)
  | .activate_recv_chunk h b =>
      if b ∈ w.handled h then
        ((w.host h).step (.activate_recv_chunk b)).map fun s =>
          { w.setHost h s with handled := Function.update w.handled h ((w.handled h).erase b) }
      else none

/-- No send passes another one of its connection that waits, and what a send has still to
read is not overwritten. -/
def Guard (F : Fabric Host) (w : LinkWorld Host) : LinkOp Host → Prop
  | .own h op => (w.host h).NonePassed op ∧ (w.host h).Undisturbed op
  | .arrive e b => ∀ p ∈ (w.channel e).wire.head?,
      (w.host (F.peer e).1).Undisturbed (.received b p.frame)
  | _ => True

/-- The messages that have arrived at an endpoint and wait to be read. -/
def waiting (F : Fabric Host) (w : LinkWorld Host) (e : Endpoint Host) : List Message :=
  ((w.cq e.1 (F.cq_index e)).filter fun a => a.con = e.2).map Arrival.message

/-- What the receive callbacks of the peer of an endpoint have got: the first of the messages
that the native sends have accepted, as they were when `send` was called.  What has been
accepted are some of the calls, in their order. -/
structure Delivers (F : Fabric Host) (w : LinkWorld Host) : Prop where
  accepted : ∀ e, ((w.channel e).sent.map Packet.message).Sublist (w.called e)
  first : ∀ e, ∃ ms, ms <+: (w.channel e).sent.map Packet.message ∧
    w.delivered (F.peer e) = ms.map fun m => .ok m.reading
  /-- Nothing is lost while the connection is up and the peer's is in its `conMap`. -/
  all : ∀ e, (w.channel e).up = true → (w.channel e).wire = [] → w.waiting F (F.peer e) = [] →
    (∀ k ∈ (w.host (F.peer e).1).con (F.peer e).2, k.mapped = true) →
      w.delivered (F.peer e) = (w.channel e).sent.map fun p => .ok p.message.reading

end LinkWorld

/-! ## What a service keeps -/

namespace SendWorld

variable {s s' : SendWorld} {op : SendOp}

/-- The sends of a service are in order and intact, and every message that waits or has been
sent is one of the calls. -/
structure Sends (called : ConnectionId → List Message) (s : SendWorld) : Prop where
  ordered : Ordered Earlier s
  counted : Counted s
  intact : Intact s
  calls : ∀ c, s.calls c = (called c).length
  known : Holds (fun m => (called m.con)[m.call]? = some m) s

variable {called : ConnectionId → List Message}

theorem sends_init (buffer : BufferId → HpnlBuffer) : Sends (fun _ => []) (init buffer) where
  ordered := ordered_init buffer
  counted := counted_init buffer
  intact := intact_init buffer
  calls := fun _ => rfl
  known := ⟨fun _ h => absurd h List.not_mem_nil, fun _ _ h => absurd h List.not_mem_nil⟩

/-- A step that meets the guards keeps this, with its call among the calls. -/
theorem sends_step (h : Sends called s) (hnone : NonePassed s op) (hsafe : Undisturbed s op)
    (hstep : step s op = some s') : Sends (fun c => called c ++ s.callsOn op c) s' where
  ordered := ordered_step earlier_apart h.ordered (fits_of_nonePassed h.counted hnone) hstep
  counted := counted_step h.counted hstep
  intact := intact_step h.intact hsafe hstep
  calls := by
    intro c
    rw [calls_step hstep, h.calls, List.length_append]
  known := by
    refine holds_step (h.known.mono fun m hm => ?_) (fun m hm => ?_) hstep
    · rw [List.getElem?_append_left (List.getElem?_eq_some_iff.mp hm).1, hm]
    · have hcall : s.callsOn op m.con = [m] := by
        rw [Option.mem_def] at hm
        simp [callsOn, hm, Option.filter]
      rw [hcall, call_of_callOf hm, h.calls, List.getElem?_concat_length]

/-- No step but a call of `send` changes the calls. -/
theorem sends_step_of_not_call (h : Sends called s) (hnone : NonePassed s op)
    (hsafe : Undisturbed s op) (hstep : step s op = some s') (hcall : s.callOf op = none) :
    Sends called s' := by
  have hsends := sends_step h hnone hsafe hstep
  have hcalls : (fun c => called c ++ s.callsOn op c) = called := by
    funext c
    simp [callsOn, hcall]
  rwa [hcalls] at hsends

/-- The buffers of a service: none is used for sending and for receiving, and one that waits
to be read is not posted, and holds the frame of the message that has arrived. -/
structure Buffers (sendBuffers recvBuffers : Finset BufferId) (cq : ℕ → List Arrival)
    (handled : List BufferId) (s : SendWorld) : Prop where
  lists : SendBuffersIn sendBuffers s
  apart : ∀ b ∈ sendBuffers, b ∉ recvBuffers
  posted : ∀ b ∈ s.posted, b ∈ recvBuffers
  read : ∀ b ∈ handled, b ∈ recvBuffers ∧ b ∉ s.posted
  once : handled.Nodup
  queued : ∀ i, ∀ a ∈ cq i, a.bufferId ∈ recvBuffers ∧ a.bufferId ∉ s.posted ∧
    a.bufferId ∉ handled
  kept : ∀ i, ∀ a ∈ cq i, a.message.frame <+: (s.buffer a.bufferId).byteBuffer.content ∧
    a.blockBufferSize = a.message.frame.length
  sorted : Places.Sorted fun i => (cq i).map Arrival.bufferId

variable {sendBuffers recvBuffers : Finset BufferId} {cq : ℕ → List Arrival}
  {handled : List BufferId} {b : BufferId}

theorem buffers_init (buffer : BufferId → HpnlBuffer) :
    Buffers ∅ ∅ (fun _ => []) [] (init buffer) where
  lists := fun _ _ h => absurd h (by simp [init])
  apart := fun _ h => absurd h (Finset.notMem_empty _)
  posted := fun _ h => absurd h (Finset.notMem_empty _)
  read := fun _ h => absurd h List.not_mem_nil
  once := List.nodup_nil
  queued := fun _ _ h => absurd h List.not_mem_nil
  kept := fun _ _ h => absurd h List.not_mem_nil
  sorted := Places.sorted_empty

/-- No receive buffer is in the list of a connection. -/
theorem Buffers.not_mem_list (h : Buffers sendBuffers recvBuffers cq handled s)
    (hb : b ∈ recvBuffers) (c : ConnectionId) (k : JavaConnection) (hk : s.con c = some k) :
    b ∉ k.sendBufferList :=
  fun hlist => h.apart b (h.lists c k hk b (List.mem_append_left _ hlist)) hb

/-- A step leaves the frames that wait to be read alone. -/
theorem Buffers.kept_step (h : Buffers sendBuffers recvBuffers cq handled s)
    (hstep : step s op = some s') (hreceived : ∀ i, ∀ a ∈ cq i, ∀ bytes,
      op ≠ .received a.bufferId bytes) : ∀ i, ∀ a ∈ cq i,
      a.message.frame <+: (s'.buffer a.bufferId).byteBuffer.content ∧
        a.blockBufferSize = a.message.frame.length := by
  intro i a ha
  rw [content_step hstep (h.not_mem_list (h.queued i a ha).1) (hreceived i a ha)]
  exact h.kept i a ha

/-- A step of the service's own. -/
theorem buffers_own (h : Buffers sendBuffers recvBuffers cq handled s) (hop : op.isLocal = true)
    (hstep : step s op = some s') : Buffers sendBuffers recvBuffers cq handled s' := by
  have hposted : s'.posted = s.posted := posted_step hstep
    (by rintro b rfl; exact absurd hop (by simp [SendOp.isLocal]))
    (by rintro b bytes rfl; exact absurd hop (by simp [SendOp.isLocal]))
  have hlists : SendBuffersIn sendBuffers s' := by
    refine sendBuffersIn_step h.lists ?_ hstep
    rintro c index buffers rfl
    exact absurd hop (by simp [SendOp.isLocal])
  have hkept := h.kept_step hstep fun i a _ bytes => by
    rintro rfl
    exact absurd hop (by simp [SendOp.isLocal])
  exact ⟨hlists, h.apart, hposted ▸ h.posted, hposted ▸ h.read, h.once, hposted ▸ h.queued, hkept,
    h.sorted⟩

/-- A buffer that nobody has is posted. -/
theorem buffers_post (h : Buffers sendBuffers recvBuffers cq handled s)
    (hnew : b ∉ recvBuffers ∧ b ∉ sendBuffers)
    (hstep : step s (.activate_recv_chunk b) = some s') :
    Buffers sendBuffers (insert b recvBuffers) cq handled s' := by
  have hkept := h.kept_step hstep fun _ _ _ _ heq => by cases heq
  obtain ⟨-, rfl⟩ := step_activate_recv_chunk hstep
  refine ⟨h.lists, fun x hx hx' => ?_, fun x hx => ?_, fun x hx => ?_, h.once, fun i a ha => ?_,
    hkept, h.sorted⟩
  · rcases Finset.mem_insert.mp hx' with rfl | hx'
    · exact hnew.2 hx
    · exact h.apart x hx hx'
  · exact Finset.insert_subset_insert b h.posted hx
  · obtain ⟨hrecv, hposted⟩ := h.read x hx
    refine ⟨Finset.mem_insert_of_mem hrecv, fun hin => ?_⟩
    rcases Finset.mem_insert.mp hin with rfl | hin
    · exact hnew.1 hrecv
    · exact hposted hin
  · obtain ⟨hrecv, hposted, hhandled⟩ := h.queued i a ha
    refine ⟨Finset.mem_insert_of_mem hrecv, fun hin => ?_, hhandled⟩
    rcases Finset.mem_insert.mp hin with heq | hin
    · exact hnew.1 (heq ▸ hrecv)
    · exact hposted hin

/-- A `Connection` gets buffers that nobody has. -/
theorem buffers_establish (h : Buffers sendBuffers recvBuffers cq handled s) {c : ConnectionId}
    {index : ℕ} {buffers : List BufferId}
    (hnew : ∀ b ∈ buffers, b ∉ sendBuffers ∧ b ∉ recvBuffers)
    (hstep : step s (.establishConnection c index buffers) = some s') :
    Buffers (sendBuffers ∪ buffers.toFinset) recvBuffers cq handled s' := by
  have hkept := h.kept_step hstep fun _ _ _ _ heq => by cases heq
  have hlists : SendBuffersIn (sendBuffers ∪ buffers.toFinset) s' := by
    refine sendBuffersIn_step (fun c k hk b hb => ?_) ?_ hstep
    · exact Finset.mem_union_left _ (h.lists c k hk b hb)
    · rintro d i bs heq b hb
      cases heq
      exact Finset.mem_union_right _ (List.mem_toFinset.mpr hb)
  have hposted : s'.posted = s.posted :=
    posted_step hstep (fun _ heq => by cases heq) fun _ _ heq => by cases heq
  refine ⟨hlists, fun b hb => ?_, hposted ▸ h.posted, hposted ▸ h.read, h.once,
    hposted ▸ h.queued, hkept, h.sorted⟩
  rcases Finset.mem_union.mp hb with hb | hb
  · exact h.apart b hb
  · exact (hnew b (List.mem_toFinset.mp hb)).2

/-- A frame arrives in a buffer that is posted. -/
theorem buffers_arrive (h : Buffers sendBuffers recvBuffers cq handled s) {m : Message}
    (hstep : step s (.received b m.frame) = some s') (c : ConnectionId) (i : ℕ) :
    Buffers sendBuffers recvBuffers
      (Function.update cq i (cq i ++ [⟨c, b, m.frame.length, m⟩])) handled s' := by
  have hlists : SendBuffersIn sendBuffers s' :=
    sendBuffersIn_step h.lists (fun _ _ _ heq => by cases heq) hstep
  have hb : b ∈ s.posted := (step_received hstep).2.1
  have hne : ∀ j, ∀ a ∈ cq j, a.bufferId ≠ b := fun j a ha heq => (h.queued j a ha).2.1 (heq ▸ hb)
  have hold := h.kept_step hstep fun j a ha bytes heq => hne j a ha (by cases heq; rfl)
  obtain ⟨hlen, -, rfl⟩ := step_received hstep
  -- an arrival is an old one or the new one
  have hmem : ∀ j, ∀ a ∈ Function.update cq i (cq i ++ [⟨c, b, m.frame.length, m⟩]) j,
      a ∈ cq j ∨ a = ⟨c, b, m.frame.length, m⟩ := by
    intro j a ha
    by_cases hj : j = i
    · subst hj
      rw [Function.update_self] at ha
      exact (List.mem_append.mp ha).imp_right List.mem_singleton.mp
    · rw [Function.update_of_ne hj] at ha
      exact Or.inl ha
  refine ⟨hlists, h.apart, fun x hx => h.posted x (Finset.mem_of_mem_erase hx), fun x hx => ?_,
    h.once, fun j a ha => ?_, fun j a ha => ?_, ?_⟩
  · exact ⟨(h.read x hx).1, fun hin => (h.read x hx).2 (Finset.mem_of_mem_erase hin)⟩
  · rcases hmem j a ha with ha | rfl
    · obtain ⟨hrecv, hposted, hhandled⟩ := h.queued j a ha
      exact ⟨hrecv, fun hin => hposted (Finset.mem_of_mem_erase hin), hhandled⟩
    · exact ⟨h.posted b hb, Finset.notMem_erase b _, fun hin => (h.read b hin).2 hb⟩
  · rcases hmem j a ha with ha | rfl
    · exact hold j a ha
    · refine ⟨?_, rfl⟩
      show m.frame <+: ((Function.update s.buffer b _) b).byteBuffer.content
      rw [Function.update_self]
      exact HpnlBuffer.bytes_prefix_store hlen
  · have hnew : ¬ Places.Lies (fun j => (cq j).map Arrival.bufferId) b := by
      rintro ⟨j, hj⟩
      obtain ⟨a, ha, heq⟩ := List.mem_map.mp hj
      exact hne j a ha heq
    have happend := h.sorted.append hnew i
    have hmap : (fun j => (Function.update cq i (cq i ++ [⟨c, b, m.frame.length, m⟩]) j).map
        Arrival.bufferId) = Function.update (fun j => (cq j).map Arrival.bufferId) i
          ((cq i).map Arrival.bufferId ++ [b]) := by
      funext j
      by_cases hj : j = i
      · subst hj
        simp
      · rw [Function.update_of_ne hj, Function.update_of_ne hj]
    rw [hmap]
    exact happend

/-- The completion of a buffer is read, and perhaps its bytes are. -/
theorem buffers_recv (h : Buffers sendBuffers recvBuffers cq handled s) {i : ℕ} {a : Arrival}
    {rest : List Arrival} (hcq : cq i = a :: rest) (hs : s'.con = s.con)
    (hposted : s'.posted = s.posted)
    (hcontent : ∀ x, (s'.buffer x).byteBuffer.content = (s.buffer x).byteBuffer.content) :
    Buffers sendBuffers recvBuffers (Function.update cq i rest) (a.bufferId :: handled) s' := by
  have ha := h.queued i a (hcq ▸ List.mem_cons_self)
  have hsub : ∀ j, (Function.update cq i rest j).Sublist (cq j) := by
    intro j
    by_cases hj : j = i
    · subst hj
      rw [Function.update_self, hcq]
      exact List.sublist_cons_self a rest
    · rw [Function.update_of_ne hj]
  -- no other completion is of the same buffer
  have hother : ∀ j, ∀ x ∈ Function.update cq i rest j, x.bufferId ≠ a.bufferId := by
    intro j x hx heq
    have hmem : a.bufferId ∈ (cq i).map Arrival.bufferId := by rw [hcq]; exact List.mem_cons_self
    have hx' : a.bufferId ∈ (cq j).map Arrival.bufferId :=
      heq ▸ List.mem_map_of_mem ((hsub j).subset hx)
    obtain rfl := h.sorted.one hx' hmem
    have hnodup := h.sorted.nodup j
    rw [hcq, List.map_cons] at hnodup
    rw [Function.update_self] at hx
    exact (List.nodup_cons.mp hnodup).1 (heq ▸ List.mem_map_of_mem hx)
  refine ⟨fun c k hk => h.lists c k (hs ▸ hk), h.apart, hposted ▸ h.posted, ?_,
    List.nodup_cons.mpr ⟨ha.2.2, h.once⟩, ?_, ?_, h.sorted.sublist fun j => (hsub j).map _⟩
  · rw [hposted]
    intro b hb
    rcases List.mem_cons.mp hb with rfl | hb
    · exact ⟨ha.1, ha.2.1⟩
    · exact h.read b hb
  · rw [hposted]
    intro j x hx
    obtain ⟨hrecv, hnot, hhandled⟩ := h.queued j x ((hsub j).subset hx)
    refine ⟨hrecv, hnot, fun hin => ?_⟩
    rcases List.mem_cons.mp hin with heq | hin
    · exact hother j x hx heq
    · exact hhandled hin
  · intro j x hx
    rw [hcontent]
    exact h.kept j x ((hsub j).subset hx)

/-- A buffer that has been read is posted again. -/
theorem buffers_activate (h : Buffers sendBuffers recvBuffers cq handled s) (hb : b ∈ handled)
    (hstep : step s (.activate_recv_chunk b) = some s') :
    Buffers sendBuffers recvBuffers cq (handled.erase b) s' := by
  have hkept := h.kept_step hstep fun _ _ _ _ heq => by cases heq
  obtain ⟨-, rfl⟩ := step_activate_recv_chunk hstep
  refine ⟨h.lists, h.apart, fun x hx => ?_, fun x hx => ?_, h.once.erase b, fun i a ha => ?_,
    hkept, h.sorted⟩
  · rcases Finset.mem_insert.mp hx with rfl | hx
    · exact (h.read x hb).1
    · exact h.posted x hx
  · obtain ⟨hne, hx⟩ := h.once.mem_erase_iff.mp hx
    obtain ⟨hrecv, hposted⟩ := h.read x hx
    refine ⟨hrecv, fun hin => ?_⟩
    exact (Finset.mem_insert.mp hin).elim hne hposted
  · obtain ⟨hrecv, hposted, hhandled⟩ := h.queued i a ha
    refine ⟨hrecv, fun hin => ?_, fun hin => hhandled (List.mem_of_mem_erase hin)⟩
    rcases Finset.mem_insert.mp hin with heq | hin
    · exact hhandled (heq ▸ hb)
    · exact hposted hin

end SendWorld

/-! ## What the system keeps -/

namespace LinkWorld

variable {Host : Type} {F : Fabric Host} {w w' : LinkWorld Host}

/-- What is in a channel are frames of messages that the native sends have got, in order. -/
structure Channels (w : LinkWorld Host) : Prop where
  packets : ∀ e, ∀ p ∈ (w.channel e).sent, p.frame = p.message.frame ∧ p.message.con = e.2
  handed : ∀ e, ((w.channel e).sent.map fun p => ExternalHandler.send p.message).Sublist
    (w.host e.1).history

/-- What has been delivered to an endpoint has been read, or waits, and its callbacks have got
what has been read: all of it, if the connection has stayed in the `conMap`. -/
structure Readings (F : Fabric Host) (w : LinkWorld Host) : Prop where
  home : ∀ h i, ∀ a ∈ w.cq h i, F.cq_index (h, a.con) = i
  flow : ∀ e, w.read (F.peer e) ++ w.waiting F (F.peer e) =
    (w.channel e).delivered.map Packet.message
  answered : ∀ e, w.delivered e <+: (w.read e).map fun m => .ok m.reading
  whole : ∀ e, (∀ k ∈ (w.host e.1).con e.2, k.mapped = true) →
    w.delivered e = (w.read e).map fun m => .ok m.reading

/-- The invariant. -/
structure Inv (F : Fabric Host) (w : LinkWorld Host) : Prop where
  sends : ∀ h, SendWorld.Sends (fun c => w.called (h, c)) (w.host h)
  buffers : ∀ h, SendWorld.Buffers (w.sendBuffers h) (w.recvBuffers h) (w.cq h) (w.handled h)
    (w.host h)
  channels : w.Channels
  readings : w.Readings F

theorem inv_init (buffer : Host → BufferId → HpnlBuffer) : (init buffer).Inv F where
  sends := fun h => SendWorld.sends_init (buffer h)
  buffers := fun h => SendWorld.buffers_init (buffer h)
  channels := ⟨fun _ _ hp => absurd hp List.not_mem_nil, fun _ => List.nil_sublist _⟩
  readings := ⟨fun _ _ _ ha => absurd ha List.not_mem_nil, fun _ => rfl, fun _ => List.prefix_rfl,
    fun _ _ => rfl⟩

/-- What an endpoint has sent are some of its calls, in their order. -/
theorem Inv.accepted (hi : w.Inv F) (e : Endpoint Host) :
    ((w.channel e).sent.map Packet.message).Sublist (w.called e) := by
  have hhanded := hi.channels.handed e
  have hpairs : ((w.channel e).sent.map Packet.message).Pairwise fun m m' => m.call < m'.call := by
    have hord : (w.host e.1).history.Pairwise SendWorld.Earlier :=
      (hi.sends e.1).ordered.inOrder.log_pairwise
    have hsent := hord.sublist hhanded
    rw [List.pairwise_map] at hsent ⊢
    refine hsent.imp_of_mem fun {p q} hp hq hlt => hlt ?_
    rw [(hi.channels.packets e p hp).2, (hi.channels.packets e q hq).2]
  refine sublist_of_index hpairs fun m hm => ?_
  obtain ⟨p, hp, rfl⟩ := List.mem_map.mp hm
  have hcon := (hi.channels.packets e p hp).2
  have hknown := (hi.sends e.1).known.done p.message (hhanded.subset (List.mem_map_of_mem hp))
  rwa [hcon] at hknown

theorem Inv.delivers (hi : w.Inv F) : w.Delivers F where
  accepted := hi.accepted
  first := by
    intro e
    obtain ⟨rest, hrest⟩ := hi.readings.answered (F.peer e)
    -- the callbacks have got the first of what has been read
    have htake : w.delivered (F.peer e) = ((w.read (F.peer e)).take
        (w.delivered (F.peer e)).length).map fun m => .ok m.reading := by
      rw [List.map_take, ← hrest, List.take_left']
      rfl
    refine ⟨_, ?_, htake⟩
    have hread : w.read (F.peer e) <+: (w.channel e).delivered.map Packet.message := by
      rw [← hi.readings.flow e]
      exact List.prefix_append _ _
    exact ((List.take_prefix _ _).trans hread).trans ((w.channel e).delivered_first.map _)
  all := by
    intro e hup hwire hwaiting hmapped
    have hflow := hi.readings.flow e
    rw [hwaiting, List.append_nil, (w.channel e).delivered_of_up hup hwire] at hflow
    rw [hi.readings.whole _ hmapped, hflow, List.map_map]
    rfl

/-- Nothing more has been sent, though native calls may have been made. -/
theorem Channels.of_eq (h : w.Channels)
    (hchannel : ∀ e, (w'.channel e).sent = (w.channel e).sent)
    (hnative : ∀ h, (w.host h).native <+: (w'.host h).native) : w'.Channels where
  packets := fun e p hp => h.packets e p (hchannel e ▸ hp)
  handed := fun e => by
    rw [hchannel]
    exact (h.handed e).trans ((hnative e.1).map NativeCall.handler).sublist

/-- Nothing has been delivered or read. -/
theorem Readings.of_eq (h : w.Readings F) (hcq : w'.cq = w.cq) (hread : w'.read = w.read)
    (hdelivered : w'.delivered = w.delivered)
    (hchannel : ∀ e, (w'.channel e).delivered = (w.channel e).delivered)
    (hmapped : ∀ e : Endpoint Host, (∀ k ∈ (w'.host e.1).con e.2, k.mapped = true) →
      ∀ k ∈ (w.host e.1).con e.2, k.mapped = true) : w'.Readings F where
  home := hcq ▸ h.home
  flow := fun e => by
    rw [hchannel, hread, waiting, hcq]
    exact h.flow e
  answered := fun e => by
    rw [hdelivered, hread]
    exact h.answered e
  whole := fun e hm => by
    rw [hdelivered, hread]
    exact h.whole e (hmapped e hm)

variable [DecidableEq Host]

/-- A connection that is in the `conMap` after one service has taken a step was there. -/
theorem mapped_setHost {h : Host} {op : SendOp} {s : SendWorld}
    (hstep : (w.host h).step op = some s) (e : Endpoint Host)
    (hm : ∀ k ∈ (Function.update w.host h s e.1).con e.2, k.mapped = true) :
    ∀ k ∈ (w.host e.1).con e.2, k.mapped = true := by
  by_cases he : e.1 = h
  · rw [he, Function.update_self] at hm
    rw [he]
    exact SendWorld.mapped_step hstep hm
  · rwa [Function.update_of_ne he] at hm

/-- One service takes a step that hands nothing to the native layer, and nothing arrives. -/
theorem Inv.of_quiet (hi : w.Inv F) {h : Host} {op : SendOp} {s : SendWorld}
    (hstep : (w.host h).step op = some s) (hnone : (w.host h).NonePassed op)
    (hsafe : (w.host h).Undisturbed op) (hcall : (w.host h).callOf op = none)
    (hnative : s.native = (w.host h).native) (hhost : w'.host = Function.update w.host h s)
    (hbuffers : ∀ g, SendWorld.Buffers (w'.sendBuffers g) (w'.recvBuffers g) (w.cq g)
      (w'.handled g) (w'.host g))
    (hsame : w'.channel = w.channel ∧ w'.cq = w.cq ∧ w'.called = w.called ∧ w'.read = w.read ∧
      w'.delivered = w.delivered) : w'.Inv F := by
  obtain ⟨hchannel, hcq, hcalled, hread, hdelivered⟩ := hsame
  refine ⟨fun g => ?_, hcq ▸ hbuffers, hi.channels.of_eq (fun e => by rw [hchannel]) fun g => ?_,
    hi.readings.of_eq hcq hread hdelivered (fun e => by rw [hchannel]) fun e => ?_⟩
  · rw [hhost, hcalled]
    by_cases hg : g = h
    · rw [hg, Function.update_self]
      exact SendWorld.sends_step_of_not_call (hi.sends h) hnone hsafe hstep hcall
    · rw [Function.update_of_ne hg]
      exact hi.sends g
  · rw [hhost]
    by_cases hg : g = h
    · rw [hg, Function.update_self, hnative]
    · rw [Function.update_of_ne hg]
  · rw [hhost]
    exact mapped_setHost hstep e

theorem inv_post (hi : w.Inv F) {h : Host} {b : BufferId}
    (hstep : step F w (.post h b) = some w') : w'.Inv F := by
  simp only [step, Option.ite_none_left_eq_some, Option.map_eq_some_iff] at hstep
  obtain ⟨hnew, s, hs, rfl⟩ := hstep
  refine hi.of_quiet hs trivial trivial rfl ?_ rfl (fun g => ?_) ⟨rfl, rfl, rfl, rfl, rfl⟩
  · obtain ⟨-, rfl⟩ := SendWorld.step_activate_recv_chunk hs
    rfl
  · by_cases hg : g = h
    · subst hg
      simp only [setHost, Function.update_self]
      exact SendWorld.buffers_post (hi.buffers g) (not_or.mp hnew) hs
    · simp only [setHost, Function.update_of_ne hg]
      exact hi.buffers g

theorem inv_establishConnection (hi : w.Inv F) {h : Host} {c : ConnectionId}
    {buffers : List BufferId} (hstep : step F w (.establishConnection h c buffers) = some w') :
    w'.Inv F := by
  simp only [step, Option.ite_none_left_eq_some, Option.map_eq_some_iff] at hstep
  obtain ⟨hnew, s, hs, rfl⟩ := hstep
  have hfresh : ∀ b ∈ buffers, b ∉ w.sendBuffers h ∧ b ∉ w.recvBuffers h :=
    fun b hb => not_or.mp fun hin => hnew ⟨b, hb, hin⟩
  refine hi.of_quiet hs trivial trivial rfl ?_ rfl (fun g => ?_) ⟨rfl, rfl, rfl, rfl, rfl⟩
  · obtain ⟨-, rfl⟩ := SendWorld.step_establishConnection hs
    rfl
  · by_cases hg : g = h
    · subst hg
      simp only [setHost, Function.update_self]
      exact SendWorld.buffers_establish (hi.buffers g) hfresh hs
    · simp only [setHost, Function.update_of_ne hg]
      exact hi.buffers g

theorem inv_activate (hi : w.Inv F) {h : Host} {b : BufferId}
    (hstep : step F w (.activate_recv_chunk h b) = some w') : w'.Inv F := by
  simp only [step, Option.ite_none_right_eq_some, Option.map_eq_some_iff] at hstep
  obtain ⟨hb, s, hs, rfl⟩ := hstep
  refine hi.of_quiet hs trivial trivial rfl ?_ rfl (fun g => ?_) ⟨rfl, rfl, rfl, rfl, rfl⟩
  · obtain ⟨-, rfl⟩ := SendWorld.step_activate_recv_chunk hs
    rfl
  · by_cases hg : g = h
    · subst hg
      simp only [setHost, Function.update_self]
      exact SendWorld.buffers_activate (hi.buffers g) hb hs
    · simp only [setHost, Function.update_of_ne hg]
      exact hi.buffers g

theorem inv_cut (hi : w.Inv F) {e : Endpoint Host} (hstep : step F w (.cut e) = some w') :
    w'.Inv F := by
  cases hstep
  have hsent : ∀ d, (Function.update w.channel e (w.channel e).cut d).sent =
      (w.channel d).sent := by
    intro d
    by_cases hd : d = e
    · rw [hd, Function.update_self, Channel.sent_cut]
    · rw [Function.update_of_ne hd]
  have hdelivered : ∀ d, (Function.update w.channel e (w.channel e).cut d).delivered =
      (w.channel d).delivered := by
    intro d
    by_cases hd : d = e
    · rw [hd, Function.update_self, Channel.delivered_cut]
    · rw [Function.update_of_ne hd]
  exact ⟨hi.sends, hi.buffers, hi.channels.of_eq hsent fun _ => List.prefix_rfl,
    hi.readings.of_eq rfl rfl rfl hdelivered fun _ => id⟩

/-! ### A step of a service's own -/

theorem newCalls_eq {s s' : SendWorld} {calls : List NativeCall}
    (h : s'.native = s.native ++ calls) : newCalls s s' = calls := by
  rw [newCalls, h, List.drop_left]

/-- A native call delivers nothing. -/
theorem delivered_carry (reply : ℤ) (h : Host) (channel : Endpoint Host → Channel Packet)
    (call : NativeCall) (e : Endpoint Host) :
    (carry reply h channel call e).delivered = (channel e).delivered := by
  have hupdate : ∀ (d : Endpoint Host) (c : Channel Packet), c.delivered = (channel d).delivered →
      (Function.update channel d c e).delivered = (channel e).delivered := by
    intro d c hc
    by_cases he : e = d
    · rw [he, Function.update_self, hc]
    · rw [Function.update_of_ne he]
  cases call with
  | send m frame =>
    rw [carry]
    split
    · exact hupdate _ _ rfl
    · rfl
  | free c => exact hupdate _ _ rfl

/-- A native call sends its own frame, or nothing. -/
theorem sent_carry (reply : ℤ) (h : Host) (channel : Endpoint Host → Channel Packet)
    (call : NativeCall) (e : Endpoint Host) :
    (carry reply h channel call e).sent = (channel e).sent ∨
      ∃ m frame, call = .send m frame ∧ e = (h, m.con) ∧
        (carry reply h channel call e).sent = (channel e).sent ++ [⟨m, frame⟩] := by
  cases call with
  | send m frame =>
    rw [carry]
    split
    · by_cases he : e = (h, m.con)
      · rw [he, Function.update_self]
        exact Or.inr ⟨m, frame, rfl, rfl, rfl⟩
      · rw [Function.update_of_ne he]
        exact Or.inl rfl
    · exact Or.inl rfl
  | free c =>
    rw [carry]
    by_cases he : e = (h, c)
    · rw [he, Function.update_self]
      exact Or.inl rfl
    · rw [Function.update_of_ne he]
      exact Or.inl rfl

/-- The native calls of a service get into the channels in their order. -/
theorem channels_own (hi : w.Channels) {h : Host} {s : SendWorld} {calls : List NativeCall}
    {reply : ℤ} (hnative : s.native = (w.host h).native ++ calls)
    (hcalls : calls = [] ∨ (∃ m : Message, calls = [.send m m.frame]) ∨ ∃ c, calls = [.free c])
    (hhost : w'.host = Function.update w.host h s)
    (hchannel : w'.channel = calls.foldl (carry reply h) w.channel) : w'.Channels := by
  have hgrow : ∀ g, (w.host g).native <+: (w'.host g).native := by
    intro g
    rw [hhost]
    by_cases hg : g = h
    · rw [hg, Function.update_self, hnative]
      exact List.prefix_append _ _
    · rw [Function.update_of_ne hg]
  rcases hcalls with rfl | ⟨m, rfl⟩ | ⟨c, rfl⟩
  · exact hi.of_eq (fun e => by rw [hchannel]; rfl) hgrow
  · have hone : w'.channel = carry reply h w.channel (.send m m.frame) := hchannel
    have hself : (w'.host h).history = (w.host h).history ++ [.send m] := by
      rw [hhost, Function.update_self, SendWorld.history, hnative, List.map_append]
      rfl
    -- one endpoint has one frame more
    have hsent := sent_carry reply h w.channel (.send m m.frame)
    rw [← hone] at hsent
    refine ⟨fun e p hp => ?_, fun e => ?_⟩ <;>
      rcases hsent e with hsame | ⟨m', frame, heq, rfl, hmore⟩
    · exact hi.packets e p (hsame ▸ hp)
    · cases heq
      rw [hmore] at hp
      rcases List.mem_append.mp hp with hp | hp
      · exact hi.packets _ p hp
      · rw [List.mem_singleton.mp hp]
        exact ⟨rfl, rfl⟩
    · rw [hsame]
      exact (hi.handed e).trans ((hgrow e.1).map NativeCall.handler).sublist
    · cases heq
      rw [hmore, List.map_append]
      show List.Sublist _ (w'.host h).history
      rw [hself]
      exact (hi.handed (h, m.con)).append (List.Sublist.refl _)
  · refine hi.of_eq (fun e => ?_) hgrow
    have hone : w'.channel = carry reply h w.channel (.free c) := hchannel
    rw [hone]
    rcases sent_carry reply h w.channel (.free c) e with hsame | ⟨m, frame, heq, -⟩
    · exact hsame
    · cases heq

theorem inv_own (hi : w.Inv F) {h : Host} {op : SendOp} (hguard : w.Guard F (.own h op))
    (hstep : step F w (.own h op) = some w') : w'.Inv F := by
  simp only [step, Option.ite_none_right_eq_some, Option.map_eq_some_iff] at hstep
  obtain ⟨hlocal, s, hs, rfl⟩ := hstep
  obtain ⟨hnone, hsafe⟩ := hguard
  have hnative : ∃ calls, s.native = (w.host h).native ++ calls ∧ (calls = [] ∨
      (∃ m : Message, calls = [.send m m.frame]) ∨ ∃ c, calls = [.free c]) := by
    rcases SendWorld.native_step (hi.sends h).intact hsafe hs with heq | ⟨m, heq⟩ | ⟨c, heq⟩
    · exact ⟨[], by rw [heq, List.append_nil], Or.inl rfl⟩
    · exact ⟨_, heq, Or.inr (Or.inl ⟨m, rfl⟩)⟩
    · exact ⟨_, heq, Or.inr (Or.inr ⟨c, rfl⟩)⟩
  obtain ⟨calls, hcalls, hkind⟩ := hnative
  have hnew := newCalls_eq hcalls
  refine ⟨fun g => ?_, fun g => ?_, channels_own hi.channels hcalls hkind rfl (by rw [hnew]), ?_⟩
  · by_cases hg : g = h
    · subst hg
      simp only [setHost, Function.update_self, if_true]
      exact SendWorld.sends_step (hi.sends g) hnone hsafe hs
    · simp only [setHost, Function.update_of_ne hg, if_neg hg]
      exact hi.sends g
  · by_cases hg : g = h
    · subst hg
      simp only [setHost, Function.update_self]
      exact SendWorld.buffers_own (hi.buffers g) hlocal hs
    · simp only [setHost, Function.update_of_ne hg]
      exact hi.buffers g
  · refine hi.readings.of_eq rfl rfl rfl (fun e => ?_) (mapped_setHost hs)
    rw [hnew]
    rcases hkind with rfl | ⟨m, rfl⟩ | ⟨c, rfl⟩
    · rfl
    · exact delivered_carry op.reply h w.channel (.send m m.frame) e
    · exact delivered_carry op.reply h w.channel (.free c) e

/-! ### Arriving and reading -/

/-- A frame has arrived at the peer of an endpoint. -/
theorem readings_arrive (hi : w.Readings F) {e : Endpoint Host} {p : Packet}
    {rest : List Packet} (hwire : (w.channel e).wire = p :: rest) {b n : ℕ}
    (hcq : w'.cq = Function.update w.cq (F.peer e).1 (Function.update (w.cq (F.peer e).1)
      (F.cq_index (F.peer e)) (w.cq (F.peer e).1 (F.cq_index (F.peer e)) ++
        [⟨(F.peer e).2, b, n, p.message⟩])))
    (hchannel : w'.channel =
      Function.update w.channel e ((w.channel e).deliver p rest hwire))
    (hread : w'.read = w.read) (hdelivered : w'.delivered = w.delivered)
    (hmapped : ∀ f : Endpoint Host, (∀ k ∈ (w'.host f.1).con f.2, k.mapped = true) →
      ∀ k ∈ (w.host f.1).con f.2, k.mapped = true) : w'.Readings F where
  home := by
    intro h i a ha
    rw [hcq] at ha
    by_cases hh : h = (F.peer e).1
    · subst hh
      rw [Function.update_self] at ha
      by_cases hi' : i = F.cq_index (F.peer e)
      · subst hi'
        rw [Function.update_self] at ha
        rcases List.mem_append.mp ha with ha | ha
        · exact hi.home _ _ a ha
        · rw [List.mem_singleton.mp ha]
      · rw [Function.update_of_ne hi'] at ha
        exact hi.home _ i a ha
    · rw [Function.update_of_ne hh] at ha
      exact hi.home h i a ha
  flow := by
    intro d
    rw [hread, hchannel]
    by_cases hd : d = e
    · subst hd
      have hwaiting : w'.waiting F (F.peer d) = w.waiting F (F.peer d) ++ [p.message] := by
        rw [waiting, hcq, Function.update_self, Function.update_self, List.filter_append,
          List.map_append]
        simp [waiting]
      rw [hwaiting, Function.update_self, Channel.delivered_deliver, List.map_append,
        ← List.append_assoc, hi.flow]
      rfl
    · have hne : F.peer d ≠ F.peer e := fun heq => hd (F.injective heq)
      have hwaiting : w'.waiting F (F.peer d) = w.waiting F (F.peer d) := by
        rw [waiting, hcq]
        by_cases hh : (F.peer d).1 = (F.peer e).1
        · rw [hh, Function.update_self]
          by_cases hidx : F.cq_index (F.peer d) = F.cq_index (F.peer e)
          · -- the completion in the same queue is of another connection
            have hcon : (F.peer e).2 ≠ (F.peer d).2 := fun hc => hne (Prod.ext hh hc.symm)
            rw [hidx, Function.update_self, List.filter_append, waiting, hh, hidx]
            simp [hcon]
          · rw [Function.update_of_ne hidx, waiting, hh]
        · rw [Function.update_of_ne hh]
          rfl
      rw [hwaiting, Function.update_of_ne hd]
      exact hi.flow d
  answered := by
    intro f
    rw [hdelivered, hread]
    exact hi.answered f
  whole := by
    intro f hf
    rw [hdelivered, hread]
    exact hi.whole f (hmapped f hf)

theorem inv_arrive (hi : w.Inv F) {e : Endpoint Host} {b : BufferId}
    (hguard : w.Guard F (.arrive e b)) (hstep : step F w (.arrive e b) = some w') :
    w'.Inv F := by
  simp only [step, Option.bind_eq_some_iff, Option.map_eq_some_iff] at hstep
  obtain ⟨⟨p, c⟩, hnext, s, hs, rfl⟩ := hstep
  obtain ⟨rest, hwire, rfl⟩ := Channel.next?_eq_some hnext
  have hsafe : (w.host (F.peer e).1).Undisturbed (.received b p.frame) :=
    hguard p (by rw [hwire]; rfl)
  have hp : p ∈ (w.channel e).sent :=
    Channel.mem_sent_of_mem_wire (by rw [hwire]; exact List.mem_cons_self)
  have hframe := (hi.channels.packets e p hp).1
  refine ⟨fun g => ?_, fun g => ?_, hi.channels.of_eq (fun d => ?_) fun g => ?_,
    readings_arrive hi.readings hwire rfl rfl rfl rfl (mapped_setHost hs)⟩
  · by_cases hg : g = (F.peer e).1
    · subst hg
      simp only [setHost, Function.update_self]
      exact SendWorld.sends_step_of_not_call (hi.sends _) (by trivial) hsafe hs (by rfl)
    · simp only [setHost, Function.update_of_ne hg]
      exact hi.sends g
  · by_cases hg : g = (F.peer e).1
    · subst hg
      simp only [setHost, Function.update_self]
      rw [hframe] at hs ⊢
      exact SendWorld.buffers_arrive (hi.buffers _) hs _ _
    · simp only [setHost, Function.update_of_ne hg]
      exact hi.buffers g
  · by_cases hd : d = e
    · subst hd
      simp only [Function.update_self, Channel.sent_deliver]
    · simp only [Function.update_of_ne hd]
  · by_cases hg : g = (F.peer e).1
    · subst hg
      simp only [setHost, Function.update_self]
      obtain ⟨-, -, rfl⟩ := SendWorld.step_received hs
      exact List.prefix_rfl
    · simp only [setHost, Function.update_of_ne hg]
      exact List.prefix_rfl

/-- The completion at the head of a queue has been read, and its callback has run if the
connection is in the `conMap`. -/
theorem readings_recv (hi : w.Readings F) {h : Host} {i : ℕ} {a : Arrival} {rest : List Arrival}
    (hcq : w.cq h i = a :: rest)
    (hcq' : w'.cq = Function.update w.cq h (Function.update (w.cq h) i rest))
    (hread : w'.read = Function.update w.read (h, a.con) (w.read (h, a.con) ++ [a.message]))
    (hchannel : w'.channel = w.channel) (hcon : ∀ g, (w'.host g).con = (w.host g).con)
    {k : JavaConnection} (hk : (w.host h).con a.con = some k)
    (hdelivered : k.mapped = true ∧ w'.delivered = Function.update w.delivered (h, a.con)
        (w.delivered (h, a.con) ++ [.ok a.message.reading]) ∨
      k.mapped = false ∧ w'.delivered = w.delivered) : w'.Readings F where
  home := by
    intro g j x hx
    rw [hcq'] at hx
    refine hi.home g j x ?_
    by_cases hg : g = h
    · subst hg
      rw [Function.update_self] at hx
      by_cases hj : j = i
      · subst hj
        rw [Function.update_self] at hx
        exact hcq ▸ List.mem_cons_of_mem a hx
      · rwa [Function.update_of_ne hj] at hx
    · rwa [Function.update_of_ne hg] at hx
  flow := by
    intro e
    have hhome : F.cq_index (h, a.con) = i := hi.home h i a (hcq ▸ List.mem_cons_self)
    rw [hchannel, hread, ← hi.flow e]
    by_cases he : F.peer e = (h, a.con)
    · -- the message that has been read was the first that waited
      rw [he, Function.update_self, List.append_assoc, waiting, waiting, hcq', hhome,
        Function.update_self, Function.update_self, hcq]
      simp
    · rw [Function.update_of_ne he]
      congr 1
      rw [waiting, waiting, hcq']
      by_cases hg : (F.peer e).1 = h
      · rw [hg, Function.update_self]
        by_cases hj : F.cq_index (F.peer e) = i
        · have hne : a.con ≠ (F.peer e).2 := fun hc => he (Prod.ext hg hc.symm)
          rw [hj, Function.update_self, hcq]
          simp [hne]
        · rw [Function.update_of_ne hj]
      · rw [Function.update_of_ne hg]
  answered := by
    intro f
    rw [hread]
    rcases hdelivered with ⟨hmapped, hdelivered⟩ | ⟨-, hdelivered⟩ <;> rw [hdelivered] <;>
      by_cases hf : f = (h, a.con)
    · have hall : w.delivered (h, a.con) = (w.read (h, a.con)).map fun m => .ok m.reading :=
        hi.whole (h, a.con) fun j hj => by cases hk.symm.trans hj; exact hmapped
      rw [hf, Function.update_self, Function.update_self, hall, List.map_append]
      exact List.prefix_rfl
    · rw [Function.update_of_ne hf, Function.update_of_ne hf]
      exact hi.answered f
    · rw [hf, Function.update_self, List.map_append]
      exact (hi.answered _).trans (List.prefix_append _ _)
    · rw [Function.update_of_ne hf]
      exact hi.answered f
  whole := by
    intro f hf
    rw [hcon] at hf
    rw [hread]
    by_cases he : f = (h, a.con)
    · rw [he] at hf ⊢
      rcases hdelivered with ⟨-, hdelivered⟩ | ⟨hunmapped, -⟩
      · rw [hdelivered, Function.update_self, Function.update_self, hi.whole _ hf, List.map_append]
        rfl
      · exact absurd (hf k hk) (by simp [hunmapped])
    · rw [Function.update_of_ne he]
      rcases hdelivered with ⟨-, hdelivered⟩ | ⟨-, hdelivered⟩ <;> rw [hdelivered]
      · rw [Function.update_of_ne he]
        exact hi.whole f hf
      · exact hi.whole f hf

/-- The callback runs, and reads the buffer. -/
theorem handle_of_mapped (w : LinkWorld Host) {h : Host} {a : Arrival} {k : JavaConnection}
    (hk : (w.host h).con a.con = some k) (hm : k.mapped = true) :
    w.handle h a = { w.setHost h ((w.host h).setBuffer a.bufferId
        ((HpnlBuffer.get a.blockBufferSize).after ((w.host h).buffer a.bufferId))) with
      handled := Function.update w.handled h (a.bufferId :: w.handled h)
      read := Function.update w.read (h, a.con) (w.read (h, a.con) ++ [a.message])
      delivered := Function.update w.delivered (h, a.con) (w.delivered (h, a.con) ++
        [HpnlBuffer.onReceiveOutcome a.blockBufferSize ((w.host h).buffer a.bufferId)]) } := by
  have hany : ((w.host h).con a.con).any JavaConnection.mapped = true := by rw [hk]; exact hm
  unfold handle
  rw [if_pos hany, HpnlBuffer.after_onReceive]
  rfl

/-- There is no callback any more. -/
theorem handle_of_unmapped (w : LinkWorld Host) {h : Host} {a : Arrival} {k : JavaConnection}
    (hk : (w.host h).con a.con = some k) (hm : k.mapped = false) :
    w.handle h a = { w with
      handled := Function.update w.handled h (a.bufferId :: w.handled h)
      read := Function.update w.read (h, a.con) (w.read (h, a.con) ++ [a.message]) } := by
  have hany : ¬ ((w.host h).con a.con).any JavaConnection.mapped = true := by
    rw [hk]
    exact Bool.eq_false_iff.mp hm
  unfold handle
  rw [if_neg hany]

theorem inv_recv (hi : w.Inv F) {h : Host} {i : ℕ} (hstep : step F w (.recv h i) = some w') :
    w'.Inv F := by
  cases hcq : w.cq h i with
  | nil => simp [step, hcq] at hstep
  | cons a rest =>
    simp only [step, hcq, Option.ite_none_left_eq_some, Option.some.injEq, not_or,
      Option.isNone_iff_eq_none] at hstep
    obtain ⟨⟨hcon, -⟩, rfl⟩ := hstep
    obtain ⟨k, hk⟩ := Option.ne_none_iff_exists'.mp hcon
    obtain ⟨hframe, hsize⟩ := (hi.buffers h).kept i a (hcq ▸ List.mem_cons_self)
    cases hm : k.mapped with
    | true =>
      rw [handle_of_mapped (w.popCq h i rest) hk hm]
      have hread : HpnlBuffer.onReceiveOutcome a.blockBufferSize
          ((w.host h).buffer a.bufferId) = .ok a.message.reading := by
        rw [hsize]
        exact HpnlBuffer.onReceiveOutcome_frame hframe
      let s := (w.host h).setBuffer a.bufferId ((HpnlBuffer.get a.blockBufferSize).after
        ((w.host h).buffer a.bufferId))
      have hs : (w.host h).step (.get a.bufferId a.blockBufferSize) = some s := rfl
      have hcontent : ∀ x, (s.buffer x).byteBuffer.content =
          ((w.host h).buffer x).byteBuffer.content := by
        intro x
        by_cases hx : x = a.bufferId
        · rw [hx]
          show ((Function.update (w.host h).buffer a.bufferId _) a.bufferId).byteBuffer.content = _
          rw [Function.update_self]
          exact HpnlBuffer.content_get _ _
        · show ((Function.update (w.host h).buffer a.bufferId _) x).byteBuffer.content = _
          rw [Function.update_of_ne hx]
      have hcons : ∀ g, (Function.update w.host h s g).con = (w.host g).con := by
        intro g
        by_cases hg : g = h
        · rw [hg, Function.update_self]
          rfl
        · rw [Function.update_of_ne hg]
      refine ⟨fun g => ?_, fun g => ?_, hi.channels.of_eq (fun _ => rfl) fun g => ?_,
        readings_recv hi.readings hcq rfl rfl rfl hcons hk (Or.inl ⟨hm, by rw [← hread]; rfl⟩)⟩
      · by_cases hg : g = h
        · subst hg
          simp only [setHost, Function.update_self]
          exact SendWorld.sends_step_of_not_call (hi.sends g) (by trivial) (by trivial) hs (by rfl)
        · simp only [setHost, Function.update_of_ne hg]
          exact hi.sends g
      · by_cases hg : g = h
        · subst hg
          simp only [setHost, popCq, Function.update_self]
          exact SendWorld.buffers_recv (hi.buffers g) hcq (by rfl) (by rfl) hcontent
        · simp only [setHost, popCq, Function.update_of_ne hg]
          exact hi.buffers g
      · by_cases hg : g = h
        · subst hg
          simp only [setHost, Function.update_self]
          exact List.prefix_rfl
        · simp only [setHost, Function.update_of_ne hg]
          exact List.prefix_rfl
    | false =>
      rw [handle_of_unmapped (w.popCq h i rest) hk hm]
      refine ⟨hi.sends, fun g => ?_, hi.channels.of_eq (fun _ => rfl) fun _ => List.prefix_rfl,
        readings_recv hi.readings hcq rfl rfl rfl (fun _ => rfl) hk (Or.inr ⟨hm, rfl⟩)⟩
      by_cases hg : g = h
      · subst hg
        simp only [popCq, Function.update_self]
        exact SendWorld.buffers_recv (hi.buffers g) hcq rfl rfl fun _ => rfl
      · simp only [popCq, Function.update_of_ne hg]
        exact hi.buffers g

/-- **A step that meets the guard keeps the invariant.** -/
theorem inv_step (hi : w.Inv F) {op : LinkOp Host} (hguard : w.Guard F op)
    (hstep : step F w op = some w') : w'.Inv F := by
  cases op with
  | post h b => exact inv_post hi hstep
  | establishConnection h c buffers => exact inv_establishConnection hi hstep
  | own h op => exact inv_own hi hguard hstep
  | cut e => exact inv_cut hi hstep
  | arrive e b => exact inv_arrive hi hguard hstep
  | recv h i => exact inv_recv hi hstep
  | activate_recv_chunk h b => exact inv_activate hi hstep

/-- **From `send` to the callback of the peer.**  In a run in which no send passes another
one of its connection that waits, and nothing that a send has still to read is overwritten,
the receive callbacks of an endpoint get, without an exception, the first of the messages
that its peer's native sends have accepted, each once, in the order of the calls of `send`
and with the bytes that the caller's buffer held; and in the end all of them, if the
connection stays. -/
theorem delivered_in_order (F : Fabric Host) (buffer : Host → BufferId → HpnlBuffer)
    (ops : List (LinkOp Host)) (h : Meets (step F) (Guard F) (init buffer) ops) :
    Always (step F) (Delivers F) (init buffer) ops :=
  (always_of_meets (fun _ _ _ hi hguard hstep => inv_step hi hguard hstep) (inv_init buffer)
    h).mono fun _ hi => hi.delivers

/-- Two services, and every connection of one with that of the same number of the other. -/
def twoHosts : Fabric Bool where
  peer := fun e => (!e.1, e.2)
  cq_index := fun _ => 0
  injective := fun _ _ h => Prod.ext (Bool.not_inj (Prod.mk.inj h).1) (Prod.mk.inj h).2

/-- A message that is sent on its completion thread, and received. -/
theorem delivered_in_order_one : Always (step twoHosts) (Delivers twoHosts)
    (init fun _ => SendWorld.smallBuffers)
    [.post true 1, .establishConnection false 0 [2], .establishConnection true 0 [3],
      .own false (.send (some 0) 0 (SendWorld.oneByte 65) 3 9 0), .arrive (false, 0) 1,
      .recv true 0] := by
  refine delivered_in_order twoHosts _ _ fun t ht => ⟨trivial, fun u hu => ⟨trivial, fun v hv =>
    ⟨trivial, fun x hx => ⟨⟨?_, ?_⟩, fun y hy => ⟨?_, fun _ _ => ⟨trivial, trivial⟩⟩⟩⟩⟩⟩
  all_goals cases ht; cases hu; cases hv
  · exact fun k _ _ _ e he => absurd he List.not_mem_nil
  · intro k hk _ b hb
    cases hk
    cases hb
    exact ⟨rfl, fun i m hm => absurd hm List.not_mem_nil, by decide +kernel⟩
  · cases hx
    exact fun p _ i m offset length hm => absurd hm List.not_mem_nil

end LinkWorld

end Hpnl
