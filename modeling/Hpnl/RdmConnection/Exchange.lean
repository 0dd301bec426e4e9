import Hpnl.RdmConnection.Encode

/-!
# Messages between RDM connections

Any number of RDM connections.  A message is encoded with the local name in front and sent to
the handle that `encode_` has found for the name of a peer; `fi_send` may read it out of the
chunk until it completes, and libfabric delivers it where that name was entered for the handle.
The receive callback decodes the name of the sender, and may
answer it (`src/src/core/RdmConnection.cc`, `src/examples/rdm/server.cc`).

* `RdmNetwork`, `RdmNetworkOp`, `step` — the connections, the sends that have not completed,
  what is on its way, and what can happen.
* `Guard` — what is sent can be encoded and is not touched until its send completes, and what is
  received is decoded to places of their own.
* `post_spec` — what `encode_` and `send` do, when the message can be encoded and the name is
  told apart from those that have been addressed before.
* `decode_spec` — what the callback reads.
* `Inv`, `inv_step` — names are kept, handles are not confused, messages are frames.
* `answered_by_name` — **a message reaches the connection that it was addressed to, where it
  is decoded to the name of the sender and the bytes that were sent; and an answer to that name
  reaches the sender**.
-/

namespace Hpnl

open Transition ByteMemory RdmConnection NamedConnection

/-- A name as `fi_getname` gives it; a peer is addressed by it. -/
abbrev PeerName := List UInt8

/-- What a call of `fi_send` was for.  `dest` is the name that libfabric has for the handle.  The
rest are ghosts: the name that was asked for, the bytes that were to be sent, and whose message
this answers. -/
structure RdmLabel (Host : Type*) where
  src : Host
  dest : Option PeerName
  peer : PeerName
  payload : List UInt8
  answers : Option Host

/-- A send that has not completed, with the bytes it has been given. -/
structure RdmSend (Host : Type*) extends RdmLabel Host where
  buffer : Addr
  size : ℕ

/-- A message on its way. -/
structure RdmPacket (Host : Type*) extends RdmLabel Host where
  bytes : List UInt8

/-- A message that has been received: what `decode_` has left where the callback wanted the name
of the sender and the message. -/
structure RdmLetter (Host : Type*) where
  peer_name : PeerName
  buffer : List UInt8
  packet : RdmPacket Host

/-- A connection with the memory of its process; `entered` are the names in its address vector,
each with its handle. -/
structure RdmHost (Host : Type*) where
  con : NamedConnection PeerName
  mem : Mem
  bytes : ByteMemory
  entered : List (PeerName × ℕ)
  inbox : List (RdmLetter Host)

structure RdmNetwork (Host : Type*) where
  host : Host → RdmHost Host
  posted : List (RdmSend Host)
  wire : List (RdmPacket Host)

inductive RdmNetworkOp (Host : Type*) where
  /-- Whatever else the process does to its memory and its chunks. -/
  | set (h : Host) (mem : Mem) (bytes : ByteMemory)
  /-- `con->encode_(ck, buffer, buffer_size, peer_name)` and `con->send(ck)`. -/
  | send (h : Host) (ck buffer : Addr) (buffer_size : Int32) (peer_name : PeerName) (inserted : ℕ)
      (accepted : Bool)
  /-- The same, with the name that was decoded from a message received. -/
  | answer (h : Host) (i : ℕ) (ck buffer : Addr) (buffer_size : Int32) (inserted : ℕ)
      (accepted : Bool)
  /-- Libfabric has read what a send was given, and the send completes. -/
  | complete (i : ℕ)
  /-- A message arrives in a chunk, and the callback decodes it. -/
  | deliver (i : ℕ) (g : Host) (rck buffer peer_name : Addr)

namespace RdmHost

variable {Host : Type*} (memcpy : Memcpy) (straddr : PeerName → List Char)

/-- The connection as a run of sends has it. -/
def world (s : RdmHost Host) : RdmWorld PeerName := ⟨s.con.toRdmConnection, s.mem, s.entered, []⟩

/-- The name under a handle. -/
def named (entered : List (PeerName × ℕ)) (addr : ℕ) : Option PeerName :=
  (entered.find? fun e => e.2 = addr).map (·.1)

/-- `encode_`, and what `send` hands to libfabric then. -/
def post (s : RdmHost Host) (h : Host) (answers : Option Host) (ck buffer : Addr)
    (buffer_size : Int32) (peer_name : PeerName) (inserted : ℕ) : RdmHost Host × RdmSend Host :=
  let after := s.con.encode_ memcpy straddr s.mem s.bytes ck buffer buffer_size peer_name inserted
  let entered :=
    if s.con.encodes (s.mem ck) buffer_size.toInt then s.world.askedAfter straddr peer_name inserted
    else s.entered
  ({ s with con := after.con, mem := after.mem, bytes := after.bytes, entered := entered },
    { src := h
      dest := named entered (after.mem ck).peer_addr
      peer := peer_name
      payload := s.bytes.read buffer buffer_size.toInt.toNat
      answers := answers
      buffer := (after.mem ck).buffer
      size := (after.mem ck).size })

/-- A message is written into a chunk, and its length entered. -/
def receive (s : RdmHost Host) (rck : Addr) (bytes : List UInt8) : RdmHost Host :=
  { s with
    mem := Function.update s.mem rck { s.mem rck with size := bytes.length }
    bytes := s.bytes.store (s.mem rck).buffer bytes }

/-- The callback decodes a message. -/
def decode (s : RdmHost Host) (p : RdmPacket Host) (rck buffer peer_name : Addr) : RdmHost Host :=
  let (calls, buffer_size) := s.con.decode_ s.mem rck buffer peer_name
  let bytes := calls.foldl (fun m call => memcpy.copy m call.dst call.src call.n) s.bytes
  { s with
    bytes := bytes
    inbox := s.inbox ++
      [{ peer_name := bytes.read peer_name s.con.local_name_len
         buffer := bytes.read buffer (buffer_size.getD 0).toNat
         packet := p }] }

end RdmHost

namespace RdmNetwork

variable {Host : Type*} [DecidableEq Host] (memcpy : Memcpy) (straddr : PeerName → List Char)

def setHost (w : RdmNetwork Host) (h : Host) (s : RdmHost Host) : RdmNetwork Host :=
  { w with host := Function.update w.host h s }

/-- The connections after `init`; a client has entered its server. -/
def start (con : Host → NamedConnection PeerName) (mem : Host → Mem) (bytes : Host → ByteMemory)
    (inserted : Host → ℕ) : RdmNetwork Host :=
  { host := fun h =>
      let w := RdmWorld.start straddr (con h).toRdmConnection (mem h) (inserted h)
      { con := { con h with address_map := w.con.address_map }
        mem := mem h
        bytes := bytes h
        entered := w.asked
        inbox := [] }
    posted := []
    wire := [] }

/-- `encode_` and `send`.  `fi_av_insert` answers different peers with different handles; a
message that `fi_send` refuses is gone. -/
def post (w : RdmNetwork Host) (h : Host) (answers : Option Host) (ck buffer : Addr)
    (buffer_size : Int32) (peer_name : PeerName) (inserted : ℕ) (accepted : Bool) :
    Option (RdmNetwork Host) :=
  if ck ≠ nullptr ∧ (w.host h).world.cache.Answers (tmp straddr) peer_name inserted then
    let (s, p) :=
      (w.host h).post memcpy straddr h answers ck buffer buffer_size peer_name inserted
    some { w.setHost h s with posted := if accepted then w.posted ++ [p] else w.posted }
  else none

/-- One step. -/
def step (w : RdmNetwork Host) : RdmNetworkOp Host → Option (RdmNetwork Host)
  | .set h mem bytes => some (w.setHost h { w.host h with mem := mem, bytes := bytes })
  | .send h ck buffer buffer_size peer_name inserted accepted =>
      w.post memcpy straddr h none ck buffer buffer_size peer_name inserted accepted
  | .answer h i ck buffer buffer_size inserted accepted =>
      match (w.host h).inbox[i]? with
      | none => none
      | some l =>
          w.post memcpy straddr h (some l.packet.src) ck buffer buffer_size l.peer_name inserted
            accepted
  | .complete i =>
      match w.posted[i]? with
      | none => none
      | some p =>
          some { w with
            posted := w.posted.eraseIdx i
            wire := w.wire ++ [⟨p.toRdmLabel, (w.host p.src).bytes.read p.buffer p.size⟩] }
  | .deliver i g rck buffer peer_name =>
      match w.wire[i]? with
      | none => none
      | some p =>
          if p.dest = some (w.host g).con.name ∧ p.bytes.length ≤ ((w.host g).mem rck).capacity then
            let s := ((w.host g).receive rck p.bytes).decode memcpy p rck buffer peer_name
            some { w.setHost g s with wire := w.wire.eraseIdx i }
          else none

/-- The message can be encoded, and the peer agrees in its first 31 characters with no other
peer addressed before. -/
def CanPost (w : RdmNetwork Host) (h : Host) (ck buffer : Addr) (buffer_size : Int32)
    (peer_name : PeerName) : Prop :=
  (w.host h).con.FitsChunk (w.host h).mem ck buffer_size ∧
    (w.host h).con.SourceKept (w.host h).mem (w.host h).bytes ck buffer buffer_size ∧
    (w.host h).world.cache.Separated (tmp straddr) peer_name

instance (w : RdmNetwork Host) (h : Host) (ck buffer : Addr) (buffer_size : Int32)
    (peer_name : PeerName) : Decidable (w.CanPost straddr h ck buffer buffer_size peer_name) :=
  inferInstanceAs (Decidable ((_ ∧ _) ∧ (Apart _ _ _ ∧ _) ∧ ∀ _ ∈ _, _ = _ → _ = _))

/-- The callback has the message decoded to places of their own. -/
def CanDecode (w : RdmNetwork Host) (p : RdmPacket Host) (g : Host) (rck buffer peer_name : Addr) :
    Prop :=
  let con := (w.host g).con
  let src := ((w.host g).mem rck).buffer
  let n := p.bytes.length - con.local_name_len
  (buffer ≠ nullptr ∧ peer_name ≠ nullptr) ∧
    Beside peer_name con.local_name_len src p.bytes.length ∧
    Beside buffer n src p.bytes.length ∧ Beside buffer n peer_name con.local_name_len

instance (w : RdmNetwork Host) (p : RdmPacket Host) (g : Host) (rck buffer peer_name : Addr) :
    Decidable (w.CanDecode p g rck buffer peer_name) :=
  inferInstanceAs (Decidable ((_ ∧ _) ∧ _ ∧ _ ∧ _))

/-- What the sends of a connection were given is as it was. -/
def Untouched (w : RdmNetwork Host) (h : Host) (bytes : ByteMemory) : Prop :=
  ∀ p ∈ w.posted, p.src = h →
    bytes.read p.buffer p.size = (w.host h).bytes.read p.buffer p.size

instance (w : RdmNetwork Host) (h : Host) (bytes : ByteMemory) : Decidable (w.Untouched h bytes) :=
  inferInstanceAs (Decidable (∀ _ ∈ _, _ = _ → _ = _))

/-- `encode_` is for a chunk that is in no send. -/
def ChunkFree (w : RdmNetwork Host) (h : Host) (ck buffer : Addr) (buffer_size : Int32)
    (peer_name : PeerName) (inserted : ℕ) : Prop :=
  w.Untouched h
    ((w.host h).post memcpy straddr h none ck buffer buffer_size peer_name inserted).1.bytes

instance (w : RdmNetwork Host) (h : Host) (ck buffer : Addr) (buffer_size : Int32)
    (peer_name : PeerName) (inserted : ℕ) :
    Decidable (w.ChunkFree memcpy straddr h ck buffer buffer_size peer_name inserted) :=
  inferInstanceAs (Decidable (w.Untouched ..))

/-- **The condition** on a step. -/
def Guard (w : RdmNetwork Host) : RdmNetworkOp Host → Prop
  | .set h _ bytes => w.Untouched h bytes
  | .send h ck buffer buffer_size peer_name inserted _ =>
      w.CanPost straddr h ck buffer buffer_size peer_name ∧
        w.ChunkFree memcpy straddr h ck buffer buffer_size peer_name inserted
  | .answer h i ck buffer buffer_size inserted _ => ∀ l ∈ (w.host h).inbox[i]?,
      w.CanPost straddr h ck buffer buffer_size l.peer_name ∧
        w.ChunkFree memcpy straddr h ck buffer buffer_size l.peer_name inserted
  | .complete _ => True
  | .deliver i g rck buffer peer_name => ∀ p ∈ w.wire[i]?, w.CanDecode p g rck buffer peer_name ∧
      w.Untouched g
        (((w.host g).receive rck p.bytes).decode memcpy p rck buffer peer_name).bytes

instance (w : RdmNetwork Host) : (op : RdmNetworkOp Host) → Decidable (w.Guard memcpy straddr op)
  | .set _ _ _ => inferInstanceAs (Decidable (w.Untouched ..))
  | .send _ _ _ _ _ _ _ => inferInstanceAs (Decidable (w.CanPost .. ∧ w.ChunkFree ..))
  | .answer _ _ _ _ _ _ _ => inferInstanceAs (Decidable (∀ _ ∈ _, _ ∧ _))
  | .complete _ => isTrue trivial
  | .deliver _ _ _ _ _ => inferInstanceAs (Decidable (∀ _ ∈ _, _ ∧ _))

/-- A message that `g` received was addressed to `g` and is decoded to what was sent; if it is
an answer, then to a message from `g`. -/
def ReceivedAt (con : Host → NamedConnection PeerName) (g : Host) (l : RdmLetter Host) : Prop :=
  (l.peer_name = (con l.packet.src).name ∧ l.buffer = l.packet.payload) ∧
    l.packet.peer = (con g).name ∧ ∀ h, l.packet.answers = some h → h = g

/-- So it is with every message that was received. -/
def AnsweredByName (con : Host → NamedConnection PeerName) (w : RdmNetwork Host) : Prop :=
  ∀ g, ∀ l ∈ (w.host g).inbox, ReceivedAt con g l

/-! ## A message that is sent -/

end RdmNetwork

namespace RdmHost

variable {Host : Type*} {memcpy : Memcpy} {straddr : PeerName → List Char} {s : RdmHost Host}
  {h : Host} {answers : Option Host} {ck buffer : Addr} {buffer_size : Int32} {peer : PeerName}
  {inserted : ℕ}

/-- The frame that `encode_` makes of a message, and its size. -/
theorem frame_encode_ (hfits : s.con.FitsChunk s.mem ck buffer_size)
    (hkept : s.con.SourceKept s.mem s.bytes ck buffer buffer_size) :
    let after := s.con.encode_ memcpy straddr s.mem s.bytes ck buffer buffer_size peer inserted
    after.bytes.read (s.mem ck).buffer (s.con.local_name_len + buffer_size.toInt.toNat) =
        s.con.name ++ s.bytes.read buffer buffer_size.toInt.toNat ∧
      (after.mem ck).size = s.con.local_name_len + buffer_size.toInt.toNat := by
  intro after
  obtain ⟨hapart, hkept⟩ := hkept
  have hbytes : after.bytes = _ := NamedConnection.bytes_encode_ hfits
  have hsize : ((after.mem ck).size : ℤ) = _ := NamedConnection.size_encode_ hfits
  have h0 := hfits.1
  constructor
  · have hname := read_store s.bytes (s.mem ck).buffer s.con.name
    rw [NamedConnection.length_name] at hname
    have hread := read_store (s.bytes.store (s.mem ck).buffer s.con.name)
      ((s.mem ck).buffer + s.con.local_name_len) (s.bytes.read buffer buffer_size.toInt.toNat)
    rw [length_read] at hread
    rw [hbytes, Memcpy.copy_of_apart _ _ _ _ _ hapart, read_store_iff.mpr hkept, read_add,
      read_store_of_lt le_rfl, hname, hread]
  · omega

/-- What `encode_` does to the connection and to the header of the chunk. -/
theorem header_encode_ (hfits : s.con.FitsChunk s.mem ck buffer_size) :
    let after := s.con.encode_ memcpy straddr s.mem s.bytes ck buffer buffer_size peer inserted
    after.con.toRdmConnection = (s.con.resolve straddr peer inserted).1 ∧
      (after.mem ck).peer_addr = (s.con.resolve straddr peer inserted).2 := by
  intro after
  have hheader : (after.con.toRdmConnection, after.mem) =
      s.con.toRdmConnection.encode_ straddr s.mem ck buffer_size.toInt peer inserted :=
    NamedConnection.encode_header
  obtain ⟨hcon, hmem⟩ := Prod.mk.inj hheader
  obtain ⟨hcon', haddr⟩ : (s.con.toRdmConnection.encode_ straddr s.mem ck buffer_size.toInt peer
      inserted).1 = _ ∧ _ = _ :=
    RdmConnection.encode_of_fits (NamedConnection.encodes_of_fits hfits) peer inserted
  exact ⟨hcon.trans hcon', (congrArg (fun m => (m ck).peer_addr) hmem).trans haddr⟩

/-- The name stays, and the chunk keeps its buffer. -/
theorem kept_encode_ :
    let after := s.con.encode_ memcpy straddr s.mem s.bytes ck buffer buffer_size peer inserted
    after.con.name = s.con.name ∧ after.con.local_name_len = s.con.local_name_len ∧
      (after.mem ck).buffer = (s.mem ck).buffer := by
  intro after
  have hafter : after = s.con.encode_ memcpy straddr s.mem s.bytes ck buffer buffer_size peer
    inserted := rfl
  by_cases hshort : (s.mem ck).capacity < s.con.local_name_len
  · rw [hafter, NamedConnection.encode_of_short hshort]
    refine ⟨rfl, rfl, ?_⟩
    show (s.con.taken s.mem ck ck).buffer = _
    rw [NamedConnection.taken_self]
  by_cases hfull : (s.mem ck).capacity - s.con.local_name_len <
      MachineInt.toUInt64 buffer_size.toInt
  · rw [hafter, NamedConnection.encode_of_full (Nat.not_lt.mp hshort) hfull]
    refine ⟨rfl, rfl, ?_⟩
    show (s.con.taken s.mem ck ck).buffer = _
    rw [NamedConnection.taken_self]
  · simp only [hafter, NamedConnection.encode_, NamedConnection.taken_self]
    rw [if_neg hshort, if_neg hfull]
    exact ⟨rfl, rfl, by simp⟩

/-- The name that is found under a handle. -/
theorem named_eq {entered : List (PeerName × ℕ)} {addr : ℕ}
    (hmem : (peer, addr) ∈ entered)
    (hunique : ∀ d ∈ entered, ∀ e ∈ entered, d.2 = e.2 → d.1 = e.1) :
    named entered addr = some peer := by
  unfold named
  cases hfind : entered.find? fun e => e.2 = addr with
  | none =>
    have hno := List.find?_eq_none.mp hfind _ hmem
    simp at hno
  | some e =>
    have he : e.2 = addr := by simpa using List.find?_some hfind
    have hpeer := hunique e (List.mem_of_find?_eq_some hfind) _ hmem he
    simp [hpeer]

/-- **What `encode_` and `send` do** with a message that can be encoded, for a peer that is told
apart: the frame is given to a send for the name of the peer. -/
theorem post_spec (hcache : s.world.cache.Inv (tmp straddr))
    (hanswers : s.world.cache.Answers (tmp straddr) peer inserted)
    (hfits : s.con.FitsChunk s.mem ck buffer_size)
    (hkept : s.con.SourceKept s.mem s.bytes ck buffer buffer_size)
    (hseparated : s.world.cache.Separated (tmp straddr) peer) :
    let after := s.post memcpy straddr h answers ck buffer buffer_size peer inserted
    after.1.world.cache.Inv (tmp straddr) ∧ after.1.con.name = s.con.name ∧
      after.1.con.local_name_len = s.con.local_name_len ∧ after.1.inbox = s.inbox ∧
      after.2.toRdmLabel = ⟨h, some peer, peer, s.bytes.read buffer buffer_size.toInt.toNat,
        answers⟩ ∧
      after.1.bytes.read after.2.buffer after.2.size =
        s.con.name ++ s.bytes.read buffer buffer_size.toInt.toNat := by
  intro after
  let encoded := s.con.encode_ memcpy straddr s.mem s.bytes ck buffer buffer_size peer inserted
  obtain ⟨hframe, hsize⟩ : encoded.bytes.read _ _ = _ ∧ _ = _ := frame_encode_ hfits hkept
  obtain ⟨hcon, haddr⟩ : encoded.con.toRdmConnection = _ ∧ _ = _ := header_encode_ hfits
  obtain ⟨hname, hlen, hbuffer⟩ : encoded.con.name = _ ∧ _ = _ ∧ _ = _ := kept_encode_
  have hinv := KeyedCache.inv_resolve hcache hanswers hseparated
  rw [RdmWorld.resolve_cache] at hinv
  have hentered : after.1.entered = s.world.askedAfter straddr peer inserted :=
    if_pos (NamedConnection.encodes_of_fits hfits)
  have hmap : after.1.con.address_map = (s.con.resolve straddr peer inserted).1.address_map :=
    congrArg RdmConnection.address_map hcon
  refine ⟨?_, hname, hlen, rfl, ?_, ?_⟩
  · have hcache' : after.1.world.cache = ⟨(s.con.resolve straddr peer inserted).1.address_map,
        s.world.askedAfter straddr peer inserted, []⟩ := by
      rw [← hmap, ← hentered]
      rfl
    rw [hcache']
    exact hinv.forget
  · have hpeer : named after.1.entered (encoded.mem ck).peer_addr = some peer := by
      rw [haddr, hentered]
      apply named_eq
      · exact hinv.used_asked _ List.mem_cons_self
      · exact hinv.answers
    show (⟨h, named after.1.entered (encoded.mem ck).peer_addr, peer, _, answers⟩ :
      RdmLabel Host) = _
    rw [hpeer]
  · show encoded.bytes.read (encoded.mem ck).buffer (encoded.mem ck).size = _
    rw [hbuffer, hsize, hframe]

/-! ## A message that is received -/

/-- The length of the message, as `decode_` derives it. -/
theorem size_decode {n len : ℕ} (hn : n < 2 ^ 31) :
    MachineInt.toInt32 (MachineInt.toUInt64 ((len + n : ℕ) - len : ℤ)) = n := by
  rw [Nat.cast_add, add_sub_cancel_left, MachineInt.toInt32_toUInt64]
  exact MachineInt.toInt32_eq_self (by omega) (by omega)

/-- Two copies that take a message apart. -/
theorem copies_eq (memcpy : Memcpy) {m : ByteMemory} {src a b : ℕ} {name payload : List UInt8}
    (hread : m.read src (name.length + payload.length) = name ++ payload)
    (ha : Beside a name.length src (name.length + payload.length))
    (hb : Beside b payload.length src (name.length + payload.length)) :
    memcpy.copy (memcpy.copy m a src name.length) b (src + name.length) payload.length =
      (m.store a name).store b payload := by
  rw [read_add] at hread
  obtain ⟨hname, hpayload⟩ := List.append_inj hread (length_read ..)
  have hapart : Apart a src name.length := by
    unfold Beside at ha
    unfold Apart
    omega
  have hapart' : Apart b (src + name.length) payload.length := by
    unfold Beside at hb
    unfold Apart
    omega
  have hkept : Beside a name.length (src + name.length) payload.length := by
    unfold Beside at ha ⊢
    omega
  rw [Memcpy.copy_of_apart _ _ _ _ _ hapart, hname, Memcpy.copy_of_apart _ _ _ _ _ hapart',
    read_store_of_beside hkept, hpayload]

/-- **What the callback reads**, after a message was decoded to places of their own. -/
theorem decode_spec {p : RdmPacket Host} {rck peer_name : Addr} {name payload : List UInt8}
    (hp : p.bytes = name ++ payload) (hname : name.length = s.con.local_name_len)
    (hpayload : payload.length < 2 ^ 31) (hnull : buffer ≠ nullptr ∧ peer_name ≠ nullptr)
    (hpeer : Beside peer_name name.length (s.mem rck).buffer p.bytes.length)
    (hbuffer : Beside buffer payload.length (s.mem rck).buffer p.bytes.length)
    (hbeside : Beside buffer payload.length peer_name name.length) :
    ((s.receive rck p.bytes).decode memcpy p rck buffer peer_name).inbox =
      s.inbox ++ [⟨name, payload, p⟩] := by
  have hlen : p.bytes.length = name.length + payload.length := by
    rw [hp, List.length_append]
  rw [hlen] at hpeer hbuffer
  have hread := read_store s.bytes (s.mem rck).buffer p.bytes
  rw [hlen, hp] at hread
  have hcopies := copies_eq memcpy hread hpeer hbuffer
  have hsize : ((s.receive rck p.bytes).mem rck).size = s.con.local_name_len + payload.length := by
    rw [← hname, ← hlen]
    simp [receive]
  have hsrc : ((s.receive rck p.bytes).mem rck).buffer = (s.mem rck).buffer := by
    simp [receive]
  have hcalls : (s.receive rck p.bytes).con.decode_ (s.receive rck p.bytes).mem rck buffer
      peer_name = (([⟨peer_name, (s.mem rck).buffer, name.length⟩,
        ⟨buffer, (s.mem rck).buffer + name.length, payload.length⟩], some payload.length) :
          List NamedConnection.MemcpyCall × Option ℤ) := by
    have hself := MachineInt.toUInt64_eq_self (x := payload.length) (by omega)
    rw [NamedConnection.decode_of_ne hnull.1, NamedConnection.nameCalls, if_neg hnull.2, hsize,
      hsrc, show (s.receive rck p.bytes).con = s.con from rfl, size_decode hpayload, hself, hname]
    rfl
  let m := s.bytes.store (s.mem rck).buffer (name ++ payload)
  have hreceived : (s.receive rck p.bytes).bytes = m := by
    show s.bytes.store _ p.bytes = _
    rw [hp]
  have hbytes : ((m.store peer_name name).store buffer payload).read buffer payload.length =
      payload := read_store ..
  have hread_name : ((m.store peer_name name).store buffer payload).read peer_name
      s.con.local_name_len = name := by
    rw [← hname, read_store_of_beside hbeside, read_store]
  simp only [decode, hcalls, List.foldl_cons, List.foldl_nil, Option.getD_some, Int.toNat_natCast]
  rw [hreceived, hcopies, hbytes, show (s.receive rck p.bytes).con = s.con from rfl, hread_name]
  rfl

end RdmHost

namespace RdmNetwork

variable {Host : Type*} {memcpy : Memcpy} {straddr : PeerName → List Char}
  {con : Host → NamedConnection PeerName}

/-! ## The invariant -/

/-- A message goes where it is meant to, an answer to the name of whom it answers. -/
structure Sent (con : Host → NamedConnection PeerName) (p : RdmLabel Host) (bytes : List UInt8) :
    Prop where
  dest : p.dest = some p.peer
  bytes : bytes = (con p.src).name ++ p.payload
  short : p.payload.length < 2 ^ 31
  answers : ∀ h, p.answers = some h → p.peer = (con h).name

/-- A connection keeps its name, and what it looks up is what it has entered. -/
structure HostInv (straddr : PeerName → List Char) (con : Host → NamedConnection PeerName)
    (g : Host) (s : RdmHost Host) : Prop where
  name : s.con.name = (con g).name
  length : s.con.local_name_len = (con g).local_name_len
  cache : s.world.cache.Inv (tmp straddr)
  inbox : ∀ l ∈ s.inbox, ReceivedAt con g l

structure Inv (straddr : PeerName → List Char) (con : Host → NamedConnection PeerName)
    (w : RdmNetwork Host) : Prop where
  host : ∀ g, HostInv straddr con g (w.host g)
  posted : ∀ p ∈ w.posted, Sent con p.toRdmLabel ((w.host p.src).bytes.read p.buffer p.size)
  wire : ∀ p ∈ w.wire, Sent con p.toRdmLabel p.bytes

theorem inv_start (mem : Host → Mem) (bytes : Host → ByteMemory) (inserted : Host → ℕ) :
    Inv straddr con (start straddr con mem bytes inserted) := by
  constructor
  · intro g
    have hcache : (RdmWorld.start straddr (con g).toRdmConnection (mem g) (inserted g)).cache.Inv
      (tmp straddr) := RdmWorld.inv_start ..
    exact ⟨rfl, rfl, hcache.forget, fun l hl => absurd hl List.not_mem_nil⟩
  · intro p hp
    exact absurd hp List.not_mem_nil
  · intro p hp
    exact absurd hp List.not_mem_nil

/-- A connection that a step has changed, but for what its sends were given. -/
theorem Inv.setHost [DecidableEq Host] {w : RdmNetwork Host} {g : Host} {s : RdmHost Host}
    (hw : Inv straddr con w) (hs : HostInv straddr con g s) (hkept : w.Untouched g s.bytes) :
    Inv straddr con (w.setHost g s) := by
  refine ⟨?_, fun p hp => ?_, hw.wire⟩
  · apply (Function.forall_update_iff w.host fun g s => HostInv straddr con g s).mpr
    exact ⟨hs, fun h _ => hw.host h⟩
  · have hsent := hw.posted p hp
    show Sent con p.toRdmLabel ((Function.update w.host g s p.src).bytes.read p.buffer p.size)
    by_cases hsrc : p.src = g
    · rw [hsrc, Function.update_self, hkept p hp hsrc, ← hsrc]
      exact hsent
    · rw [Function.update_of_ne hsrc]
      exact hsent

/-- A message that is encoded and sent, the answer to a message at hand or none. -/
theorem inv_post [DecidableEq Host] {w t : RdmNetwork Host} {h : Host} {answers : Option Host}
    {ck buffer : Addr} {buffer_size : Int32} {peer : PeerName} {inserted : ℕ} {accepted : Bool}
    (hw : Inv straddr con w)
    (hpost : w.post memcpy straddr h answers ck buffer buffer_size peer inserted accepted = some t)
    (hcan : w.CanPost straddr h ck buffer buffer_size peer)
    (hfree : w.ChunkFree memcpy straddr h ck buffer buffer_size peer inserted)
    (hanswers : ∀ r, answers = some r → peer = (con r).name) : Inv straddr con t := by
  unfold post at hpost
  split at hpost
  swap
  · simp at hpost
  rename_i hasked
  rw [Option.some.injEq] at hpost
  obtain ⟨hfits, hkept, hseparated⟩ := hcan
  have hh := hw.host h
  let after := (w.host h).post memcpy straddr h answers ck buffer buffer_size peer inserted
  obtain ⟨hcache, hname, hlen, hinbox, hlabel, hbytes⟩ : after.1.world.cache.Inv _ ∧ _ ∧ _ ∧ _ ∧
      _ ∧ _ :=
    RdmHost.post_spec hh.cache hasked.2 hfits hkept hseparated
  have hset : Inv straddr con (w.setHost h after.1) := by
    refine hw.setHost ⟨hname.trans hh.name, hlen.trans hh.length, hcache, ?_⟩ hfree
    rw [hinbox]
    exact hh.inbox
  have hsent : Sent con after.2.toRdmLabel
      (((w.setHost h after.1).host after.2.src).bytes.read after.2.buffer after.2.size) := by
    have hself : (w.setHost h after.1).host after.2.src = after.1 := Function.update_self ..
    rw [hself, hbytes, hlabel]
    have hlt := buffer_size.toInt_lt
    refine ⟨rfl, ?_, ?_, hanswers⟩
    · rw [hh.name]
    · rw [length_read]
      omega
  subst hpost
  refine ⟨hset.host, fun p hp => ?_, hset.wire⟩
  replace hp : p ∈ if accepted then w.posted ++ [after.2] else w.posted := hp
  split at hp
  · rcases List.mem_append.mp hp with hp | hp
    · exact hset.posted p hp
    · rw [List.mem_singleton] at hp
      exact hp ▸ hsent
  · exact hset.posted p hp

/-- A send completes. -/
theorem inv_complete [DecidableEq Host] {w : RdmNetwork Host} {i : ℕ} {p : RdmSend Host}
    (hw : Inv straddr con w) (hp : w.posted[i]? = some p) :
    Inv straddr con { w with
      posted := w.posted.eraseIdx i
      wire := w.wire ++ [⟨p.toRdmLabel, (w.host p.src).bytes.read p.buffer p.size⟩] } := by
  refine ⟨hw.host, fun q hq => hw.posted q (List.mem_of_mem_eraseIdx hq), fun q hq => ?_⟩
  rcases List.mem_append.mp hq with hq | hq
  · exact hw.wire q hq
  · rw [List.mem_singleton] at hq
    subst hq
    exact hw.posted p (List.mem_of_getElem? hp)

/-- A message that arrives. -/
theorem inv_deliver [DecidableEq Host] (hinj : Function.Injective fun g => (con g).name)
    (hlen : ∀ g h, (con g).local_name_len = (con h).local_name_len) {w : RdmNetwork Host} {i : ℕ}
    {p : RdmPacket Host} {g : Host} {rck buffer peer_name : Addr} (hw : Inv straddr con w)
    (hp : w.wire[i]? = some p) (hdest : p.dest = some (w.host g).con.name)
    (hcan : w.CanDecode p g rck buffer peer_name) (hkept : w.Untouched g
      (((w.host g).receive rck p.bytes).decode memcpy p rck buffer peer_name).bytes) :
    Inv straddr con { w.setHost g (((w.host g).receive rck p.bytes).decode memcpy p rck buffer
      peer_name) with wire := w.wire.eraseIdx i } := by
  have hh := hw.host g
  obtain ⟨hdest', hbytes, hshort, hanswers⟩ := hw.wire p (List.mem_of_getElem? hp)
  obtain ⟨hnull, hname, hbuffer, hbeside⟩ := hcan
  have hpeer : p.peer = (con g).name := by
    rw [hdest', Option.some.injEq] at hdest
    exact hdest.trans hh.name
  have hlocal : (con p.src).name.length = (w.host g).con.local_name_len := by
    rw [NamedConnection.length_name, hh.length]
    exact hlen _ _
  have hpayload : p.bytes.length - (w.host g).con.local_name_len = p.payload.length := by
    rw [hbytes, List.length_append, hlocal, Nat.add_sub_cancel_left]
  rw [hpayload] at hbuffer hbeside
  rw [← hlocal] at hname hbeside
  have hinbox : (((w.host g).receive rck p.bytes).decode memcpy p rck buffer peer_name).inbox = _ :=
    RdmHost.decode_spec hbytes hlocal hshort hnull hname hbuffer hbeside
  have hset : Inv straddr con (w.setHost g (((w.host g).receive rck p.bytes).decode memcpy p rck
      buffer peer_name)) := by
    refine hw.setHost ⟨hh.name, hh.length, hh.cache, ?_⟩ hkept
    rw [hinbox]
    intro l hl
    rcases List.mem_append.mp hl with hl | hl
    · exact hh.inbox l hl
    · rw [List.mem_singleton] at hl
      subst hl
      refine ⟨⟨rfl, rfl⟩, hpeer, ?_⟩
      intro h hanswer
      exact hinj ((hanswers h hanswer).symm.trans hpeer)
  exact ⟨hset.host, hset.posted, fun q hq => hset.wire q (List.mem_of_mem_eraseIdx hq)⟩

/-- **One step.** -/
theorem inv_step [DecidableEq Host] (hinj : Function.Injective fun g => (con g).name)
    (hlen : ∀ g h, (con g).local_name_len = (con h).local_name_len) {w t : RdmNetwork Host}
    {op : RdmNetworkOp Host} (hw : Inv straddr con w) (hguard : w.Guard memcpy straddr op)
    (hstep : w.step memcpy straddr op = some t) : Inv straddr con t := by
  cases op with
  | set h mem bytes =>
    rw [step, Option.some.injEq] at hstep
    have hh := hw.host h
    subst hstep
    exact hw.setHost ⟨hh.name, hh.length, hh.cache, hh.inbox⟩ hguard
  | send h ck buffer buffer_size peer_name inserted accepted =>
    exact inv_post hw hstep hguard.1 hguard.2 (by simp)
  | answer h i ck buffer buffer_size inserted accepted =>
    rw [step] at hstep
    cases hl : (w.host h).inbox[i]? with
    | none => simp [hl] at hstep
    | some l =>
      simp only [hl] at hstep
      apply inv_post hw hstep (hguard l hl).1 (hguard l hl).2
      -- the name that was decoded is that of the sender
      intro r hr
      rw [Option.some.injEq] at hr
      rw [← hr]
      exact ((hw.host h).inbox l (List.mem_of_getElem? hl)).1.1
  | complete i =>
    rw [step] at hstep
    cases hp : w.posted[i]? with
    | none => simp [hp] at hstep
    | some p =>
      simp only [hp, Option.some.injEq] at hstep
      subst hstep
      exact inv_complete hw hp
  | deliver i g rck buffer peer_name =>
    rw [step] at hstep
    cases hp : w.wire[i]? with
    | none => simp [hp] at hstep
    | some p =>
      simp only [hp] at hstep
      split at hstep
      · rename_i hdest
        rw [Option.some.injEq] at hstep
        subst hstep
        obtain ⟨hcan, hkept⟩ := hguard p hp
        exact inv_deliver hinj hlen hw hp hdest.1 hcan hkept
      · simp at hstep

/-- **Names are enough to find the way.**  Take RDM connections with different names of one
length.  As long as every message that is sent fits and lies where `encode_` does not change it
first, is not touched until its send completes, and is for a peer that agrees in the first 31
characters with no other peer addressed before from there, and every message received is decoded
to places of their own, with room for it there: every message
received was sent to its receiver, is decoded to the name of its sender and the bytes that were
sent, and every answer reaches the sender of the message that it answers. -/
theorem answered_by_name [DecidableEq Host] (memcpy : Memcpy) (straddr : PeerName → List Char)
    (con : Host → NamedConnection PeerName) (mem : Host → Mem) (bytes : Host → ByteMemory)
    (inserted : Host → ℕ) (hinj : Function.Injective fun g => (con g).name)
    (hlen : ∀ g h, (con g).local_name_len = (con h).local_name_len)
    (ops : List (RdmNetworkOp Host))
    (hguard : Meets (step memcpy straddr) (Guard memcpy straddr)
      (start straddr con mem bytes inserted) ops) :
    Always (step memcpy straddr) (AnsweredByName con) (start straddr con mem bytes inserted)
      ops := by
  have hinv : Always (step memcpy straddr) (Inv straddr con) (start straddr con mem bytes inserted)
      ops := by
    apply always_of_meets _ (inv_start mem bytes inserted) hguard
    intro w op t hw hg hstep
    exact inv_step hinj hlen hw hg hstep
  exact hinv.mono fun w hw g => (hw.host g).inbox

theorem four_le : 4 ≤ 64 := by decide

/-- Two connections, `AAAA` and `BBBB`. -/
def fourLetters (b : Bool) : NamedConnection PeerName :=
  { self := 1
    is_server := true
    dest_addr := []
    local_name_len := 4
    address_map := ∅
    send_chunks_map := ∅
    local_name := List.replicate 64 (bif b then 66 else 65)
    length_local_name := List.length_replicate
    local_name_len_le := four_le }

/-- `AAAA` writes to `BBBB`, which answers, and writes again when the send has completed. -/
def pingPong : List (RdmNetworkOp Bool) :=
  [.send false 500 2000 2 [66, 66, 66, 66] 7 true, .complete 0, .deliver 0 true 600 3000 4000,
    .answer true 0 500 2000 2 3 true, .send false 500 2000 2 [66, 66, 66, 66] 7 true, .complete 0,
    .complete 0, .deliver 0 false 600 3000 4000]

theorem answered_by_name_pingPong :
    let straddr : PeerName → List Char := List.map fun b => Char.ofNat b.toNat
    let w := start straddr fourLetters (fun _ => sixteenAt) (fun _ _ => 9) (fun _ => 0)
    (run (step Memcpy.memmove straddr) w pingPong).map (fun t => (t.host false).inbox.map
        fun l => (l.peer_name, l.packet.answers)) = some [([66, 66, 66, 66], some false)] ∧
      Always (step Memcpy.memmove straddr) (AnsweredByName fourLetters) w pingPong := by
  intro straddr w
  have hguard : Meets (step Memcpy.memmove straddr) (Guard Memcpy.memmove straddr) w pingPong := by
    decide +kernel
  have hinj : Function.Injective fun b => (fourLetters b).name := by decide
  exact ⟨by decide +kernel,
    answered_by_name Memcpy.memmove straddr fourLetters _ _ _ hinj (by decide) _ hguard⟩

end RdmNetwork

end Hpnl
