import Hpnl.RdmConnection.Addresses
import Hpnl.RdmConnection.Frame
import Hpnl.Lib.ByteMemory

/-!
# `encode_` and `decode_` in memory

`RdmConnection::encode_` on a chunk in memory: it files the chunk's connection and
context, copies the local name, then the message, and enters size and address last;
it returns without a word when name or message do not fit.  The message may lie
anywhere, also in the chunk itself.

* `encode_`, `decode_` — the code; `encode_header` — on the header it is
  `RdmConnection.encode_`; `encode_frame`, `decode_frame` — on the bytes of the chunk they are
  those of `LocalName`.
* `encodes_message_iff` — **a message that fits is encoded if and only if it neither
  overlaps the place it goes to nor changes when the name is written**.
* `leaves_alone_iff` — **a chunk that is too small stays as it was if and only if
  `encode_` has been there before**.
* `stays_within_iff` — **what `decode_` copies has been received if and only if the
  message is at least as long as the local name**.
-/

namespace Hpnl

open MachineInt ByteMemory

/-- An `RdmConnection` with `char local_name[64]` as `fi_getname` leaves it. -/
structure NamedConnection (P : Type*) extends RdmConnection P where
  local_name : List UInt8
  length_local_name : local_name.length = 64
  local_name_len_le : local_name_len ≤ 64

namespace NamedConnection

variable {P : Type*}

/-- The local name. -/
def name (con : NamedConnection P) : List UInt8 := con.local_name.take con.local_name_len

@[simp] theorem length_name (con : NamedConnection P) : con.name.length = con.local_name_len := by
  rw [name, List.length_take, con.length_local_name]
  exact min_eq_left con.local_name_len_le

/-! ## The code -/

section Encode

variable (memcpy : Memcpy) (straddr : P → List Char)

/-- The first two lines of `encode_`. -/
def taken (con : NamedConnection P) (mem : Mem) (ck : Addr) : Mem :=
  Function.update mem ck { mem ck with ctx4 := ck, con := con.self }

@[simp] theorem taken_self (con : NamedConnection P) (mem : Mem) (ck : Addr) :
    con.taken mem ck ck = { mem ck with ctx4 := ck, con := con.self } :=
  Function.update_self ..

/-- What `encode_` leaves behind. -/
structure Encoded (P : Type*) where
  con : NamedConnection P
  mem : Mem
  bytes : ByteMemory

/-- `encode_`.  `buffer_size` is compared with the rest of the capacity as a
`uint64_t`. -/
def encode_ (con : NamedConnection P) (mem : Mem) (bytes : ByteMemory) (ck buffer : Addr)
    (buffer_size : Int32) (peer_name : P) (inserted : ℕ) : Encoded P :=
  let mem := con.taken mem ck
  if (mem ck).capacity < con.local_name_len then ⟨con, mem, bytes⟩
  else
    let bytes := bytes.store (mem ck).buffer con.name
    if (mem ck).capacity - con.local_name_len < toUInt64 buffer_size.toInt then ⟨con, mem, bytes⟩
    else
      let bytes := memcpy.copy bytes ((mem ck).buffer + con.local_name_len) buffer
        (toUInt64 buffer_size.toInt)
      let mem := Function.update mem ck
        { mem ck with size := toUInt64 (buffer_size.toInt + con.local_name_len) }
      let (con', addr) := con.resolve straddr peer_name inserted
      { con := { con with address_map := con'.address_map }
        mem := Function.update mem ck { mem ck with peer_addr := addr }
        bytes := bytes }

/-- What `send(Chunk*)` hands to libfabric: the bytes and the address. -/
def transmits (mem : Mem) (bytes : ByteMemory) (ck : Addr) : List UInt8 × ℕ :=
  (bytes.read (mem ck).buffer (mem ck).size, (mem ck).peer_addr)

end Encode

/-- A call of `memcpy`. -/
structure MemcpyCall where
  dst : Addr
  src : Addr
  n : ℕ
  deriving DecidableEq, Repr

/-- `decode_`: its copies, in order, and what it assigns to `*buffer_size`. -/
def decode_ (con : NamedConnection P) (mem : Mem) (ck buffer peer_name : Addr) :
    List MemcpyCall × Option ℤ :=
  let named :=
    if peer_name = nullptr then [] else [⟨peer_name, (mem ck).buffer, con.local_name_len⟩]
  if buffer = nullptr then (named, none)
  else
    let buffer_size := toInt32 (toUInt64 ((mem ck).size - con.local_name_len : ℤ))
    (named ++ [⟨buffer, (mem ck).buffer + con.local_name_len, toUInt64 buffer_size⟩],
      some buffer_size)

/-! ## `encode_`, exit by exit -/

section Exits

variable {memcpy : Memcpy} {straddr : P → List Char} {con : NamedConnection P} {mem : Mem}
  {bytes : ByteMemory} {ck buffer : Addr} {buffer_size : Int32} {peer_name : P} {inserted : ℕ}

/-- The name does not fit. -/
theorem encode_of_short (h : (mem ck).capacity < con.local_name_len) :
    con.encode_ memcpy straddr mem bytes ck buffer buffer_size peer_name inserted =
      ⟨con, con.taken mem ck, bytes⟩ := by
  simp only [encode_, taken_self]
  rw [if_pos h]

/-- The name fits, the message does not. -/
theorem encode_of_full (hname : con.local_name_len ≤ (mem ck).capacity)
    (hmsg : (mem ck).capacity - con.local_name_len < toUInt64 buffer_size.toInt) :
    con.encode_ memcpy straddr mem bytes ck buffer buffer_size peer_name inserted =
      ⟨con, con.taken mem ck, bytes.store (mem ck).buffer con.name⟩ := by
  simp only [encode_, taken_self]
  rw [if_neg (Nat.not_lt.mpr hname), if_pos hmsg]

/-- Both fit. -/
theorem encode_of_fits (h : con.encodes (mem ck) buffer_size.toInt) :
    let after := con.encode_ memcpy straddr mem bytes ck buffer buffer_size peer_name inserted
    after.bytes = memcpy.copy (bytes.store (mem ck).buffer con.name)
        ((mem ck).buffer + con.local_name_len) buffer (toUInt64 buffer_size.toInt) ∧
      (after.mem ck).size = toUInt64 (buffer_size.toInt + con.local_name_len) := by
  simp only [encode_, taken_self]
  rw [if_neg (Nat.not_lt.mpr h.1), if_neg (Nat.not_lt.mpr h.2)]
  exact ⟨rfl, by simp only [Function.update_self]⟩

/-- On the header of the chunk and on the address map, `encode_` is the one of
`RdmConnection`. -/
theorem encode_header :
    let after := con.encode_ memcpy straddr mem bytes ck buffer buffer_size peer_name inserted
    (after.con.toRdmConnection, after.mem) =
      con.toRdmConnection.encode_ straddr mem ck buffer_size.toInt peer_name inserted := by
  have hmap : ({ con.toRdmConnection with
      address_map := (con.resolve straddr peer_name inserted).1.address_map } : RdmConnection P) =
        (con.resolve straddr peer_name inserted).1 := by
    unfold RdmConnection.resolve
    split <;> rfl
  simp only [encode_, RdmConnection.encode_]
  rw [show Function.update mem ck { mem ck with ctx4 := ck, con := con.self } =
    con.taken mem ck from rfl]
  by_cases hshort : (con.taken mem ck ck).capacity < con.local_name_len
  · have hnot : ¬ con.toRdmConnection.encodes (con.taken mem ck ck) buffer_size.toInt := by
      rintro ⟨h, -⟩
      omega
    rw [if_pos hshort, if_neg hnot]
  by_cases hfull : (con.taken mem ck ck).capacity - con.local_name_len <
      toUInt64 buffer_size.toInt
  · have hnot : ¬ con.toRdmConnection.encodes (con.taken mem ck ck) buffer_size.toInt := by
      rintro ⟨-, h⟩
      omega
    rw [if_neg hshort, if_pos hfull, if_neg hnot]
  · have hboth : con.toRdmConnection.encodes (con.taken mem ck ck) buffer_size.toInt :=
      ⟨Nat.not_lt.mp hshort, Nat.not_lt.mp hfull⟩
    rw [if_neg hshort, if_neg hfull, if_pos hboth]
    simp only [Function.update_self, Function.update_idem]
    rw [← hmap]

end Exits

/-! ## The message in the chunk -/

section Message

variable (straddr : P → List Char) (con : NamedConnection P) (mem : Mem) (bytes : ByteMemory)
  (ck buffer : Addr) (buffer_size : Int32) (peer_name : P) (inserted : ℕ)

/-- Name and payload fit the chunk. -/
def FitsChunk : Prop :=
  0 ≤ buffer_size.toInt ∧ con.local_name_len + buffer_size.toInt ≤ (mem ck).capacity

/-- The chunk holds the local name and what `buffer` held before the call, and its size
is theirs, whichever `memcpy` the code runs with. -/
def EncodesMessage : Prop :=
  ∀ memcpy : Memcpy,
    let after := con.encode_ memcpy straddr mem bytes ck buffer buffer_size peer_name inserted
    after.bytes.read (mem ck).buffer (con.local_name_len + buffer_size.toInt.toNat) =
        con.name ++ bytes.read buffer buffer_size.toInt.toNat ∧
      ((after.mem ck).size : ℤ) = con.local_name_len + buffer_size.toInt

/-- The message does not overlap the place behind the name, and where it overlaps the
place of the name it holds the bytes of the name. -/
def SourceKept : Prop :=
  Apart ((mem ck).buffer + con.local_name_len) buffer buffer_size.toInt.toNat ∧
    ∀ i < buffer_size.toInt.toNat, ∀ j (hj : j < con.name.length),
      buffer + i = (mem ck).buffer + j → bytes (buffer + i) = con.name[j]

variable {straddr con mem bytes ck buffer buffer_size peer_name inserted}

theorem toUInt64_of_nonneg (h : 0 ≤ buffer_size.toInt) :
    toUInt64 buffer_size.toInt = buffer_size.toInt.toNat := by
  have hlt := buffer_size.toInt_lt
  have hself := toUInt64_eq_self (x := buffer_size.toInt.toNat) (by omega)
  rwa [Int.toNat_of_nonneg h] at hself

theorem encodes_of_fits (h : con.FitsChunk mem ck buffer_size) :
    con.encodes (mem ck) buffer_size.toInt := by
  obtain ⟨h0, hfits⟩ := h
  refine ⟨by omega, ?_⟩
  rw [toUInt64_of_nonneg h0]
  omega

/-- The size that is entered is that of the frame. -/
theorem size_encode_ {memcpy : Memcpy} (h : con.FitsChunk mem ck buffer_size) :
    let after := con.encode_ memcpy straddr mem bytes ck buffer buffer_size peer_name inserted
    ((after.mem ck).size : ℤ) = con.local_name_len + buffer_size.toInt := by
  intro after
  have hsize : (after.mem ck).size = toUInt64 (buffer_size.toInt + con.local_name_len) :=
    (encode_of_fits (encodes_of_fits h)).2
  have hlt := buffer_size.toInt_lt
  have hlen := con.local_name_len_le
  have h0 := h.1
  have hself := toUInt64_eq_self (x := buffer_size.toInt.toNat + con.local_name_len) (by omega)
  rw [Nat.cast_add, Int.toNat_of_nonneg h0] at hself
  rw [hsize, hself]
  omega

/-- The bytes of the frame, as the copy leaves them. -/
theorem bytes_encode_ {memcpy : Memcpy} (h : con.FitsChunk mem ck buffer_size) :
    let after := con.encode_ memcpy straddr mem bytes ck buffer buffer_size peer_name inserted
    after.bytes = memcpy.copy (bytes.store (mem ck).buffer con.name)
      ((mem ck).buffer + con.local_name_len) buffer buffer_size.toInt.toNat := by
  intro after
  have hbytes : after.bytes = _ := (encode_of_fits (encodes_of_fits h)).1
  rw [hbytes, toUInt64_of_nonneg h.1]

/-- The payload, as the copy leaves it. -/
theorem payload_of_encodes
    (h : con.FitsChunk mem ck buffer_size)
    (hencodes : con.EncodesMessage straddr mem bytes ck buffer buffer_size peer_name inserted)
    (memcpy : Memcpy) :
    (memcpy.copy (bytes.store (mem ck).buffer con.name) ((mem ck).buffer + con.local_name_len)
        buffer buffer_size.toInt.toNat).read ((mem ck).buffer + con.local_name_len)
          buffer_size.toInt.toNat = bytes.read buffer buffer_size.toInt.toNat := by
  obtain ⟨hframe, -⟩ := hencodes memcpy
  rw [bytes_encode_ h, read_add] at hframe
  exact (List.append_inj hframe (by rw [length_read, length_name])).2

/-- **When a message is encoded.**  For every connection, chunk and message that fit,
`encode_` leaves in the chunk the local name followed by the message if and only if the
message lies where neither copy changes it first. -/
theorem encodes_message_iff (h : con.FitsChunk mem ck buffer_size) :
    con.EncodesMessage straddr mem bytes ck buffer buffer_size peer_name inserted ↔
      con.SourceKept mem bytes ck buffer buffer_size := by
  constructor
  · intro hencodes
    have hpayload := payload_of_encodes h hencodes
    have hapart : Apart ((mem ck).buffer + con.local_name_len) buffer
        buffer_size.toInt.toNat := by
      by_contra hover
      obtain ⟨memcpy, hwrong⟩ := Memcpy.exists_wrong
        (m := bytes.store (mem ck).buffer con.name) hover
        (bytes.read buffer buffer_size.toInt.toNat)
      exact hwrong (hpayload memcpy)
    refine ⟨hapart, read_store_iff.mp ?_⟩
    -- the copy puts down what it reads once the name is there
    have hcopied := hpayload Memcpy.memmove
    rw [Memcpy.copy_of_apart _ _ _ _ _ hapart] at hcopied
    have hread := read_store (bytes.store (mem ck).buffer con.name)
      ((mem ck).buffer + con.local_name_len)
      ((bytes.store (mem ck).buffer con.name).read buffer buffer_size.toInt.toNat)
    rw [length_read] at hread
    exact hread.symm.trans hcopied
  · rintro ⟨hapart, hkept⟩ memcpy
    refine ⟨?_, size_encode_ h⟩
    have hsource := read_store_iff.mpr hkept
    have hname := read_store bytes (mem ck).buffer con.name
    rw [length_name] at hname
    have hread := read_store (bytes.store (mem ck).buffer con.name)
      ((mem ck).buffer + con.local_name_len) (bytes.read buffer buffer_size.toInt.toNat)
    rw [length_read] at hread
    rw [bytes_encode_ h, Memcpy.copy_of_apart _ _ _ _ _ hapart, hsource, read_add,
      read_store_of_lt le_rfl, hname, hread]

/-- The call of the receive callbacks, with `ck->buffer` as the source: only a beginning
of the local name is encoded. -/
theorem sourceKept_self : con.SourceKept mem bytes ck (mem ck).buffer buffer_size ↔
    buffer_size.toInt.toNat ≤ con.local_name_len ∧
      bytes.read (mem ck).buffer buffer_size.toInt.toNat =
        con.name.take buffer_size.toInt.toNat := by
  have hapart : Apart ((mem ck).buffer + con.local_name_len) (mem ck).buffer
      buffer_size.toInt.toNat ↔ buffer_size.toInt.toNat ≤ con.local_name_len := by
    unfold Apart
    omega
  unfold SourceKept
  rw [hapart]
  refine and_congr_right fun hle => ?_
  have hlen : (con.name.take buffer_size.toInt.toNat).length = buffer_size.toInt.toNat := by
    rw [List.length_take, length_name]
    exact min_eq_left hle
  rw [read_eq_iff hlen]
  constructor
  · intro h i hi
    rw [List.getElem_take]
    exact h i (hlen ▸ hi) i (by rw [length_name]; omega) rfl
  · intro h i hi j hj hij
    obtain rfl : i = j := Nat.add_left_cancel hij
    rw [h i (by rwa [hlen]), List.getElem_take]

end Message

/-- A connection whose name is `AAAA`. -/
def fourA : NamedConnection Ipv4 :=
  { self := 1
    is_server := true
    dest_addr := ⟨0, 0, 0, 0, 0⟩
    local_name_len := 4
    address_map := ∅
    send_chunks_map := ∅
    local_name := List.replicate 64 65
    length_local_name := List.length_replicate
    local_name_len_le := by decide }

/-- Every chunk has sixteen bytes at 1000. -/
def sixteenAt : Mem := fun _ => { capacity := 16, buffer := 1000 }

/-- A message of two bytes at 2000. -/
theorem encodes_message_outside :
    fourA.EncodesMessage Ipv4.straddr sixteenAt (fun x => UInt8.ofNat x) 500 2000 2
      ⟨192, 168, 100, 10, 12345⟩ 0 :=
  (encodes_message_iff ⟨by decide, by decide⟩).mpr ⟨by decide, by
    intro i hi j hj hij
    change j < List.length _ at hj
    rw [length_name] at hj
    change j < 4 at hj
    change i < 2 at hi
    change 2000 + i = 1000 + j at hij
    omega⟩

/-- The first two bytes of the chunk itself: the chunk ends up with two bytes of the name
in their place. -/
theorem not_encodes_message_self :
    ¬ fourA.EncodesMessage Ipv4.straddr sixteenAt (fun x => UInt8.ofNat x) 500 1000 2
      ⟨192, 168, 100, 10, 12345⟩ 0 := by
  intro h
  have hpayload := payload_of_encodes ⟨by decide, by decide⟩ h Memcpy.memmove
  revert hpayload
  decide

/-! ## A chunk that is too small -/

section TooSmall

variable (straddr : P → List Char) (con : NamedConnection P) (mem : Mem) (bytes : ByteMemory)
  (ck buffer : Addr) (buffer_size : Int32) (peer_name : P) (inserted : ℕ)

/-- The chunk is exactly as it was, header and contents, and so is what a `send` of it
transmits. -/
def LeavesAlone : Prop :=
  ∀ memcpy : Memcpy,
    let after := con.encode_ memcpy straddr mem bytes ck buffer buffer_size peer_name inserted
    after.mem ck = mem ck ∧
      after.bytes.read (mem ck).buffer (mem ck).capacity =
        bytes.read (mem ck).buffer (mem ck).capacity ∧
      transmits after.mem after.bytes ck = transmits mem bytes ck

/-- The chunk is filed under the connection and its context under the chunk; and the
name does not fit either, or is there. -/
def EncodedBefore : Prop :=
  ((mem ck).con = con.self ∧ (mem ck).ctx4 = ck) ∧
    ((mem ck).capacity < con.local_name_len ∨
      bytes.read (mem ck).buffer con.local_name_len = con.name)

variable {straddr con mem bytes ck buffer buffer_size peer_name inserted}

theorem taken_eq_iff :
    con.taken mem ck ck = mem ck ↔ (mem ck).con = con.self ∧ (mem ck).ctx4 = ck := by
  rw [taken_self]
  cases hck : mem ck
  simp only [Chunk.mk.injEq, true_and, and_true]
  exact ⟨fun h => ⟨h.1.symm, h.2.symm⟩, fun h => ⟨h.1.symm, h.2.symm⟩⟩

theorem transmits_congr {mem' : Mem} (h : mem' ck = mem ck) :
    transmits mem' bytes ck = transmits mem bytes ck := by
  unfold transmits
  rw [h]

/-- **When a failed `encode_` leaves the chunk alone.**  For every connection, chunk and
message that do not fit, the chunk stays exactly as it was if and only if everything
that `encode_` writes before it returns was there already. -/
theorem leaves_alone_iff (h : ¬ con.encodes (mem ck) buffer_size.toInt) :
    con.LeavesAlone straddr mem bytes ck buffer buffer_size peer_name inserted ↔
      con.EncodedBefore mem bytes ck := by
  unfold LeavesAlone EncodedBefore
  by_cases hshort : (mem ck).capacity < con.local_name_len
  · simp only [encode_of_short hshort]
    rw [forall_const, taken_eq_iff]
    constructor
    · rintro ⟨htaken, -⟩
      exact ⟨htaken, Or.inl hshort⟩
    · rintro ⟨htaken, -⟩
      exact ⟨htaken, trivial, transmits_congr (taken_eq_iff.mpr htaken)⟩
  have hname := Nat.not_lt.mp hshort
  have hmsg : (mem ck).capacity - con.local_name_len < toUInt64 buffer_size.toInt := by
    by_contra hle
    exact h ⟨hname, Nat.not_lt.mp hle⟩
  simp only [encode_of_full hname hmsg]
  rw [forall_const, taken_eq_iff]
  constructor
  · rintro ⟨htaken, hread, -⟩
    refine ⟨htaken, Or.inr ((read_eq_iff con.length_name).mpr ?_)⟩
    intro i hi
    have hcap : i < (mem ck).capacity := by
      rw [length_name] at hi
      omega
    rw [← eq_of_read hread hcap]
    exact store_inside hi
  · rintro ⟨htaken, hthere⟩
    have hstore : bytes.store (mem ck).buffer con.name = bytes := by
      rw [store_eq_self, length_name]
      exact hthere.resolve_left hshort
    rw [hstore]
    exact ⟨htaken, rfl, transmits_congr (taken_eq_iff.mpr htaken)⟩

/-- The chunk is encoded for the second time, with a message that is too long. -/
theorem leaves_alone_again :
    let mem : Mem := fun _ => { capacity := 16, buffer := 1000, con := 1, ctx4 := 500 }
    fourA.LeavesAlone Ipv4.straddr mem (fun _ => 65) 500 2000 13
      ⟨192, 168, 100, 10, 12345⟩ 0 := by
  intro mem
  have hlong : ¬ fourA.encodes (mem 500) (13 : Int32).toInt := by decide +kernel
  exact (leaves_alone_iff hlong).mpr ⟨⟨rfl, rfl⟩, Or.inr (by decide)⟩

/-- A chunk with a name, a message of three bytes and the peer 7, encoded again with a
message that is too long: the new name goes to the old peer with the old message. -/
theorem not_leaves_alone_recycled :
    let mem : Mem := fun _ =>
      { capacity := 16, size := 7, buffer := 1000, con := 1, ctx4 := 500, peer_addr := 7 }
    let after := fourA.encode_ Memcpy.memmove Ipv4.straddr mem (fun _ => 66) 500 2000 13
      ⟨192, 168, 100, 10, 12345⟩ 0
    transmits after.mem after.bytes 500 = ([65, 65, 65, 65, 66, 66, 66], 7) ∧
      ¬ fourA.LeavesAlone Ipv4.straddr mem (fun _ => 66) 500 2000 13
        ⟨192, 168, 100, 10, 12345⟩ 0 := by
  intro mem after
  have hmixed : transmits after.mem after.bytes 500 = ([65, 65, 65, 65, 66, 66, 66], 7) := by
    decide +kernel
  refine ⟨hmixed, ?_⟩
  intro h
  have hsame : transmits after.mem after.bytes 500 = transmits mem (fun _ => 66) 500 :=
    (h Memcpy.memmove).2.2
  rw [hmixed] at hsame
  revert hsame
  decide

end TooSmall

/-! ## What `decode_` copies -/

section Decode

variable (con : NamedConnection P) (mem : Mem) (ck buffer peer_name : Addr)

/-- A call of `memcpy` reads bytes of the message in the chunk only. -/
def ReadsMessage (call : MemcpyCall) : Prop :=
  Within (mem ck).buffer (mem ck).size call.src call.n

/-- Only bytes that have been received are copied, and `*buffer_size` is between 0 and
their number. -/
def StaysWithin : Prop :=
  (∀ call ∈ (con.decode_ mem ck buffer peer_name).1, ReadsMessage mem ck call) ∧
    ∀ buffer_size, (con.decode_ mem ck buffer peer_name).2 = some buffer_size →
      0 ≤ buffer_size ∧ buffer_size ≤ (mem ck).size

/-- Whatever is asked for, the message is at least as long as the name; and if the payload
is asked for, its length as an `int` is not negative. -/
def LongEnough : Prop :=
  (peer_name ≠ nullptr ∨ buffer ≠ nullptr → con.local_name_len ≤ (mem ck).size) ∧
    (buffer ≠ nullptr → ((mem ck).size - con.local_name_len) % 2 ^ 32 < 2 ^ 31)

variable {con mem ck buffer peer_name}

/-- The length that is derived, as long as the message is not shorter than the name. -/
theorem payload_length (con : NamedConnection P) (h : con.local_name_len ≤ (mem ck).size) :
    (((mem ck).size - con.local_name_len) % 2 ^ 32 < 2 ^ 31 ↔
        0 ≤ toInt32 (toUInt64 ((mem ck).size - con.local_name_len : ℤ))) ∧
      toInt32 (toUInt64 ((mem ck).size - con.local_name_len : ℤ)) ≤
        (mem ck).size - con.local_name_len := by
  rw [toInt32_toUInt64]
  simp only [toInt32]
  omega

/-- A message that is shorter than the name has a negative length. -/
theorem payload_length_neg (con : NamedConnection P) (h : (mem ck).size < con.local_name_len) :
    toInt32 (toUInt64 ((mem ck).size - con.local_name_len : ℤ)) < 0 := by
  have hlen := con.local_name_len_le
  rw [toInt32_toUInt64, toInt32_eq_self (by omega) (by omega)]
  omega

/-- The copy of the name. -/
def nameCalls (con : NamedConnection P) (mem : Mem) (ck peer_name : Addr) : List MemcpyCall :=
  if peer_name = nullptr then [] else [⟨peer_name, (mem ck).buffer, con.local_name_len⟩]

/-- The name is copied from what was received. -/
theorem nameCalls_within : (∀ call ∈ con.nameCalls mem ck peer_name, ReadsMessage mem ck call) ↔
    (peer_name ≠ nullptr → con.local_name_len ≤ (mem ck).size) := by
  unfold nameCalls
  by_cases hpeer : peer_name = nullptr
  · simp [hpeer]
  · rw [if_neg hpeer, List.forall_mem_singleton]
    have hwithin : ReadsMessage mem ck ⟨peer_name, (mem ck).buffer + 0, con.local_name_len⟩ ↔
        con.local_name_len = 0 ∨ 0 + con.local_name_len ≤ (mem ck).size := within_iff
    rw [Nat.add_zero] at hwithin
    rw [hwithin]
    constructor
    · intro h _
      omega
    · intro h
      have := h hpeer
      omega

theorem decode_of_null : con.decode_ mem ck nullptr peer_name =
    (con.nameCalls mem ck peer_name, none) := by
  unfold decode_
  exact if_pos rfl

theorem decode_of_ne (h : buffer ≠ nullptr) : con.decode_ mem ck buffer peer_name =
    (con.nameCalls mem ck peer_name ++ [⟨buffer, (mem ck).buffer + con.local_name_len,
        toUInt64 (toInt32 (toUInt64 ((mem ck).size - con.local_name_len : ℤ)))⟩],
      some (toInt32 (toUInt64 ((mem ck).size - con.local_name_len : ℤ)))) :=
  if_neg h

/-- **When `decode_` stays within the message.**  For every received chunk, every local
name and either pointer null or not, only received bytes are copied and the length is
one of the message if and only if the message is long enough for what is asked. -/
theorem stays_within_iff (con : NamedConnection P) (mem : Mem) (ck buffer peer_name : Addr) :
    con.StaysWithin mem ck buffer peer_name ↔ con.LongEnough mem ck buffer peer_name := by
  unfold StaysWithin LongEnough
  by_cases hbuffer : buffer = nullptr
  · subst hbuffer
    rw [decode_of_null, nameCalls_within]
    simp
  rw [decode_of_ne hbuffer, List.forall_mem_append, List.forall_mem_singleton, nameCalls_within]
  have hpayload : ReadsMessage mem ck ⟨buffer, (mem ck).buffer + con.local_name_len,
      toUInt64 (toInt32 (toUInt64 ((mem ck).size - con.local_name_len : ℤ)))⟩ ↔ _ := within_iff
  rw [hpayload]
  simp only [Option.some.injEq, forall_eq', hbuffer, ne_eq, not_false_eq_true, or_true,
    forall_const]
  by_cases hlen : con.local_name_len ≤ (mem ck).size
  · obtain ⟨hiff, hle⟩ := payload_length con hlen
    rw [hiff]
    constructor
    · rintro ⟨-, h, -⟩
      exact ⟨hlen, h⟩
    · rintro ⟨-, h⟩
      have hself := toUInt64_eq_self (x := (toInt32 (toUInt64
        ((mem ck).size - con.local_name_len : ℤ))).toNat) (by
          have := toInt32_lt (toUInt64 ((mem ck).size - con.local_name_len : ℤ))
          omega)
      rw [Int.toNat_of_nonneg h] at hself
      rw [hself]
      refine ⟨⟨fun _ => hlen, Or.inr ?_⟩, h, ?_⟩
      · omega
      · omega
  · have hneg := payload_length_neg con (Nat.not_le.mp hlen)
    constructor
    · rintro ⟨-, h, -⟩
      omega
    · rintro ⟨h, -⟩
      exact absurd h hlen

/-- Three bytes from a peer, where the local name has four: the length is -1, and the copy
runs through the whole address space. -/
theorem not_stays_within_short :
    let mem : Mem := fun _ => { capacity := 16, size := 3, buffer := 1000 }
    fourA.decode_ mem 500 3000 nullptr = ([⟨3000, 1004, 2 ^ 64 - 1⟩], some (-1)) ∧
      ¬ fourA.StaysWithin mem 500 3000 nullptr := by
  intro mem
  have hdecode : fourA.decode_ mem 500 3000 nullptr = ([⟨3000, 1004, 2 ^ 64 - 1⟩], some (-1)) := by
    decide +kernel
  refine ⟨hdecode, ?_⟩
  rintro ⟨-, h⟩
  have hlen := h (-1) (by rw [hdecode])
  omega

/-! ## The same on the bytes of a chunk -/

/-- The name, by itself. -/
def localName (con : NamedConnection P) : LocalName :=
  ⟨con.local_name, con.local_name_len, con.length_local_name, con.local_name_len_le⟩

/-- A chunk with the bytes of its buffer. -/
def frame (mem : Mem) (bytes : ByteMemory) (ck : Addr) (h : (mem ck).capacity < 2 ^ 64) :
    FrameChunk :=
  ⟨(mem ck).capacity, (mem ck).size, bytes.read (mem ck).buffer (mem ck).capacity,
    length_read .., h⟩

/-- Bytes that are stored in a buffer, seen from its beginning. -/
theorem read_store_at (m : ByteMemory) (a : ℕ) {off cap : ℕ} {bs : List UInt8}
    (h : off + bs.length ≤ cap) :
    (m.store (a + off) bs).read a cap = memcpy (m.read a cap) off bs := by
  obtain ⟨k, rfl⟩ := Nat.exists_eq_add_of_le h
  have hfirst : (m.read a (off + bs.length + k)).take off = m.read a off := by
    rw [read_add, read_add, List.append_assoc, List.take_left' (length_read ..)]
  have hrest : (m.read a (off + bs.length + k)).drop (off + bs.length) =
      m.read (a + (off + bs.length)) k := by
    rw [read_add, List.drop_left' (length_read ..)]
  have hbehind : (m.store (a + off) bs).read (a + (off + bs.length)) k =
      m.read (a + (off + bs.length)) k := by
    refine read_store_of_beside ?_
    unfold Beside
    omega
  rw [memcpy, hfirst, hrest, read_add, read_add, read_store_of_lt le_rfl, read_store, hbehind]

/-- **`encode_` in memory is `encode_` on the bytes of the chunk**, for a message that lies where
neither copy changes it first. -/
theorem encode_frame (c : Memcpy) (straddr : P → List Char) {bytes : ByteMemory}
    {buffer_size : Int32} (peer : P) (inserted : ℕ) (h0 : 0 ≤ buffer_size.toInt)
    (hcap : (mem ck).capacity < 2 ^ 64) (hkept : con.SourceKept mem bytes ck buffer buffer_size) :
    let after := con.encode_ c straddr mem bytes ck buffer buffer_size peer inserted
    let framed := con.localName.encode_ (frame mem bytes ck hcap)
      (bytes.read buffer buffer_size.toInt.toNat)
    (after.mem ck).capacity = framed.capacity ∧ (after.mem ck).size = framed.size ∧
      after.bytes.read (mem ck).buffer (mem ck).capacity = framed.buffer := by
  intro after framed
  have hlen : (bytes.read buffer buffer_size.toInt.toNat).length = buffer_size.toInt.toNat :=
    length_read ..
  have hname : ∀ {m : ByteMemory}, con.local_name_len ≤ (mem ck).capacity →
      (m.store (mem ck).buffer con.name).read (mem ck).buffer (mem ck).capacity =
        memcpy (m.read (mem ck).buffer (mem ck).capacity) 0 con.name := by
    intro m hle
    have hin : 0 + con.name.length ≤ (mem ck).capacity := by
      rw [length_name]
      omega
    exact read_store_at m (mem ck).buffer hin
  by_cases hshort : (mem ck).capacity < con.local_name_len
  · have hframed : framed = frame mem bytes ck hcap := dif_pos hshort
    have hafter : after = ⟨con, con.taken mem ck, bytes⟩ := encode_of_short hshort
    rw [hframed, hafter]
    show (con.taken mem ck ck).capacity = _ ∧ (con.taken mem ck ck).size = _ ∧ _
    rw [taken_self]
    exact ⟨rfl, rfl, rfl⟩
  have hle := Nat.not_lt.mp hshort
  by_cases hfull : (mem ck).capacity - con.local_name_len < toUInt64 buffer_size.toInt
  · have hafter : after = ⟨con, con.taken mem ck, bytes.store (mem ck).buffer con.name⟩ :=
      encode_of_full hle hfull
    rw [toUInt64_of_nonneg h0, ← hlen] at hfull
    have hframed : framed = (frame mem bytes ck hcap).write 0 con.name _ :=
      (dif_neg hshort).trans (dif_pos hfull)
    rw [hframed, hafter]
    show (con.taken mem ck ck).capacity = _ ∧ (con.taken mem ck ck).size = _ ∧ _
    rw [taken_self]
    exact ⟨rfl, rfl, hname hle⟩
  · have hfits : con.FitsChunk mem ck buffer_size := by
      rw [toUInt64_of_nonneg h0] at hfull
      exact ⟨h0, by omega⟩
    have hbytes : after.bytes = _ := bytes_encode_ hfits
    have hsize : (after.mem ck).size = toUInt64 (buffer_size.toInt + con.local_name_len) :=
      (encode_of_fits (encodes_of_fits hfits)).2
    have hcapacity : (after.mem ck).capacity = (mem ck).capacity := by
      simp only [after, encode_, taken_self]
      rw [if_neg hshort, if_neg hfull]
      simp
    rw [toUInt64_of_nonneg h0, ← hlen] at hfull
    have hframed : framed = { ((frame mem bytes ck hcap).write 0 con.name _).write
        con.local_name_len (bytes.read buffer buffer_size.toInt.toNat) _ with
          size := toUInt64 ((bytes.read buffer buffer_size.toInt.toNat).length +
            con.local_name_len) } :=
      (dif_neg hshort).trans (dif_neg hfull)
    rw [hframed, hbytes, hsize, hcapacity]
    refine ⟨rfl, ?_, ?_⟩
    · show _ = toUInt64 (((bytes.read buffer buffer_size.toInt.toNat).length : ℤ) +
        con.local_name_len)
      rw [hlen, Int.toNat_of_nonneg h0]
    · have hin : con.local_name_len + (bytes.read buffer buffer_size.toInt.toNat).length ≤
          (mem ck).capacity := by
        omega
      rw [Memcpy.copy_of_apart _ _ _ _ _ hkept.1, read_store_iff.mpr hkept.2, read_store_at _ _ hin,
        hname hle]
      rfl

/-- **`decode_` in memory is `decode_` on the bytes of the chunk**, as long as its copies stay in
the chunk. -/
theorem decode_frame (bytes : ByteMemory) (hcap : (mem ck).capacity < 2 ^ 64)
    {d : LocalName.Decoded} (hd : con.localName.decode_ (frame mem bytes ck hcap) = some d)
    (hbuffer : buffer ≠ nullptr) (hpeer : peer_name ≠ nullptr) :
    con.decode_ mem ck buffer peer_name = ([⟨peer_name, (mem ck).buffer, con.local_name_len⟩,
        ⟨buffer, (mem ck).buffer + con.local_name_len, toUInt64 d.buffer_size⟩],
          some d.buffer_size) ∧
      bytes.read (mem ck).buffer con.local_name_len = d.peer_name ∧
      bytes.read ((mem ck).buffer + con.local_name_len) (toUInt64 d.buffer_size) = d.buffer := by
  obtain ⟨hin, hd⟩ := Option.ite_none_right_eq_some.mp hd
  cases hd
  have hsize : con.local_name_len + toUInt64 (toInt32 (toUInt64 ((mem ck).size -
      con.local_name_len : ℤ))) ≤ (mem ck).capacity := hin
  obtain ⟨k, hk⟩ := Nat.exists_eq_add_of_le hsize
  refine ⟨?_, ?_, ?_⟩
  · rw [decode_of_ne hbuffer, nameCalls, if_neg hpeer]
    rfl
  · show _ = (bytes.read (mem ck).buffer (mem ck).capacity).take con.local_name_len
    rw [hk, read_add, read_add, List.append_assoc, List.take_left' (length_read ..)]
  · show _ = ((bytes.read (mem ck).buffer (mem ck).capacity).drop con.local_name_len).take
      (toUInt64 (toInt32 (toUInt64 ((mem ck).size - con.local_name_len : ℤ))))
    rw [hk, read_add, read_add, List.append_assoc, List.drop_left' (length_read ..),
      List.take_left' (length_read ..)]
    rfl

end Decode

end NamedConnection

end Hpnl
