import Hpnl.Chunk

/-!
# Named frames

`RdmConnection::encode_` puts the local name in front of a message and `decode_`
takes the name and the message apart again.  The length of the name is not in the
frame: either side uses its own `local_name_len`.  The interface comment describes a
frame that begins with the length.

* `LocalName` — `local_name` and `local_name_len` as `fi_getname` leaves them.
* `encode_`, `decode_` — on the bytes of a chunk.
* `decode_encode_` — **a frame is decoded to what was encoded exactly when the names
  of the two sides have the same length**.
-/

namespace Hpnl

open MachineInt

/-! ## The two sides -/

/-- `char local_name[64]` and its `local_name_len`. -/
structure LocalName where
  local_name : List UInt8
  local_name_len : ℕ
  length_local_name : local_name.length = 64
  local_name_len_le : local_name_len ≤ 64

/-- A chunk with the bytes of its buffer. -/
structure FrameChunk where
  capacity : ℕ
  size : ℕ
  buffer : List UInt8
  length_buffer : buffer.length = capacity
  capacity_lt : capacity < 2 ^ 64

/-- The bytes of a buffer after `memcpy(dst + off, src, src.length)`. -/
def memcpy (dst : List UInt8) (off : ℕ) (src : List UInt8) : List UInt8 :=
  dst.take off ++ src ++ dst.drop (off + src.length)

theorem length_memcpy {dst src : List UInt8} {off : ℕ} (h : off + src.length ≤ dst.length) :
    (memcpy dst off src).length = dst.length := by
  simp only [memcpy, List.length_append, List.length_take, List.length_drop]
  omega

/-- What lies in front of the bytes copied stays. -/
theorem take_memcpy {dst src : List UInt8} {off : ℕ} (h : off ≤ dst.length) :
    (memcpy dst off src).take off = dst.take off := by
  unfold memcpy
  rw [List.append_assoc, List.take_append_of_le_length (by simp [h]), List.take_take, min_self]

/-- The bytes copied are there. -/
theorem take_drop_memcpy {dst src : List UInt8} {off : ℕ} (h : off ≤ dst.length) :
    ((memcpy dst off src).drop off).take src.length = src := by
  unfold memcpy
  rw [List.append_assoc, List.drop_append_of_le_length (by simp [h])]
  rw [List.drop_eq_nil_of_le (by simp), List.nil_append, List.take_left]

namespace FrameChunk

/-- Bytes copied into the buffer, where they fit. -/
def write (ck : FrameChunk) (off : ℕ) (src : List UInt8) (h : off + src.length ≤ ck.capacity) :
    FrameChunk :=
  { ck with
    buffer := memcpy ck.buffer off src
    length_buffer := by
      rw [length_memcpy (by rw [ck.length_buffer]; exact h)]
      exact ck.length_buffer }

/-- The chunk holds the same frame as another one: the size and that many bytes. -/
def Holds (ck ck' : FrameChunk) : Prop :=
  ck.size = ck'.size ∧ ck.buffer.take ck'.size = ck'.buffer.take ck'.size

end FrameChunk

namespace LocalName

/-- The local name. -/
def name (con : LocalName) : List UInt8 := con.local_name.take con.local_name_len

theorem length_name (con : LocalName) : con.name.length = con.local_name_len := by
  rw [name, List.length_take, con.length_local_name]
  exact min_eq_left con.local_name_len_le

/-- `encode_`, as far as the chunk's size and bytes go.  The source buffer is the
message, `buffer_size` its length; the name is copied even when the message does not
fit. -/
def encode_ (con : LocalName) (ck : FrameChunk) (buffer : List UInt8) : FrameChunk :=
  if hname : ck.capacity < con.local_name_len then ck
  else
    let named := ck.write 0 con.name (by rw [con.length_name]; omega)
    if hmsg : ck.capacity - con.local_name_len < buffer.length then named
    else
      { named.write con.local_name_len buffer (by
          show con.local_name_len + buffer.length ≤ ck.capacity
          omega) with
        size := toUInt64 (buffer.length + con.local_name_len) }

/-- What `decode_` writes to `peer_name`, to `buffer` and to `*buffer_size`. -/
structure Decoded where
  peer_name : List UInt8
  buffer : List UInt8
  buffer_size : ℤ
  deriving DecidableEq, Repr

/-- `decode_` with both pointers given; `none` when a copy runs over the end of the
chunk. -/
def decode_ (con : LocalName) (ck : FrameChunk) : Option Decoded :=
  let buffer_size := toInt32 (toUInt64 ((ck.size : ℤ) - con.local_name_len))
  if con.local_name_len + toUInt64 buffer_size ≤ ck.capacity then
    some
      { peer_name := ck.buffer.take con.local_name_len
        buffer := (ck.buffer.drop con.local_name_len).take (toUInt64 buffer_size)
        buffer_size := buffer_size }
  else none

/-! ## The round trip -/

/-- The message fits the chunk behind the name, and its length is an `int`. -/
def Fits (con : LocalName) (ck : FrameChunk) (buffer : List UInt8) : Prop :=
  con.local_name_len + buffer.length ≤ ck.capacity ∧ buffer.length < 2 ^ 31

theorem size_encode_ {con : LocalName} {ck : FrameChunk} {buffer : List UInt8}
    (h : con.Fits ck buffer) :
    (con.encode_ ck buffer).size = con.local_name_len + buffer.length := by
  obtain ⟨hfit, -⟩ := h
  have hlt := lt_of_le_of_lt hfit ck.capacity_lt
  unfold encode_
  rw [dif_neg (by omega), dif_neg (by omega)]
  show toUInt64 ((buffer.length : ℤ) + (con.local_name_len : ℤ)) = _
  rw [← Nat.cast_add, toUInt64_eq_self (by omega), Nat.add_comm]

/-- The frame: the name and the message behind it. -/
theorem frame_encode_ {con : LocalName} {ck : FrameChunk} {buffer : List UInt8}
    (h : con.Fits ck buffer) :
    (con.encode_ ck buffer).buffer.take (con.local_name_len + buffer.length) =
      con.name ++ buffer := by
  obtain ⟨hfit, -⟩ := h
  unfold encode_
  rw [dif_neg (by omega), dif_neg (by omega)]
  show (memcpy (memcpy ck.buffer 0 con.name) con.local_name_len buffer).take _ = _
  have hname : (memcpy ck.buffer 0 con.name).length = ck.capacity := by
    rw [length_memcpy, ck.length_buffer]
    rw [con.length_name, ck.length_buffer]
    omega
  have hlen : con.local_name_len ≤ (memcpy ck.buffer 0 con.name).length := by omega
  rw [List.take_add, take_memcpy hlen, take_drop_memcpy hlen]
  congr 1
  have hfirst : ((memcpy ck.buffer 0 con.name).drop 0).take con.name.length = con.name :=
    take_drop_memcpy (Nat.zero_le _)
  rw [List.drop_zero, con.length_name] at hfirst
  exact hfirst

/-- `decode_` on a frame, with a name of its own of any length. -/
theorem decode_of_holds {a b : LocalName} {ck ck' : FrameChunk} {buffer : List UInt8}
    (h : a.Fits ck buffer) (hsame : ck'.Holds (a.encode_ ck buffer))
    (hlen : b.local_name_len = a.local_name_len) :
    b.decode_ ck' = some ⟨a.name, buffer, buffer.length⟩ := by
  obtain ⟨hsize, hbytes⟩ := hsame
  rw [size_encode_ h] at hsize hbytes
  rw [frame_encode_ h] at hbytes
  have hcap : a.local_name_len + buffer.length ≤ ck'.capacity := by
    have hle := congrArg List.length hbytes
    rw [List.length_take, List.length_append, a.length_name, ck'.length_buffer] at hle
    omega
  have hint : toInt32 (toUInt64 ((ck'.size : ℤ) - b.local_name_len)) = buffer.length := by
    rw [hsize, hlen, toInt32_toUInt64]
    rw [show ((a.local_name_len + buffer.length : ℕ) : ℤ) - a.local_name_len = buffer.length by
      push_cast; ring]
    exact toInt32_eq_self (by omega) (by exact_mod_cast h.2)
  have hback : toUInt64 (buffer.length : ℤ) = buffer.length :=
    toUInt64_eq_self (lt_trans h.2 (by norm_num))
  unfold decode_
  dsimp only
  rw [hint, hback, hlen, if_pos hcap, Option.some.injEq, Decoded.mk.injEq]
  rw [List.take_add] at hbytes
  obtain ⟨hname, hmsg⟩ := List.append_inj hbytes (by
    rw [List.length_take, a.length_name, ck'.length_buffer]
    omega)
  exact ⟨hname, hmsg, rfl⟩

/-- **When a frame is decoded to what was encoded.**  Whatever the names, the message
and the chunks, `decode_` on the other side yields the name of the sender and the
message with its length exactly when the two names have the same length. -/
theorem decode_encode_ (a b : LocalName) (ck ck' : FrameChunk) (buffer : List UInt8)
    (hfits : a.Fits ck buffer) (hsame : ck'.Holds (a.encode_ ck buffer)) :
    b.decode_ ck' = some ⟨a.name, buffer, buffer.length⟩ ↔
      b.local_name_len = a.local_name_len := by
  constructor
  · intro hdec
    unfold decode_ at hdec
    dsimp only at hdec
    split at hdec
    · rename_i hcap
      rw [Option.some.injEq, Decoded.mk.injEq] at hdec
      have hlength := congrArg List.length hdec.1
      rw [List.length_take, ck'.length_buffer, a.length_name] at hlength
      omega
    · exact absurd hdec (by simp)
  · exact decode_of_holds hfits hsame

theorem length_letters : (List.replicate 64 (65 : UInt8)).length = 64 := List.length_replicate

/-- A name of `n` bytes. -/
def ofLength (n : ℕ) (h : n ≤ 64) : LocalName :=
  { local_name := List.replicate 64 65
    local_name_len := n
    length_local_name := length_letters
    local_name_len_le := h }

/-- An empty chunk of eight bytes. -/
def smallChunk : FrameChunk :=
  { capacity := 8
    size := 0
    buffer := List.replicate 8 0
    length_buffer := List.length_replicate
    capacity_lt := by norm_num }

theorem holds_self (ck : FrameChunk) : ck.Holds ck := ⟨rfl, rfl⟩

theorem decode_encode_same :
    (ofLength 2 (by decide)).decode_ ((ofLength 2 (by decide)).encode_ smallChunk [1, 2, 3]) =
      some ⟨[65, 65], [1, 2, 3], 3⟩ :=
  (decode_encode_ (ofLength 2 (by decide)) (ofLength 2 (by decide)) smallChunk _ [1, 2, 3]
    ⟨by decide, by decide⟩ (holds_self _)).mpr rfl

/-- A side with a shorter name takes the end of the sender's name for the beginning of
the message. -/
theorem decode_encode_shorter :
    (ofLength 1 (by decide)).decode_ ((ofLength 2 (by decide)).encode_ smallChunk [1, 2, 3]) =
        some ⟨[65], [65, 1, 2, 3], 4⟩ ∧
      (ofLength 1 (by decide)).decode_ ((ofLength 2 (by decide)).encode_ smallChunk [1, 2, 3]) ≠
        some ⟨(ofLength 2 (by decide)).name, [1, 2, 3], 3⟩ := by
  constructor <;> decide +kernel

end LocalName

end Hpnl
