import Hpnl.Lib.ByteBuffer

/-!
# `HpnlBuffer`

The frames of the Java binding (`com/intel/hpnl/core/HpnlBuffer.java`).  A frame
is written by one of the two `put`s into the byte buffer of an `HpnlBuffer` and
read back by `get`.

* `putMsg`, `putRdm`, `get` — the methods, as programs on the buffer.
* `Put` — a call of either `put`; `Put.bytes` is the frame it means to write.
* `Put.outcomeOn`, `Put.outcome_eq` — **what a put yields depends on the buffer
  only through the limit that earlier calls left behind**.
-/

namespace Hpnl

open MachineInt

/-- An `HpnlBuffer`, without its ids and addresses. -/
structure HpnlBuffer where
  byteBuffer : ByteBuffer
  type : UInt8 := 0
  seq : UInt64 := 0
  nameLength : Int32 := 0
  name : Option ByteBuffer := none

/-- `Type.MSG`. -/
def Type.MSG : UInt8 := 0

/-- `Type.RDM`. -/
def Type.RDM : UInt8 := 1

/-- `METADATA_SIZE`. -/
def METADATA_SIZE : ℤ := 10

namespace HpnlBuffer

/-- A method of `this.byteBuffer`. -/
def onBuffer {α : Type} (x : Java ByteBuffer α) : Java HpnlBuffer α :=
  Java.onField HpnlBuffer.byteBuffer (fun h b => { h with byteBuffer := b }) x

/-- A method of `this.name`. -/
def onName {α : Type} (x : Java ByteBuffer α) : Java HpnlBuffer α := fun h =>
  match h.name with
  | none => .error .NullPointerException h
  | some name =>
      Java.onField (fun _ => name) (fun h name => { h with name := some name }) x h

/-! ## The methods -/

/-- `size()`. -/
def size (h : HpnlBuffer) : ℕ := h.byteBuffer.remaining

/-- `getName()`. -/
def getName : Java HpnlBuffer ByteBuffer := onName (do return (← MonadState.get).slice)

/-- `putMetadata(srcSize, type, seq)`. -/
def putMetadataMsg (srcSize : ℕ) (type : UInt8) (seq : UInt64) : Java ByteBuffer Unit := do
  ByteBuffer.rewind
  let byteBuffer ← MonadState.get
  if (byteBuffer.remaining : ℤ) < toInt32 (METADATA_SIZE + srcSize) then
    throw .ArithmeticException
  ByteBuffer.setLimit (toInt32 (METADATA_SIZE + srcSize))
  ByteBuffer.put Type.MSG
  ByteBuffer.put type
  ByteBuffer.putLong seq

/-- `putMetadata(srcSize, nameLength, name, type, seq)`. -/
def putMetadataRdm (srcSize : ℕ) (nameLength : Int32) (name : ByteBuffer) (type : UInt8)
    (seq : UInt64) : Java ByteBuffer Unit := do
  ByteBuffer.rewind
  let byteBuffer ← MonadState.get
  if (byteBuffer.remaining : ℤ) < toInt32 (METADATA_SIZE + srcSize + nameLength.toInt + 4) then
    throw .ArithmeticException
  ByteBuffer.setLimit (toInt32 (METADATA_SIZE + srcSize + nameLength.toInt + 4))
  ByteBuffer.put Type.RDM
  ByteBuffer.putInt nameLength
  ByteBuffer.putBuffer name.slice
  ByteBuffer.put type
  ByteBuffer.putLong seq

/-- `put(src, type, seq)`.  An `ArithmeticException` is printed and forgotten. -/
def putMsg (src : ByteBuffer) (type : UInt8) (seq : UInt64) : Java HpnlBuffer Unit := onBuffer do
  Java.ignoring .ArithmeticException (putMetadataMsg src.remaining type seq)
  ByteBuffer.putBuffer src.slice
  ByteBuffer.flip

/-- `put(src, nameLength, name, type, seq)`. -/
def putRdm (src : ByteBuffer) (nameLength : Int32) (name : ByteBuffer) (type : UInt8)
    (seq : UInt64) : Java HpnlBuffer Unit := onBuffer do
  Java.ignoring .ArithmeticException (putMetadataRdm src.remaining nameLength name type seq)
  ByteBuffer.putBuffer src.slice
  ByteBuffer.flip

/-- The name of an RDM frame, in `get`: the buffer for it is allocated once and
then used again. -/
def setName (nameLength : Int32) (nameTmp : List UInt8) : Java HpnlBuffer Unit := do
  let this ← MonadState.get
  if this.name = none then
    let name ← ByteBuffer.allocate nameLength.toInt
    modify fun h => { h with name := some name }
  onName (ByteBuffer.putBytes nameTmp)
  onName ByteBuffer.flip

/-- The end of `get`, common to both forms. -/
def getRest : Java HpnlBuffer ByteBuffer := do
  let type ← onBuffer ByteBuffer.get
  modify fun h => { h with type := type }
  let seq ← onBuffer ByteBuffer.getLong
  modify fun h => { h with seq := seq }
  return (← MonadState.get).byteBuffer.slice

/-- `get` from the first byte of the frame on. -/
def getFrame : Java HpnlBuffer ByteBuffer := do
  let tag ← onBuffer ByteBuffer.get
  if tag = Type.MSG then
    getRest
  else
    let nameLength ← onBuffer ByteBuffer.getInt
    modify fun h => { h with nameLength := nameLength }
    let nameTmp ← onBuffer (ByteBuffer.getArray nameLength)
    setName nameLength nameTmp
    getRest

/-- `get(blockBufferSize)`. -/
def get (blockBufferSize : ℤ) : Java HpnlBuffer ByteBuffer := do
  onBuffer (ByteBuffer.setPosition 0)
  onBuffer (ByteBuffer.setLimit blockBufferSize)
  getFrame

/-! ## Puts -/

/-- A call of one of the two `put`s. -/
inductive Put where
  | msg (src : ByteBuffer) (type : UInt8) (seq : UInt64)
  | rdm (src : ByteBuffer) (nameLength : Int32) (name : ByteBuffer) (type : UInt8) (seq : UInt64)
  deriving DecidableEq

namespace Put

/-- The call. -/
def run : Put → Java HpnlBuffer Unit
  | msg src type seq => putMsg src type seq
  | rdm src nameLength name type seq => putRdm src nameLength name type seq

/-- The payload. -/
def src : Put → ByteBuffer
  | msg src _ _ => src
  | rdm src _ _ _ _ => src

/-- The size of the frame that the call announces. -/
def frame : Put → ℤ
  | msg src _ _ => METADATA_SIZE + src.remaining
  | rdm src nameLength _ _ _ => METADATA_SIZE + src.remaining + nameLength.toInt + 4

/-- The header, in the pieces in which it is written. -/
def header : Put → List (List UInt8)
  | msg _ type seq => [[Type.MSG], [type], BigEndian.toBytes 8 seq.toNat]
  | rdm _ nameLength name type seq =>
      [[Type.RDM], BigEndian.toBytes 4 nameLength.toUInt32.toNat, name.remainingBytes, [type],
        BigEndian.toBytes 8 seq.toNat]

/-- The frame. -/
def bytes (p : Put) : List UInt8 := p.header.flatten ++ p.src.remainingBytes

/-- What the call yields: the bytes between position and limit, or the exception
it throws. -/
def outcome (p : Put) (h : HpnlBuffer) : Except JavaException (List UInt8) :=
  match p.run h with
  | .ok _ h' => .ok h'.byteBuffer.remainingBytes
  | .error e _ => .error e

/-- The outcome on a buffer with the given limit: a frame that the limit leaves no
room for is replaced by its bare payload, at the old limit. -/
def outcomeOn (p : Put) (limit : ℕ) : Except JavaException (List UInt8) :=
  if (limit : ℤ) < p.frame then
    if p.src.remaining ≤ limit then .ok p.src.remainingBytes else .error .BufferOverflowException
  else if p.frame < 0 then .error .IllegalArgumentException
  else if (p.bytes.length : ℤ) ≤ p.frame then .ok p.bytes
  else .error .BufferOverflowException

/-- The metadata of a put, in one form for both. -/
def putMetadata (p : Put) : Java ByteBuffer Unit := do
  ByteBuffer.rewind
  let byteBuffer ← MonadState.get
  if (byteBuffer.remaining : ℤ) < toInt32 p.frame then
    throw .ArithmeticException
  ByteBuffer.setLimit (toInt32 p.frame)
  ByteBuffer.putAll p.header

/-- Both puts are a header, the payload and a flip. -/
theorem run_eq (p : Put) : p.run = onBuffer (do
    Java.ignoring .ArithmeticException p.putMetadata
    ByteBuffer.putBytes p.src.remainingBytes
    ByteBuffer.flip) := by
  cases p with
  | msg src type seq =>
    have hmeta : (msg src type seq).putMetadata = putMetadataMsg src.remaining type seq := by
      simp only [putMetadata, putMetadataMsg, header, ByteBuffer.putAll, List.foldr, bind_pure_unit]
      rfl
    show putMsg src type seq = _
    rw [hmeta, putMsg, ByteBuffer.putBuffer, ByteBuffer.remainingBytes_slice]
    rfl
  | rdm src nameLength name type seq =>
    have hmeta : (rdm src nameLength name type seq).putMetadata =
        putMetadataRdm src.remaining nameLength name type seq := by
      simp only [putMetadata, putMetadataRdm, header, ByteBuffer.putAll, List.foldr, bind_pure_unit,
        ByteBuffer.putBuffer, ByteBuffer.remainingBytes_slice]
      rfl
    show putRdm src nameLength name type seq = _
    rw [hmeta, putRdm, ByteBuffer.putBuffer, ByteBuffer.remainingBytes_slice]
    rfl

theorem length_bytes (p : Put) : p.bytes.length = p.header.flatten.length + p.src.remaining := by
  rw [bytes, List.length_append, ByteBuffer.length_remainingBytes]

section Outcome

variable {p : Put} {b : ByteBuffer}

/-- A frame beyond the limit: the buffer is rewound, and that is all. -/
theorem putMetadata_of_lt (h : (b.limit : ℤ) < toInt32 p.frame) :
    ∃ b', p.putMetadata.run b = .error .ArithmeticException b' ∧ b'.written = [] ∧
      b'.limit = b.limit ∧ b'.content = b.content := by
  obtain ⟨b', hrun, hwritten, hlimit, hcontent⟩ := ByteBuffer.rewind_ok b
  have hpos : b'.position = 0 := by rw [← ByteBuffer.length_written, hwritten]; rfl
  have hlt : (b'.remaining : ℤ) < toInt32 p.frame := by
    rw [ByteBuffer.remaining, hpos, hlimit]
    exact h
  refine ⟨b', ?_, hwritten, hlimit, hcontent⟩
  have hget : (MonadState.get : Java ByteBuffer ByteBuffer).run b' = .ok b' b' := rfl
  rw [putMetadata, Java.bind_of_ok hrun, Java.bind_of_ok hget, if_pos hlt]
  rfl

/-- A frame within the limit: the limit is set before the header is written. -/
theorem putMetadata_of_le (h : toInt32 p.frame ≤ b.limit) :
    ∃ b', p.putMetadata.run b = (do
        ByteBuffer.setLimit (toInt32 p.frame)
        ByteBuffer.putAll p.header : Java ByteBuffer Unit).run b' ∧ b'.written = [] ∧
      b'.limit = b.limit ∧ b'.content = b.content := by
  obtain ⟨b', hrun, hwritten, hlimit, hcontent⟩ := ByteBuffer.rewind_ok b
  have hpos : b'.position = 0 := by rw [← ByteBuffer.length_written, hwritten]; rfl
  have hle : ¬ (b'.remaining : ℤ) < toInt32 p.frame := by
    rw [ByteBuffer.remaining, hpos, hlimit]
    exact not_lt.mpr h
  refine ⟨b', ?_, hwritten, hlimit, hcontent⟩
  have hget : (MonadState.get : Java ByteBuffer ByteBuffer).run b' = .ok b' b' := rfl
  rw [putMetadata, Java.bind_of_ok hrun, Java.bind_of_ok hget, if_neg hle]

/-- The payload and the flip, after what is written already. -/
theorem finish (b : ByteBuffer) (src : List UInt8) :
    (src.length ≤ b.remaining → ∃ b', (do
        ByteBuffer.putBytes src
        ByteBuffer.flip : Java ByteBuffer Unit).run b = .ok () b' ∧
          b'.remainingBytes = b.written ++ src) ∧
      (b.remaining < src.length → ∃ b', (do
        ByteBuffer.putBytes src
        ByteBuffer.flip : Java ByteBuffer Unit).run b = .error .BufferOverflowException b') := by
  constructor
  · intro h
    obtain ⟨b₁, hrun, hwritten, -⟩ := ByteBuffer.putBytes_ok h
    obtain ⟨b₂, hrun₂, hbytes, -⟩ := ByteBuffer.flip_ok b₁
    refine ⟨b₂, (Java.bind_of_ok hrun).trans hrun₂, hbytes.trans hwritten⟩
  · intro h
    exact ⟨b, Java.bind_of_error (ByteBuffer.putBytes_error h)⟩

/-- What a put does to the byte buffer. -/
def body (p : Put) : Java ByteBuffer Unit := do
  Java.ignoring .ArithmeticException p.putMetadata
  ByteBuffer.putBytes p.src.remainingBytes
  ByteBuffer.flip

theorem outcome_of_run {h h' : HpnlBuffer} (hrun : p.run.run h = .ok () h') :
    p.outcome h = .ok h'.byteBuffer.remainingBytes := by
  unfold outcome
  rw [show p.run h = .ok () h' from hrun]

theorem outcome_of_ok {h : HpnlBuffer} {b' : ByteBuffer}
    (hrun : p.body.run h.byteBuffer = .ok () b') :
    p.outcome h = .ok b'.remainingBytes := by
  have hp : p.run h = .ok () { h with byteBuffer := b' } := by
    rw [run_eq]
    exact Java.onField_of_ok hrun
  rw [outcome, hp]

theorem outcome_of_error {h : HpnlBuffer} {b' : ByteBuffer} {e : JavaException}
    (hrun : p.body.run h.byteBuffer = .error e b') : p.outcome h = .error e := by
  have hp : p.run h = .error e { h with byteBuffer := b' } := by
    rw [run_eq]
    exact Java.onField_of_error hrun
  rw [outcome, hp]

/-- A frame whose size, as an int, is beyond the limit: nothing precedes the payload. -/
theorem body_of_lt (h : (b.limit : ℤ) < toInt32 p.frame) :
    ∃ b', p.body.run b = (do
        ByteBuffer.putBytes p.src.remainingBytes
        ByteBuffer.flip : Java ByteBuffer Unit).run b' ∧ b'.written = [] ∧ b'.limit = b.limit ∧
      b'.content = b.content := by
  obtain ⟨b', hrun, hkept⟩ := putMetadata_of_lt h
  exact ⟨b', Java.bind_of_ok (Java.ignoring_of_caught hrun), hkept⟩

/-- A frame whose size, as an int, is negative: the limit is refused. -/
theorem body_of_neg (h : toInt32 p.frame < 0) :
    ∃ b', p.body.run b = .error .IllegalArgumentException b' ∧ b'.written = [] ∧
      b'.limit = b.limit ∧ b'.content = b.content := by
  have hle : toInt32 p.frame ≤ b.limit := h.le.trans (Int.natCast_nonneg _)
  obtain ⟨b', hrun, hkept⟩ := putMetadata_of_le hle
  have hlim : (ByteBuffer.setLimit (toInt32 p.frame)).run b' =
      .error .IllegalArgumentException b' :=
    ByteBuffer.setLimit_error fun h0 => absurd h0.1 (not_le.mpr h)
  rw [Java.bind_of_error hlim] at hrun
  have hthrown := Java.ignoring_of_error hrun (e := .ArithmeticException) (by decide)
  exact ⟨b', Java.bind_of_error hthrown, hkept⟩

/-- A frame within the limit: the limit is set, and the header comes next. -/
theorem putMetadata_limited (hle : toInt32 p.frame ≤ b.limit) (hneg : 0 ≤ toInt32 p.frame) :
    ∃ b', p.putMetadata.run b = (ByteBuffer.putAll p.header).run b' ∧ b'.written = [] ∧
      (b'.remaining : ℤ) = toInt32 p.frame ∧ (b'.limit : ℤ) = toInt32 p.frame ∧
      b'.content = b.content := by
  obtain ⟨b₁, hrun, hwritten₁, -, hcontent₁⟩ := putMetadata_of_le hle
  have hpos₁ : b₁.position = 0 := by rw [← ByteBuffer.length_written, hwritten₁]; rfl
  have hcap₁ : b₁.capacity = b.capacity := congrArg List.length hcontent₁
  have hcap := b.limit_le
  obtain ⟨b₂, hlim, hlimit₂, hpos₂, hcontent₂⟩ :=
    ByteBuffer.setLimit_ok (b := b₁) (n := toInt32 p.frame) hneg (by
      rw [hcap₁, ByteBuffer.capacity]
      omega)
  rw [hpos₁, Nat.zero_min] at hpos₂
  have hlimit : (b₂.limit : ℤ) = toInt32 p.frame := by
    rw [hlimit₂]
    exact Int.toNat_of_nonneg hneg
  refine ⟨b₂, hrun.trans (Java.bind_of_ok hlim), ?_, ?_, hlimit, hcontent₂.trans hcontent₁⟩
  · rw [ByteBuffer.written, hpos₂, List.take_zero]
  · rw [ByteBuffer.remaining, hpos₂, Nat.sub_zero, hlimit]

/-- A header that does not fit within the size of the frame: as much of it is written
as fits. -/
theorem body_of_header (hle : toInt32 p.frame ≤ b.limit) (hneg : 0 ≤ toInt32 p.frame)
    (hheader : toInt32 p.frame < p.header.flatten.length) :
    ∃ b', p.body.run b = .error .BufferOverflowException b' ∧
      (b'.limit : ℤ) = toInt32 p.frame ∧
      b'.written = ByteBuffer.fitting (toInt32 p.frame).toNat p.header ∧
      b'.content.drop b'.position = b.content.drop b'.position := by
  obtain ⟨b₁, hrun, hwritten₁, hrem₁, hlimit₁, hcontent₁⟩ := putMetadata_limited hle hneg
  have hlong : b₁.remaining < p.header.flatten.length := by omega
  obtain ⟨b₂, hall, hlimit₂, hwritten₂, hrest₂⟩ := ByteBuffer.putAll_error hlong
  have hthrown := Java.ignoring_of_error (e := .ArithmeticException) (hrun.trans hall) (by decide)
  refine ⟨b₂, Java.bind_of_error hthrown, hlimit₂ ▸ hlimit₁, ?_, hcontent₁ ▸ hrest₂⟩
  rw [hwritten₂, hwritten₁, List.nil_append, ← hrem₁, Int.toNat_natCast]

/-- The int that the code computes for a frame that fits a buffer is the frame's
size. -/
theorem toInt32_frame (hfits : p.frame ≤ b.capacity) : toInt32 p.frame = p.frame := by
  have hcap : b.capacity < 2 ^ 31 := b.capacity_lt
  have hlow : -2 ^ 31 ≤ p.frame := by
    cases p with
    | msg src type seq =>
      simp only [frame, METADATA_SIZE]
      omega
    | rdm src nameLength name type seq =>
      have hn := nameLength.le_toInt
      simp only [frame, METADATA_SIZE]
      omega
  exact toInt32_eq_self hlow (by omega)

/-- A frame whose size, as an int, is beyond the limit: the payload alone, at the old
limit. -/
theorem outcome_of_lt_toInt32 {h : HpnlBuffer}
    (hlt : (h.byteBuffer.limit : ℤ) < toInt32 p.frame) : p.outcome h =
      if p.src.remaining ≤ h.byteBuffer.limit then .ok p.src.remainingBytes
      else .error .BufferOverflowException := by
  obtain ⟨b₁, hbody, hwritten, hlimit, -⟩ := body_of_lt hlt
  have hrem : b₁.remaining = h.byteBuffer.limit := by
    rw [ByteBuffer.remaining, ← ByteBuffer.length_written, hwritten, hlimit]
    rfl
  obtain ⟨hok, herr⟩ := finish b₁ p.src.remainingBytes
  rw [ByteBuffer.length_remainingBytes, hrem] at hok herr
  by_cases hsrc : p.src.remaining ≤ h.byteBuffer.limit
  · obtain ⟨b₂, hrun, hbytes⟩ := hok hsrc
    rw [if_pos hsrc, outcome_of_ok (hbody.trans hrun), hbytes, hwritten]
    rfl
  · obtain ⟨b₂, hrun⟩ := herr (Nat.not_le.mp hsrc)
    rw [if_neg hsrc, outcome_of_error (hbody.trans hrun)]

/-- A frame beyond the limit: the payload alone, at the old limit. -/
theorem outcome_of_lt {h : HpnlBuffer} (hfits : p.frame ≤ h.byteBuffer.capacity)
    (hlt : (h.byteBuffer.limit : ℤ) < p.frame) : p.outcome h =
      if p.src.remaining ≤ h.byteBuffer.limit then .ok p.src.remainingBytes
      else .error .BufferOverflowException :=
  outcome_of_lt_toInt32 ((toInt32_frame hfits).symm ▸ hlt)

/-- A frame whose size, as an int, is negative. -/
theorem outcome_of_neg_toInt32 {h : HpnlBuffer} (hneg : toInt32 p.frame < 0) :
    p.outcome h = .error .IllegalArgumentException := by
  obtain ⟨b', hbody, -⟩ := body_of_neg (b := h.byteBuffer) hneg
  exact outcome_of_error hbody

/-- A frame within the limit whose size is negative: a `nameLength` that is no
length. -/
theorem outcome_of_neg {h : HpnlBuffer} (hfits : p.frame ≤ h.byteBuffer.capacity)
    (hneg : p.frame < 0) : p.outcome h = .error .IllegalArgumentException :=
  outcome_of_neg_toInt32 ((toInt32_frame hfits).symm ▸ hneg)

/-- A frame within the limit: it is written, unless the bytes that are written are
more than it announces. -/
theorem outcome_of_le {h : HpnlBuffer} (hfits : p.frame ≤ h.byteBuffer.capacity)
    (hle : p.frame ≤ h.byteBuffer.limit) (hneg : 0 ≤ p.frame) : p.outcome h =
      if (p.bytes.length : ℤ) ≤ p.frame then .ok p.bytes else .error .BufferOverflowException := by
  have hint := toInt32_frame hfits
  have hle' : toInt32 p.frame ≤ h.byteBuffer.limit := hint.symm ▸ hle
  have hneg' : 0 ≤ toInt32 p.frame := hint.symm ▸ hneg
  have hlen := p.length_bytes
  by_cases hheader : (p.header.flatten.length : ℤ) ≤ p.frame
  · obtain ⟨b₁, hrun, hwritten₁, hrem₁, -⟩ := putMetadata_limited hle' hneg'
    rw [hint] at hrem₁
    have hroom : p.header.flatten.length ≤ b₁.remaining := by omega
    obtain ⟨b₂, hall, hwritten₂, hlimit₂, hpos₂, -⟩ := ByteBuffer.putAll_ok hroom
    rw [hwritten₁, List.nil_append] at hwritten₂
    have hmeta := Java.ignoring_of_ok (e := .ArithmeticException) (hrun.trans hall)
    have hrem₂ : b₂.remaining = b₁.remaining - p.header.flatten.length := by
      simp only [ByteBuffer.remaining, hlimit₂, hpos₂]
      omega
    obtain ⟨hok, herr⟩ := finish b₂ p.src.remainingBytes
    rw [ByteBuffer.length_remainingBytes, hrem₂] at hok herr
    by_cases hroom : (p.bytes.length : ℤ) ≤ p.frame
    · obtain ⟨b₃, hrun₃, hbytes⟩ := hok (by omega)
      rw [if_pos hroom, outcome_of_ok ((Java.bind_of_ok hmeta).trans hrun₃), hbytes, hwritten₂]
      rfl
    · obtain ⟨b₃, hrun₃⟩ := herr (by omega)
      rw [if_neg hroom, outcome_of_error ((Java.bind_of_ok hmeta).trans hrun₃)]
  · obtain ⟨b₁, hbody, -⟩ := body_of_header hle' hneg' (by omega)
    rw [if_neg (by omega), outcome_of_error hbody]

/-- **What a put yields** on a buffer that is large enough is determined by the
limit that earlier calls left behind. -/
theorem outcome_eq (p : Put) (h : HpnlBuffer) (hfits : p.frame ≤ h.byteBuffer.capacity) :
    p.outcome h = p.outcomeOn h.byteBuffer.limit := by
  unfold outcomeOn
  by_cases hlt : (h.byteBuffer.limit : ℤ) < p.frame
  · rw [if_pos hlt, outcome_of_lt hfits hlt]
  · have hle := not_lt.mp hlt
    rw [if_neg hlt]
    by_cases hneg : p.frame < 0
    · rw [if_pos hneg, outcome_of_neg hfits hneg]
    · rw [if_neg hneg, outcome_of_le hfits hle (not_lt.mp hneg)]

end Outcome

end Put

end HpnlBuffer

end Hpnl
