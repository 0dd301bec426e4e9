import Hpnl.HpnlBuffer.RoundTrip

/-!
# Frames that do not fit

`putMetadata` compares the size of a frame with the limit after it has rewound the
buffer.  The exception with which it refuses the frame is caught in `put`, which then
copies the payload to the start of the buffer.

* `Put.transmitted` — what `Connection.send` hands to the native layer.
* `Refuses`, `refuses_iff` — when a put of a frame that does not fit throws and leaves
  the buffer as it was.
* `ReportsErrors`, `reportsErrors_iff` — **every put that fails is reported and every
  put that returns has written a frame, exactly when** `Handled` holds of the frame and
  the position and limit that it meets.
-/

namespace Hpnl

open MachineInt

namespace HpnlBuffer

/-- What `Connection.send` hands to the native layer after a put: `size()` bytes from
the start of the buffer, unless the put throws. -/
def Put.transmitted (p : Put) (h : HpnlBuffer) : Option (List UInt8) :=
  match p.run h with
  | .ok _ h' => some (h'.byteBuffer.content.take h'.size)
  | .error _ _ => none

/-- The put throws, and the buffer has the content, the position and the limit that it
had. -/
structure Refuses (p : Put) (h : HpnlBuffer) : Prop where
  throws : ∃ e, p.outcome h = .error e
  content : (h.perform (.put p)).byteBuffer.content = h.byteBuffer.content
  position : (h.perform (.put p)).byteBuffer.position = h.byteBuffer.position
  limit : (h.perform (.put p)).byteBuffer.limit = h.byteBuffer.limit

/-- A frame that does not fit is refused; a put that returns has written a complete
frame, whose header announces the name that follows it, and that is what is sent. -/
structure ReportsErrors (p : Put) (h : HpnlBuffer) : Prop where
  oversize : (h.byteBuffer.capacity : ℤ) < p.frame → Refuses p h
  complete : ∀ bs, p.outcome h = .ok bs → bs = p.bytes ∧ p.Proper
  sent : ∀ bs, p.transmitted h = some bs → bs = p.bytes ∧ p.Proper

/-- What the buffer must look like for a frame that does not fit to be refused.  The
size is the one that the code computes, as an `int`. -/
def RefusesAt (p : Put) (b : ByteBuffer) : Prop :=
  if toInt32 p.frame < 0 then b.position = 0
  else if b.limit < toInt32 p.frame then b.position = 0 ∧ b.limit < p.src.remaining
  else b.limit = toInt32 p.frame ∧ b.written = ByteBuffer.fitting b.limit p.header

instance (p : Put) (b : ByteBuffer) : Decidable (RefusesAt p b) := by
  unfold RefusesAt
  infer_instance

/-- What the code needs of a frame and of the buffer that it meets. -/
def Handled (p : Put) (b : ByteBuffer) : Prop :=
  if p.frame ≤ b.capacity then
    (p.frame ≤ b.limit → p.frame ≤ p.bytes.length) ∧
      ((b.limit : ℤ) < p.frame → b.limit < p.src.remaining)
  else RefusesAt p b

instance (p : Put) (b : ByteBuffer) : Decidable (Handled p b) := by
  unfold Handled
  infer_instance

section Refuses

variable {p : Put} {h : HpnlBuffer}

theorem perform_of_error {b' : ByteBuffer} {e : JavaException}
    (hbody : p.body.run h.byteBuffer = .error e b') :
    (h.perform (.put p)).byteBuffer = b' := by
  have hrun : p.run.run h = .error e { h with byteBuffer := b' } := by
    rw [Put.run_eq]
    exact Java.onField_of_error hbody
  rw [perform, Java.after_of_error hrun]

/-- A put that throws and leaves `b'` behind refuses its frame if and only if `b'` is
the buffer that it met. -/
theorem refuses_of_error {b' : ByteBuffer} {e : JavaException}
    (hbody : p.body.run h.byteBuffer = .error e b')
    (hrest : b'.content.drop b'.position = h.byteBuffer.content.drop b'.position) :
    Refuses p h ↔ b'.limit = h.byteBuffer.limit ∧ b'.written = h.byteBuffer.written := by
  have hafter := perform_of_error hbody
  constructor
  · rintro ⟨-, hcontent, hposition, hlimit⟩
    rw [hafter] at hcontent hposition hlimit
    refine ⟨hlimit, ?_⟩
    rw [ByteBuffer.written, hcontent, hposition, ByteBuffer.written]
  · rintro ⟨hlimit, hwritten⟩
    have hsame : b' = h.byteBuffer := ByteBuffer.eq_of_written hlimit hwritten hrest
    refine ⟨⟨e, Put.outcome_of_error hbody⟩, ?_, ?_, ?_⟩ <;> rw [hafter, hsame]

/-- The buffer was rewound before the put threw. -/
theorem refuses_of_rewound {b' : ByteBuffer} {e : JavaException}
    (hbody : p.body.run h.byteBuffer = .error e b') (hwritten : b'.written = [])
    (hlimit : b'.limit = h.byteBuffer.limit) (hcontent : b'.content = h.byteBuffer.content) :
    Refuses p h ↔ h.byteBuffer.position = 0 := by
  rw [refuses_of_error hbody (by rw [hcontent]), hwritten]
  constructor
  · rintro ⟨-, hnil⟩
    rw [← ByteBuffer.length_written, ← hnil, List.length_nil]
  · intro hzero
    refine ⟨hlimit, ?_⟩
    rw [ByteBuffer.written, hzero, List.take_zero]

/-- A header is longer than what is left of a size beyond 2³². -/
theorem toInt32_lt_header (hbig : (h.byteBuffer.capacity : ℤ) < p.frame)
    (hneg : 0 ≤ toInt32 p.frame) (hle : toInt32 p.frame ≤ h.byteBuffer.limit) :
    toInt32 p.frame < p.header.flatten.length := by
  have hcap : h.byteBuffer.limit ≤ h.byteBuffer.capacity := h.byteBuffer.limit_le
  have hsrc : p.src.remaining < 2 ^ 31 := by
    have hlimit := p.src.limit_le
    have hlt := p.src.capacity_lt
    unfold ByteBuffer.remaining
    omega
  cases p with
  | msg src type seq =>
    simp only [Put.frame, METADATA_SIZE, Put.src, toInt32] at *
    omega
  | rdm src nameLength name type seq =>
    have hn := nameLength.toInt_lt
    simp only [Put.frame, METADATA_SIZE, Put.src, toInt32] at *
    simp only [Put.header, List.flatten_cons, List.flatten_nil, List.length_append,
      List.length_cons, List.length_nil, BigEndian.length_toBytes]
    omega

/-- **When a frame that does not fit is refused.** -/
theorem refuses_iff (hbig : (h.byteBuffer.capacity : ℤ) < p.frame) :
    Refuses p h ↔ RefusesAt p h.byteBuffer := by
  unfold RefusesAt
  by_cases hneg : toInt32 p.frame < 0
  · -- the limit is refused, after the rewind
    obtain ⟨b', hbody, hwritten, hlimit, hcontent⟩ := Put.body_of_neg (b := h.byteBuffer) hneg
    rw [if_pos hneg]
    exact refuses_of_rewound hbody hwritten hlimit hcontent
  rw [if_neg hneg]
  by_cases hlt : (h.byteBuffer.limit : ℤ) < toInt32 p.frame
  · -- the exception is caught, and the payload is copied
    obtain ⟨b', hbody, hwritten, hlimit, hcontent⟩ := Put.body_of_lt hlt
    have hrem : b'.remaining = h.byteBuffer.limit := by
      rw [ByteBuffer.remaining, ← ByteBuffer.length_written, hwritten, hlimit]
      rfl
    rw [if_pos hlt]
    by_cases hsrc : h.byteBuffer.limit < p.src.remaining
    · have hover : (ByteBuffer.putBytes p.src.remainingBytes).run b' =
          .error .BufferOverflowException b' :=
        ByteBuffer.putBytes_error (by rw [ByteBuffer.length_remainingBytes, hrem]; exact hsrc)
      rw [refuses_of_rewound (hbody.trans (Java.bind_of_error hover)) hwritten hlimit hcontent,
        and_iff_left hsrc]
    · refine iff_of_false ?_ fun hsafe => hsrc hsafe.2
      rintro ⟨⟨e, hthrown⟩, -⟩
      rw [Put.outcome_of_lt_toInt32 hlt, if_pos (Nat.not_lt.mp hsrc)] at hthrown
      cases hthrown
  · -- the size has wrapped around: part of the header is written
    have hle := not_lt.mp hlt
    have hpos := not_lt.mp hneg
    obtain ⟨b', hbody, hlimit, hwritten, hrest⟩ :=
      Put.body_of_header hle hpos (toInt32_lt_header hbig hpos hle)
    rw [if_neg hlt, refuses_of_error hbody hrest, hwritten]
    constructor
    · rintro ⟨hsame, hfit⟩
      have hint : (h.byteBuffer.limit : ℤ) = toInt32 p.frame := hsame ▸ hlimit
      refine ⟨hint, ?_⟩
      rw [← hfit, ← hint, Int.toNat_natCast]
    · rintro ⟨hint, hfit⟩
      refine ⟨by omega, ?_⟩
      rw [hfit, ← hint, Int.toNat_natCast]

end Refuses

/-! ## Puts that return -/

section Complete

variable {p : Put} {h : HpnlBuffer}

/-- What is sent is what lies between position and limit. -/
theorem transmitted_eq_some {bs : List UInt8} :
    p.transmitted h = some bs ↔ p.outcome h = .ok bs := by
  unfold Put.transmitted
  cases hrun : p.run h with
  | ok u h' =>
    have hout : p.outcome h = .ok h'.byteBuffer.remainingBytes := Put.outcome_of_run hrun
    obtain ⟨hpos, -⟩ := limit_put hout
    rw [show h.perform (.put p) = h' from Java.after_of_ok hrun] at hpos
    have hsent : h'.byteBuffer.content.take h'.size = h'.byteBuffer.remainingBytes := by
      rw [size, ByteBuffer.remaining, ByteBuffer.remainingBytes, hpos, List.drop_zero,
        Nat.sub_zero]
    rw [hout]
    dsimp only
    rw [hsent]
    simp
  | error e h' =>
    unfold Put.outcome
    rw [hrun]
    simp

theorem proper_iff : p.Proper ↔ p.frame = p.bytes.length := by
  refine ⟨Put.frame_of_proper, fun hlen => ?_⟩
  rw [Put.length_bytes] at hlen
  cases p with
  | msg src type seq => trivial
  | rdm src nameLength name type seq =>
    simp only [Put.frame, Put.header, Put.src, METADATA_SIZE, List.flatten_cons,
      List.flatten_nil, List.length_append, List.length_cons, List.length_nil,
      BigEndian.length_toBytes, ByteBuffer.length_remainingBytes] at hlen
    show nameLength.toInt = name.remaining
    omega

/-- A frame that fits the buffer: what the put writes is complete unless the limit has
room for the payload alone, or the name is shorter than announced. -/
theorem complete_iff (hfits : p.frame ≤ h.byteBuffer.capacity) :
    (∀ bs, p.outcome h = .ok bs → bs = p.bytes ∧ p.Proper) ↔
      (p.frame ≤ h.byteBuffer.limit → p.frame ≤ p.bytes.length) ∧
        ((h.byteBuffer.limit : ℤ) < p.frame → h.byteBuffer.limit < p.src.remaining) := by
  have hshort := p.src_lt_bytes
  rw [Put.outcome_eq p h hfits, proper_iff]
  unfold Put.outcomeOn
  by_cases hlt : (h.byteBuffer.limit : ℤ) < p.frame
  · rw [if_pos hlt]
    by_cases hsrc : p.src.remaining ≤ h.byteBuffer.limit
    · -- the bare payload is no frame
      rw [if_pos hsrc]
      refine iff_of_false (fun hall => ?_) (fun hall => absurd (hall.2 hlt) (by omega))
      have hlen := congrArg List.length (hall _ rfl).1
      rw [ByteBuffer.length_remainingBytes] at hlen
      omega
    · rw [if_neg hsrc]
      exact iff_of_true (fun bs hok => by cases hok) ⟨fun hle => by omega, fun _ => by omega⟩
  · rw [if_neg hlt]
    by_cases hneg : p.frame < 0
    · rw [if_pos hneg]
      exact iff_of_true (fun bs hok => by cases hok) ⟨fun _ => by omega, fun hlt' => by omega⟩
    · rw [if_neg hneg]
      by_cases hroom : (p.bytes.length : ℤ) ≤ p.frame
      · rw [if_pos hroom]
        constructor
        · intro hall
          obtain ⟨-, hlen⟩ := hall _ rfl
          exact ⟨fun _ => by omega, fun hlt' => by omega⟩
        · rintro ⟨hlen, -⟩ bs hok
          cases hok
          exact ⟨rfl, by omega⟩
      · rw [if_neg hroom]
        exact iff_of_true (fun bs hok => by cases hok) ⟨fun _ => by omega, fun hlt' => by omega⟩

end Complete

/-- **When a put handles its errors.** -/
theorem reportsErrors_iff (p : Put) (h : HpnlBuffer) :
    ReportsErrors p h ↔ Handled p h.byteBuffer := by
  unfold Handled
  by_cases hfits : p.frame ≤ h.byteBuffer.capacity
  · rw [if_pos hfits, ← complete_iff hfits]
    constructor
    · intro hreports
      exact hreports.complete
    · intro hcomplete
      refine ⟨fun hbig => absurd hbig (not_lt.mpr hfits), hcomplete, ?_⟩
      intro bs hsent
      exact hcomplete bs (transmitted_eq_some.mp hsent)
  · have hbig := not_le.mp hfits
    rw [if_neg hfits, ← refuses_iff hbig]
    constructor
    · intro hreports
      exact hreports.oversize hbig
    · intro hrefuses
      obtain ⟨e, hthrown⟩ := hrefuses.throws
      have hcomplete : ∀ bs, p.outcome h = .ok bs → bs = p.bytes ∧ p.Proper := by
        intro bs hok
        rw [hthrown] at hok
        cases hok
      exact ⟨fun _ => hrefuses, hcomplete, fun bs hsent =>
        hcomplete bs (transmitted_eq_some.mp hsent)⟩

/-- A message of 28 bytes, put into a new buffer of 32, goes out without a header. -/
theorem not_reportsErrors_headless :
    let buffer := fresh (ByteBuffer.wrap (List.replicate 32 0) (by decide))
    let message := Put.msg (ByteBuffer.wrap (List.replicate 28 7) (by decide)) 1 2
    message.transmitted buffer = some (List.replicate 28 7) ∧ ¬ ReportsErrors message buffer := by
  refine ⟨by decide +kernel, ?_⟩
  intro hreports
  have hsent := hreports.sent (List.replicate 28 7) (by decide +kernel)
  exact absurd hsent.1 (by decide +kernel)

end HpnlBuffer

end Hpnl
