import Hpnl.HpnlBuffer.Basic

/-!
# Buffers that are used again

Send buffers are recycled: a `put` meets the position and limit that earlier
calls left behind.  It rewinds the position, but it compares the size of its
frame with the limit, and the `ArithmeticException` that reports a frame too large
is caught before the payload is written.

* `Call`, `history` — any calls made on a buffer before.
* `capacity_history` — no call changes the capacity; `limit_put`, `limit_get` —
  the limit a call leaves behind.
* `put_as_fresh` — **a put yields what it yields on a fresh buffer if and only if
  its frame fits within the limit left behind** (or overflows either way).
-/

namespace Hpnl

open MachineInt

namespace HpnlBuffer

/-- A call on a buffer. -/
inductive Call where
  | put (p : Put)
  | get (blockBufferSize : ℤ)
  deriving DecidableEq

/-- The buffer after a call, whether it returned or threw. -/
def perform (h : HpnlBuffer) : Call → HpnlBuffer
  | .put p => p.run.after h
  | .get n => (get n).after h

/-- The buffer after a list of calls. -/
def history (h : HpnlBuffer) (calls : List Call) : HpnlBuffer := calls.foldl perform h

/-- A freshly allocated buffer of the same capacity. -/
def fresh (b : ByteBuffer) : HpnlBuffer :=
  { byteBuffer := ByteBuffer.wrap (List.replicate b.capacity 0) (by
      rw [List.length_replicate]
      exact b.capacity_lt) }

@[simp] theorem capacity_fresh (b : ByteBuffer) : (fresh b).byteBuffer.capacity = b.capacity :=
  List.length_replicate

@[simp] theorem limit_fresh (b : ByteBuffer) : (fresh b).byteBuffer.limit = b.capacity :=
  List.length_replicate

/-! ## What a call leaves behind -/

section Keeps

variable {I : ByteBuffer → Prop}

theorem keeps_onBuffer {α : Type} {x : Java ByteBuffer α} (hx : Java.Keeps I x) :
    Java.Keeps (fun h : HpnlBuffer => I h.byteBuffer) (onBuffer x) :=
  Java.keeps_onField (fun _ hs => hs) (fun _ _ _ ht => ht) hx

theorem keeps_onName {α : Type} (x : Java ByteBuffer α) :
    Java.Keeps (fun h : HpnlBuffer => I h.byteBuffer) (onName x) := by
  intro h hh
  unfold Java.after onName
  cases hname : h.name with
  | none => exact hh
  | some name =>
    unfold Java.onField
    dsimp only
    cases x name <;> exact hh

theorem keeps_setName (nameLength : Int32) (nameTmp : List UInt8) :
    Java.Keeps (fun h : HpnlBuffer => I h.byteBuffer) (setName nameLength nameTmp) := by
  refine Java.keeps_bind Java.keeps_get fun this => ?_
  have hput : Java.Keeps (fun h : HpnlBuffer => I h.byteBuffer) (do
      onName (ByteBuffer.putBytes nameTmp)
      onName ByteBuffer.flip) :=
    Java.keeps_bind (keeps_onName _) fun _ => keeps_onName _
  refine Java.keeps_ite ?_ hput
  refine Java.keeps_bind (ByteBuffer.keeps_allocate _) fun name => ?_
  exact Java.keeps_bind (Java.keeps_modify fun _ hh => hh) fun _ => hput

/-- Once the limit is set, `get` only moves the position of the buffer. -/
theorem keeps_getFrame (hI : ∀ b n h, I b → I (ByteBuffer.skip b n h)) :
    Java.Keeps (fun h : HpnlBuffer => I h.byteBuffer) getFrame := by
  have hrest : Java.Keeps (fun h : HpnlBuffer => I h.byteBuffer) getRest := by
    refine Java.keeps_bind (keeps_onBuffer (ByteBuffer.keeps_get hI)) fun type => ?_
    refine Java.keeps_bind (Java.keeps_modify fun _ hh => hh) fun _ => ?_
    refine Java.keeps_bind (keeps_onBuffer (ByteBuffer.keeps_getLong hI)) fun seq => ?_
    refine Java.keeps_bind (Java.keeps_modify fun _ hh => hh) fun _ => ?_
    exact Java.keeps_bind Java.keeps_get fun _ => Java.keeps_pure _
  refine Java.keeps_bind (keeps_onBuffer (ByteBuffer.keeps_get hI)) fun tag => ?_
  refine Java.keeps_ite hrest ?_
  refine Java.keeps_bind (keeps_onBuffer (ByteBuffer.keeps_getInt hI)) fun nameLength => ?_
  refine Java.keeps_bind (Java.keeps_modify fun _ hh => hh) fun _ => ?_
  refine Java.keeps_bind (keeps_onBuffer (ByteBuffer.keeps_getArray hI nameLength)) fun tmp => ?_
  exact Java.keeps_bind (keeps_setName nameLength tmp) fun _ => hrest

end Keeps

theorem keeps_body {c : ℕ} (p : Put) : Java.Keeps (fun b => b.capacity = c) p.body := by
  have hall : ∀ pieces : List (List UInt8),
      Java.Keeps (fun b => ByteBuffer.capacity b = c) (ByteBuffer.putAll pieces) := by
    intro pieces
    induction pieces with
    | nil => exact Java.keeps_pure ()
    | cons bs pieces ih => exact Java.keeps_bind (ByteBuffer.keeps_putBytes bs) fun _ => ih
  have hmeta : Java.Keeps (fun b => ByteBuffer.capacity b = c) p.putMetadata := by
    refine Java.keeps_bind ByteBuffer.keeps_rewind fun _ => ?_
    refine Java.keeps_bind Java.keeps_get fun b => ?_
    have hrest := Java.keeps_bind
      (ByteBuffer.keeps_setLimit (I := fun l => l.length = c) (toInt32 p.frame))
      fun _ => hall p.header
    exact Java.keeps_ite (Java.keeps_bind (Java.keeps_throw _) fun _ => hrest) hrest
  refine Java.keeps_bind (Java.keeps_ignoring hmeta) fun _ => ?_
  exact Java.keeps_bind (ByteBuffer.keeps_putBytes _) fun _ => ByteBuffer.keeps_flip

/-- `get` changes no byte. -/
theorem content_get (h : HpnlBuffer) (n : ℤ) :
    ((get n).after h).byteBuffer.content = h.byteBuffer.content := by
  have hframe := keeps_getFrame (I := fun b => b.content = h.byteBuffer.content)
    fun _ _ _ hb => hb
  have hlimit := Java.keeps_bind (keeps_onBuffer
    (ByteBuffer.keeps_setLimit (I := fun l => l = h.byteBuffer.content) n)) fun _ => hframe
  exact Java.keeps_bind (keeps_onBuffer
    (ByteBuffer.keeps_setPosition (I := fun l => l = h.byteBuffer.content) 0)) (fun _ => hlimit)
    h rfl

/-- No call changes the capacity. -/
theorem capacity_perform (h : HpnlBuffer) (call : Call) :
    (h.perform call).byteBuffer.capacity = h.byteBuffer.capacity := by
  cases call with
  | put p =>
    have hkeep := keeps_onBuffer (keeps_body (c := h.byteBuffer.capacity) p) h rfl
    rw [perform, Put.run_eq]
    exact hkeep
  | get n =>
    exact congrArg List.length (content_get h n)

theorem capacity_history (h : HpnlBuffer) (calls : List Call) :
    (h.history calls).byteBuffer.capacity = h.byteBuffer.capacity := by
  induction calls generalizing h with
  | nil => rfl
  | cons call calls ih => exact (ih (h.perform call)).trans (capacity_perform h call)

/-- A put that returns leaves the buffer at the start of what it has written, with
the limit at its end. -/
theorem limit_put {h : HpnlBuffer} {p : Put} {bs : List UInt8} (hok : p.outcome h = .ok bs) :
    (h.perform (.put p)).byteBuffer.position = 0 ∧
      (h.perform (.put p)).byteBuffer.limit = bs.length := by
  cases hrun : p.run h with
  | error e h' =>
    rw [Put.outcome, hrun] at hok
    exact absurd hok (by simp)
  | ok u h' =>
    rw [Put.outcome, hrun, Except.ok.injEq] at hok
    have hafter : h.perform (.put p) = h' := Java.after_of_ok hrun
    have hpos : h'.byteBuffer.position = 0 := by
      cases hbody : p.body.run h.byteBuffer with
      | error e b' =>
        have herr : (onBuffer p.body).run h = .error e { h with byteBuffer := b' } :=
          Java.onField_of_error hbody
        rw [Put.run_eq] at hrun
        exact absurd (herr.symm.trans hrun) (by simp)
      | ok u b' =>
        have hfield : (onBuffer p.body).run h = .ok u { h with byteBuffer := b' } :=
          Java.onField_of_ok hbody
        rw [Put.run_eq] at hrun
        obtain ⟨-, b₁, -, hfin⟩ := Java.ok_of_bind hbody
        obtain ⟨-, b₂, -, hflip⟩ := Java.ok_of_bind hfin
        obtain ⟨b₃, hflip', -, -, hpos, -⟩ := ByteBuffer.flip_ok b₂
        have hb : b₃ = b' := (EStateM.Result.ok.inj (hflip'.symm.trans hflip)).2
        have hh : { h with byteBuffer := b' } = h' :=
          (EStateM.Result.ok.inj (hfield.symm.trans hrun)).2
        rw [← hh, ← hb]
        exact hpos
    rw [hafter, ← hok, ByteBuffer.length_remainingBytes, ByteBuffer.remaining, hpos]
    exact ⟨rfl, rfl⟩

/-- A `get` of a length within the capacity leaves that length behind as the limit,
whatever it finds there. -/
theorem limit_get {h : HpnlBuffer} {n : ℤ} (h0 : 0 ≤ n) (hn : n ≤ h.byteBuffer.capacity) :
    (h.perform (.get n)).byteBuffer.limit = n.toNat := by
  obtain ⟨b₁, hpos, -, -, hcontent⟩ := ByteBuffer.setPosition_zero h.byteBuffer
  have hn₁ : n ≤ b₁.capacity := by
    rw [ByteBuffer.capacity, hcontent]
    exact hn
  obtain ⟨b₂, hlim, hlimit, -⟩ := ByteBuffer.setLimit_ok h0 hn₁
  have hrun₁ : (onBuffer (ByteBuffer.setPosition 0)).run h = .ok () { h with byteBuffer := b₁ } :=
    Java.onField_of_ok hpos
  have hrun₂ : (onBuffer (ByteBuffer.setLimit n)).run { h with byteBuffer := b₁ } =
      .ok () { h with byteBuffer := b₂ } := Java.onField_of_ok hlim
  have hget : (get n).after h = getFrame.after { h with byteBuffer := b₂ } :=
    Java.after_congr ((Java.bind_of_ok hrun₁).trans (Java.bind_of_ok hrun₂))
  have hkeep := keeps_getFrame (I := fun b => b.limit = n.toNat) (fun _ _ _ hb => hb)
    { h with byteBuffer := b₂ } hlimit
  show ((get n).after h).byteBuffer.limit = n.toNat
  rw [hget]
  exact hkeep

/-! ## Puts on a buffer that has been used -/

/-- What the code needs: the frame fits within the limit left behind.  (When the
name is longer than announced, so that the put overflows on a fresh buffer, it is
enough that the payload alone overflows too.) -/
def FitsLimit (p : Put) (limit : ℕ) : Prop :=
  p.frame ≤ limit ∨ p.frame < p.bytes.length ∧ limit < p.src.remaining

instance (p : Put) (limit : ℕ) : Decidable (FitsLimit p limit) :=
  inferInstanceAs (Decidable (_ ∨ _))

/-- A frame is longer than its payload. -/
theorem Put.src_lt_bytes (p : Put) : p.src.remaining < p.bytes.length := by
  rw [Put.length_bytes]
  cases p <;> simp [Put.header]

/-- The outcomes at two limits, the larger of which has room for the frame. -/
theorem Put.outcomeOn_eq_iff (p : Put) {limit capacity : ℕ} (hfits : p.frame ≤ capacity) :
    p.outcomeOn limit = p.outcomeOn capacity ↔ FitsLimit p limit := by
  have hcap : ¬ (capacity : ℤ) < p.frame := not_lt.mpr hfits
  by_cases hlt : (limit : ℤ) < p.frame
  · have hneg : ¬ p.frame < 0 := by omega
    have hsrc := p.src_lt_bytes
    unfold Put.outcomeOn FitsLimit
    rw [if_pos hlt, if_neg hcap, if_neg hneg]
    by_cases hpay : p.src.remaining ≤ limit
    · -- the payload is written without a header
      have hnot : ¬ (p.frame ≤ limit ∨ p.frame < p.bytes.length ∧ limit < p.src.remaining) := by
        omega
      rw [if_pos hpay, iff_false_intro hnot, iff_false]
      split
      · intro heq
        have hlen := congrArg List.length (Except.ok.inj heq)
        rw [ByteBuffer.length_remainingBytes] at hlen
        omega
      · exact fun heq => nomatch heq
    · rw [if_neg hpay]
      by_cases hlong : (p.bytes.length : ℤ) ≤ p.frame
      · have hnot : ¬ (p.frame ≤ limit ∨ p.frame < p.bytes.length ∧ limit < p.src.remaining) := by
          omega
        rw [if_pos hlong, iff_false_intro hnot, iff_false]
        exact fun heq => nomatch heq
      · rw [if_neg hlong]
        refine iff_of_true rfl (Or.inr ?_)
        omega
  · have hfit : FitsLimit p limit := Or.inl (not_lt.mp hlt)
    refine iff_of_true ?_ hfit
    unfold Put.outcomeOn
    rw [if_neg hlt, if_neg hcap]

/-- **When a used buffer is as good as a fresh one.**  After any calls on a buffer,
a put whose frame fits the capacity yields the same bytes (or throws the same
exception) as on a fresh buffer if and only if its frame fits within the limit
those calls left behind. -/
theorem put_as_fresh (h : HpnlBuffer) (calls : List Call) (p : Put)
    (hfits : p.frame ≤ h.byteBuffer.capacity) :
    p.outcome (h.history calls) = p.outcome (fresh h.byteBuffer) ↔
      FitsLimit p (h.history calls).byteBuffer.limit := by
  have hcap := capacity_history h calls
  rw [Put.outcome_eq p _ (hcap.symm ▸ hfits), Put.outcome_eq p (fresh h.byteBuffer)
    ((capacity_fresh h.byteBuffer).symm ▸ hfits), limit_fresh]
  exact p.outcomeOn_eq_iff hfits

/-- A message of 2 bytes, sent once and then once more. -/
theorem put_as_fresh_again :
    let buffer := fresh (ByteBuffer.wrap (List.replicate 32 0) (by decide))
    let message := Put.msg (ByteBuffer.wrap [7, 8] (by decide)) 1 2
    message.outcome (buffer.history [.put message]) = message.outcome (fresh buffer.byteBuffer) :=
  (put_as_fresh (fresh (ByteBuffer.wrap (List.replicate 32 0) (by decide)))
    [.put (Put.msg (ByteBuffer.wrap [7, 8] (by decide)) 1 2)]
    (Put.msg (ByteBuffer.wrap [7, 8] (by decide)) 1 2) (by decide)).mpr (by decide +kernel)

/-- After an empty message a message of 4 bytes goes out without its header. -/
theorem put_headless :
    let buffer := fresh (ByteBuffer.wrap (List.replicate 32 0) (by decide))
    let short := Put.msg (ByteBuffer.wrap [] (by decide)) 1 2
    let long := Put.msg (ByteBuffer.wrap [7, 8, 9, 10] (by decide)) 1 3
    long.outcome (buffer.history [.put short]) = .ok [7, 8, 9, 10] ∧
      long.outcome (buffer.history [.put short]) ≠ long.outcome (fresh buffer.byteBuffer) := by
  decide +kernel

end HpnlBuffer

end Hpnl
