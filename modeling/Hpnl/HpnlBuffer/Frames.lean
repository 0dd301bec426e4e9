import Hpnl.HpnlBuffer.RoundTrip

/-!
# Frames received one after the other

A receive buffer is posted again after each frame, and its `HpnlBuffer` decodes them
all.  The buffer for the names is allocated for the first name; flipping it leaves the
length of each name behind as its limit, and nothing clears it.

* `Reading`, `Put.read` — what the receiver of a frame reads.
* `read_msg`, `read_rdm`, `read_rdm_error` — one frame.
* `ReadsEach`, `readsEach_iff` — **every frame of a sequence is read as by a new
  `HpnlBuffer` if and only if no name is longer than the one before it**.
-/

namespace Hpnl

namespace HpnlBuffer

/-- What the receiver of a frame reads. -/
structure Reading where
  payload : List UInt8
  type : UInt8
  seq : UInt64
  /-- The name, of an RDM frame. -/
  name : Option (List UInt8)
  deriving DecidableEq

namespace Put

/-- The length of the name, of an RDM frame. -/
def nameSize : Put → Option ℕ
  | msg _ _ _ => none
  | rdm _ _ name _ _ => some name.remaining

/-- `getName()`, for a frame that has a name. -/
def readName : Put → Java HpnlBuffer (Option (List UInt8))
  | msg _ _ _ => pure none
  | rdm _ _ _ _ _ => do return some (← getName).remainingBytes

/-- The receiver of the frame: `get` of its length, and then the getters. -/
def read (p : Put) : Java HpnlBuffer Reading := do
  let payload ← HpnlBuffer.get p.bytes.length
  let name ← p.readName
  let this ← MonadState.get
  return ⟨payload.remainingBytes, this.type, this.seq, name⟩

/-- What reading the frame yields: what is read, or the exception. -/
def readOutcome (p : Put) (h : HpnlBuffer) : Except JavaException Reading :=
  match p.read h with
  | .ok reading _ => .ok reading
  | .error e _ => .error e

/-- What was put. -/
def reading : Put → Reading
  | msg src type seq => ⟨src.remainingBytes, type, seq, none⟩
  | rdm src _ name type seq => ⟨src.remainingBytes, type, seq, some name.remainingBytes⟩

end Put

/-- A frame is received: it is at the start of the buffer's memory.  Nothing longer
than the buffer is received. -/
def receive (h : HpnlBuffer) (p : Put) : HpnlBuffer :=
  if hfits : p.bytes.length ≤ h.byteBuffer.capacity then
    { h with byteBuffer := h.byteBuffer.store p.bytes hfits }
  else h

/-- A new `HpnlBuffer` that holds the same bytes. -/
def renewed (h : HpnlBuffer) : HpnlBuffer :=
  { byteBuffer := ByteBuffer.wrap h.byteBuffer.content h.byteBuffer.capacity_lt }

/-- The buffer after a frame has been received and read, also when reading threw. -/
def next (h : HpnlBuffer) (p : Put) : HpnlBuffer := p.read.after (h.receive p)

/-- The frame is read without an exception, and as it is by a new `HpnlBuffer`. -/
def ReadsAsNew (h : HpnlBuffer) (p : Put) : Prop :=
  ∃ reading, p.readOutcome (h.receive p) = .ok reading ∧
    p.readOutcome (h.receive p).renewed = .ok reading

/-- Every frame of a sequence is read as by a new `HpnlBuffer`. -/
def ReadsEach (h : HpnlBuffer) (frames : List Put) : Prop :=
  ∀ i (hi : i < frames.length), ReadsAsNew ((frames.take i).foldl next h) frames[i]

/-- No name is longer than the one before it, nor the first one than the room that is
left in the buffer for names. -/
def NamesShrink (h : HpnlBuffer) (frames : List Put) : Prop :=
  match h.name with
  | none => (frames.filterMap Put.nameSize).IsChain (· ≥ ·)
  | some name => frames.filterMap Put.nameSize = [] ∨
      name.position = 0 ∧ (name.limit :: frames.filterMap Put.nameSize).IsChain (· ≥ ·)

instance (h : HpnlBuffer) (frames : List Put) : Decidable (NamesShrink h frames) := by
  unfold NamesShrink
  split <;> infer_instance

/-! ## One frame -/

section Frame

variable {h : HpnlBuffer} {p : Put}

/-- The frame fits the buffer, and the announced length of its name is its length. -/
def Receivable (h : HpnlBuffer) (p : Put) : Prop :=
  p.Proper ∧ p.bytes.length ≤ h.byteBuffer.capacity

instance (h : HpnlBuffer) (p : Put) : Decidable (Receivable h p) :=
  inferInstanceAs (Decidable (_ ∧ _))

theorem bytes_prefix_store {b : ByteBuffer} {bs : List UInt8} (hfits : bs.length ≤ b.capacity) :
    bs <+: (b.store bs hfits).content :=
  List.prefix_append _ _

/-- Reading a frame comes down to `getFrame` on a buffer that holds just the frame. -/
theorem read_eq {r : HpnlBuffer} (hpre : p.bytes <+: r.byteBuffer.content) :
    ∃ b, b.remainingBytes = p.bytes ∧ p.read.run r = (do
        let payload ← getFrame
        let name ← p.readName
        let this ← MonadState.get
        return ⟨payload.remainingBytes, this.type, this.seq, name⟩ : Java HpnlBuffer Reading).run
          { r with byteBuffer := b } := by
  obtain ⟨b, hget, hb⟩ := get_of_prefix hpre
  refine ⟨b, hb, ?_⟩
  unfold Put.read
  cases hframe : getFrame.run { r with byteBuffer := b } with
  | ok payload r' =>
    rw [Java.bind_of_ok (hget.trans hframe), Java.bind_of_ok hframe]
  | error e r' =>
    rw [Java.bind_of_error (hget.trans hframe), Java.bind_of_error hframe]

/-- A message leaves the buffer for names alone. -/
theorem read_msg {r : HpnlBuffer} {src : ByteBuffer} {type : UInt8} {seq : UInt64}
    (hpre : (Put.msg src type seq).bytes <+: r.byteBuffer.content) :
    ∃ r', (Put.msg src type seq).read.run r = .ok (Put.msg src type seq).reading r' ∧
      r'.name = r.name := by
  obtain ⟨b, hb, hread⟩ := read_eq hpre
  obtain ⟨payload, r', hrun, hpayload, htype, hseq, hname⟩ :=
    getFrame_msg (h := { r with byteBuffer := b }) hb
  refine ⟨r', ?_, hname⟩
  have hpayload' : payload.remainingBytes = src.remainingBytes := hpayload
  rw [hread, Java.bind_of_ok hrun, Put.reading, ← hpayload', ← htype, ← hseq]
  rfl

section Rdm

variable {r : HpnlBuffer} {src name : ByteBuffer} {nameLength : Int32} {type : UInt8}
  {seq : UInt64}

/-- A name that fits is written where the position of the buffer for names stands. -/
theorem read_rdm (hproper : (Put.rdm src nameLength name type seq).Proper)
    (hpre : (Put.rdm src nameLength name type seq).bytes <+: r.byteBuffer.content)
    (hfits : NameFits r name.remaining) :
    ∃ r' buffer, (Put.rdm src nameLength name type seq).read.run r = .ok
        ⟨src.remainingBytes, type, seq, some (nameBefore r ++ name.remainingBytes)⟩ r' ∧
      r'.name = some buffer ∧ buffer.position = 0 ∧
        buffer.limit = (nameBefore r).length + name.remaining := by
  obtain ⟨b, hb, hread⟩ := read_eq hpre
  rw [← ByteBuffer.length_remainingBytes] at hfits
  have hlen : nameLength.toInt = name.remainingBytes.length := by
    rw [ByteBuffer.length_remainingBytes]
    exact hproper
  obtain ⟨payload, r', hrun, hpayload, htype, hseq, -, buffer, hbuffer, hbytes, hpos⟩ :=
    getFrame_rdm (h := { r with byteBuffer := b }) (by decide) hfits hlen
      (hb.trans (bytes_rdm src nameLength name type seq))
  have hgetName : getName.run r' = .ok buffer.slice r' := by
    have hslice : (do return (← MonadState.get).slice : Java ByteBuffer ByteBuffer).run buffer =
        .ok buffer.slice buffer := rfl
    rw [getName, onName_of_ok hbuffer hslice, ← hbuffer]
  have hreadName : (Put.rdm src nameLength name type seq).readName.run r' =
      .ok (some buffer.slice.remainingBytes) r' := Java.bind_of_ok hgetName
  refine ⟨r', buffer, ?_, hbuffer, hpos, ?_⟩
  · rw [hread, Java.bind_of_ok hrun, Java.bind_of_ok hreadName,
      ByteBuffer.remainingBytes_slice, hbytes, ← hpayload, ← htype, ← hseq]
    rfl
  · have hsize := congrArg List.length hbytes
    rw [ByteBuffer.length_remainingBytes, ByteBuffer.remaining, hpos, Nat.sub_zero,
      List.length_append, ByteBuffer.length_remainingBytes] at hsize
    exact hsize

/-- A name that does not fit: `get` throws. -/
theorem read_rdm_error (hproper : (Put.rdm src nameLength name type seq).Proper)
    (hpre : (Put.rdm src nameLength name type seq).bytes <+: r.byteBuffer.content)
    (hfits : ¬ NameFits r name.remaining) :
    ∃ r', (Put.rdm src nameLength name type seq).read.run r =
      .error .BufferOverflowException r' := by
  obtain ⟨b, hb, hread⟩ := read_eq hpre
  rw [← ByteBuffer.length_remainingBytes] at hfits
  have hlen : nameLength.toInt = name.remainingBytes.length := by
    rw [ByteBuffer.length_remainingBytes]
    exact hproper
  obtain ⟨r', hrun⟩ := getFrame_rdm_error (h := { r with byteBuffer := b }) hfits hlen
    (hb.trans (bytes_rdm src nameLength name type seq))
  exact ⟨r', hread.trans (Java.bind_of_error hrun)⟩

end Rdm

theorem prefix_receive (hp : Receivable h p) :
    p.bytes <+: (h.receive p).byteBuffer.content := by
  unfold receive
  rw [dif_pos hp.2]
  exact bytes_prefix_store hp.2

@[simp] theorem name_receive (h : HpnlBuffer) (p : Put) : (h.receive p).name = h.name := by
  unfold receive
  split <;> rfl

/-- A new `HpnlBuffer` reads what was put. -/
theorem read_renewed (hp : Receivable h p) :
    ∃ h', p.read.run (h.receive p).renewed = .ok p.reading h' := by
  have hpre : p.bytes <+: (h.receive p).renewed.byteBuffer.content := prefix_receive hp
  cases p with
  | msg src type seq =>
    obtain ⟨h', hrun, -⟩ := read_msg hpre
    exact ⟨h', hrun⟩
  | rdm src nameLength name type seq =>
    obtain ⟨h', buffer, hrun, -⟩ := read_rdm hp.1 hpre trivial
    exact ⟨h', hrun⟩

theorem readOutcome_eq_ok {r : HpnlBuffer} {reading : Reading} :
    p.readOutcome r = .ok reading ↔ ∃ r', p.read.run r = .ok reading r' := by
  have hrun : p.read.run r = p.read r := rfl
  unfold Put.readOutcome
  rw [hrun]
  cases p.read r <;> simp

theorem readsAsNew_iff (hp : Receivable h p) :
    ReadsAsNew h p ↔ ∃ h', p.read.run (h.receive p) = .ok p.reading h' := by
  have hnew := readOutcome_eq_ok.mpr (read_renewed hp)
  rw [← readOutcome_eq_ok]
  constructor
  · rintro ⟨reading, hread, hread'⟩
    rw [hread, ← hread', hnew]
  · intro hread
    exact ⟨p.reading, hread, hnew⟩

theorem not_readsAsNew_of_error {e : JavaException}
    (herror : p.readOutcome (h.receive p) = .error e) : ¬ ReadsAsNew h p := by
  rintro ⟨reading, hread, -⟩
  rw [herror] at hread
  cases hread

/-- **A name is read back if and only if** the buffer for names has room for it and is
at its start. -/
theorem readsAsNew_rdm {src name : ByteBuffer} {nameLength : Int32} {type : UInt8} {seq : UInt64}
    (hp : Receivable h (.rdm src nameLength name type seq)) :
    ReadsAsNew h (.rdm src nameLength name type seq) ↔
      NameFits h name.remaining ∧ nameBefore h = [] := by
  have hfits : NameFits (h.receive (.rdm src nameLength name type seq)) name.remaining ↔
      NameFits h name.remaining := by
    unfold NameFits
    rw [name_receive]
  have hbefore : nameBefore (h.receive (.rdm src nameLength name type seq)) = nameBefore h := by
    unfold nameBefore
    rw [name_receive]
  rw [readsAsNew_iff hp]
  by_cases hroom : NameFits h name.remaining
  · obtain ⟨h₁, buffer, hrun, -⟩ := read_rdm hp.1 (prefix_receive hp) (hfits.mpr hroom)
    rw [hbefore] at hrun
    constructor
    · rintro ⟨h', hrun'⟩
      have hsame := hrun.symm.trans hrun'
      simp only [EStateM.Result.ok.injEq, Put.reading, Reading.mk.injEq, Option.some.injEq] at hsame
      have hname : nameBefore h ++ name.remainingBytes = name.remainingBytes := hsame.1.2.2.2
      exact ⟨hroom, by simpa using hname⟩
    · rintro ⟨-, hnil⟩
      rw [hnil, List.nil_append] at hrun
      exact ⟨h₁, hrun⟩
  · obtain ⟨h₁, hrun⟩ := read_rdm_error hp.1 (prefix_receive hp) (mt hfits.mp hroom)
    refine iff_of_false ?_ fun hread => hroom hread.1
    rintro ⟨h', hrun'⟩
    cases hrun.symm.trans hrun'

/-- The buffer for names after a frame that was read. -/
theorem name_next (hp : Receivable h p) (hreads : ReadsAsNew h p) :
    match p with
    | .msg _ _ _ => (h.next p).name = h.name
    | .rdm _ _ name _ _ => ∃ buffer, (h.next p).name = some buffer ∧ buffer.position = 0 ∧
        buffer.limit = name.remaining := by
  cases p with
  | msg src type seq =>
    obtain ⟨h', hrun, hname⟩ := read_msg (prefix_receive hp)
    show (h.next (.msg src type seq)).name = h.name
    rw [next, Java.after_of_ok hrun, hname, name_receive]
  | rdm src nameLength name type seq =>
    obtain ⟨hfits, hbefore⟩ := (readsAsNew_rdm hp).mp hreads
    have hfits' : NameFits (h.receive (.rdm src nameLength name type seq)) name.remaining := by
      unfold NameFits at hfits ⊢
      rw [name_receive]
      exact hfits
    obtain ⟨h', buffer, hrun, hname, hpos, hlimit⟩ := read_rdm hp.1 (prefix_receive hp) hfits'
    refine ⟨buffer, ?_, hpos, ?_⟩
    · rw [next, Java.after_of_ok hrun, hname]
    · unfold nameBefore at hbefore hlimit
      rw [name_receive, hbefore, List.length_nil, Nat.zero_add] at hlimit
      exact hlimit

/-- Reading a frame changes no byte. -/
theorem content_next (h : HpnlBuffer) (p : Put) :
    (h.next p).byteBuffer.content = (h.receive p).byteBuffer.content := by
  have hget : Java.Keeps (fun g : HpnlBuffer => g.byteBuffer.content =
      (h.receive p).byteBuffer.content) (HpnlBuffer.get p.bytes.length) := by
    intro g hg
    exact (content_get g _).trans hg
  have hname : Java.Keeps (fun g : HpnlBuffer => g.byteBuffer.content =
      (h.receive p).byteBuffer.content) p.readName := by
    cases p with
    | msg src type seq => exact Java.keeps_pure none
    | rdm src nameLength name type seq =>
      exact Java.keeps_bind (keeps_onName (I := fun b => b.content = _) _) fun _ =>
        Java.keeps_pure _
  refine Java.keeps_bind hget (fun payload => ?_) (h.receive p) rfl
  refine Java.keeps_bind hname fun name => ?_
  exact Java.keeps_bind Java.keeps_get fun _ => Java.keeps_pure _

theorem capacity_next (h : HpnlBuffer) (p : Put) :
    (h.next p).byteBuffer.capacity = h.byteBuffer.capacity := by
  rw [ByteBuffer.capacity, content_next]
  unfold receive
  split
  · rename_i hfits
    unfold ByteBuffer.capacity at hfits ⊢
    simp only [ByteBuffer.store, List.length_append, List.length_drop]
    omega
  · rfl

end Frame

/-! ## A sequence of frames -/

@[simp] theorem readsEach_nil (h : HpnlBuffer) : ReadsEach h [] := fun _ hi => absurd hi (by simp)

theorem readsEach_cons {h : HpnlBuffer} {p : Put} {frames : List Put} :
    ReadsEach h (p :: frames) ↔ ReadsAsNew h p ∧ ReadsEach (h.next p) frames := by
  constructor
  · intro heach
    refine ⟨heach 0 (by simp), fun i hi => ?_⟩
    exact heach (i + 1) (by simpa using hi)
  · rintro ⟨hfirst, hrest⟩ i hi
    cases i with
    | zero => exact hfirst
    | succ i => exact hrest i (by simpa using hi)

/-- A name that was read back is the bound for the next one. -/
theorem namesShrink_of_room {h : HpnlBuffer} {buffer : ByteBuffer} (hname : h.name = some buffer)
    (hpos : buffer.position = 0) (frames : List Put) :
    NamesShrink h frames ↔
      (buffer.limit :: frames.filterMap Put.nameSize).IsChain (· ≥ ·) := by
  unfold NamesShrink
  rw [hname]
  dsimp only
  constructor
  · rintro (hnil | ⟨-, hchain⟩)
    · rw [hnil]
      exact List.isChain_singleton _
    · exact hchain
  · intro hchain
    exact Or.inr ⟨hpos, hchain⟩

/-- The first name must fit; each later one has the room of the one before it. -/
theorem namesShrink_rdm {h : HpnlBuffer} {src name : ByteBuffer} {nameLength : Int32}
    {type : UInt8} {seq : UInt64} {frames : List Put} :
    NamesShrink h (.rdm src nameLength name type seq :: frames) ↔
      (NameFits h name.remaining ∧ nameBefore h = []) ∧
        (name.remaining :: frames.filterMap Put.nameSize).IsChain (· ≥ ·) := by
  have hsizes : (Put.rdm src nameLength name type seq :: frames).filterMap Put.nameSize =
      name.remaining :: frames.filterMap Put.nameSize := rfl
  unfold NamesShrink NameFits nameBefore
  rw [hsizes]
  cases h.name with
  | none => simp
  | some old =>
    simp only [List.isChain_cons_cons, reduceCtorEq, false_or]
    constructor
    · rintro ⟨hzero, hle, hchain⟩
      refine ⟨⟨?_, ?_⟩, hchain⟩
      · rw [ByteBuffer.remaining, ByteBuffer.remaining, hzero, Nat.sub_zero]
        exact hle
      · rw [ByteBuffer.written, hzero, List.take_zero]
    · rintro ⟨⟨hfits, hbefore⟩, hchain⟩
      have hzero : old.position = 0 := by
        rw [← ByteBuffer.length_written, hbefore, List.length_nil]
      exact ⟨hzero, hfits.trans (Nat.sub_le _ _), hchain⟩

/-- **When all the frames of a sequence are read right.** -/
theorem readsEach_iff (h : HpnlBuffer) (frames : List Put)
    (hframes : ∀ p ∈ frames, Receivable h p) :
    ReadsEach h frames ↔ NamesShrink h frames := by
  induction frames generalizing h with
  | nil =>
    refine iff_of_true (readsEach_nil h) ?_
    unfold NamesShrink
    split
    · exact List.isChain_nil
    · exact Or.inl rfl
  | cons p frames ih =>
    have hp := hframes p (List.mem_cons_self ..)
    have hrest : ∀ q ∈ frames, Receivable (h.next p) q := by
      intro q hq
      obtain ⟨hproper, hfits⟩ := hframes q (List.mem_cons_of_mem _ hq)
      exact ⟨hproper, (capacity_next h p).symm ▸ hfits⟩
    rw [readsEach_cons, ih (h.next p) hrest]
    cases p with
    | msg src type seq =>
      have hread : ReadsAsNew h (.msg src type seq) := by
        obtain ⟨h', hrun, -⟩ := read_msg (prefix_receive hp)
        exact (readsAsNew_iff hp).mpr ⟨h', hrun⟩
      have hname : (h.next (.msg src type seq)).name = h.name := name_next hp hread
      rw [and_iff_right hread]
      unfold NamesShrink
      rw [hname]
      rfl
    | rdm src nameLength name type seq =>
      rw [namesShrink_rdm, ← readsAsNew_rdm hp]
      refine and_congr_right fun hread => ?_
      obtain ⟨buffer, hbuffer, hpos, hlimit⟩ := name_next hp hread
      rw [namesShrink_of_room hbuffer hpos, hlimit]

/-- A frame whose payload is `[7]`, with the given name. -/
def named (name : List UInt8) (h : name.length < 2 ^ 31) : Put :=
  .rdm (ByteBuffer.wrap [7] (by decide)) (Int32.ofNat name.length) (ByteBuffer.wrap name h) 5 258

/-- A name of two bytes, a message, and a name of one byte. -/
theorem readsEach_shorter :
    ReadsEach (fresh (ByteBuffer.wrap (List.replicate 32 0) (by decide)))
      [named [65, 66] (by decide), .msg (ByteBuffer.wrap [8] (by decide)) 1 2,
        named [67] (by decide)] :=
  (readsEach_iff (fresh (ByteBuffer.wrap (List.replicate 32 0) (by decide)))
    [named [65, 66] (by decide), .msg (ByteBuffer.wrap [8] (by decide)) 1 2,
      named [67] (by decide)] (by decide)).mpr (by decide)

/-- After a name of one byte a name of two bytes makes `get` throw. -/
theorem not_readsEach_longer :
    let buffer := fresh (ByteBuffer.wrap (List.replicate 32 0) (by decide))
    let second := named [65, 66] (by decide)
    second.readOutcome ((buffer.next (named [67] (by decide))).receive second) =
        .error .BufferOverflowException ∧
      ¬ ReadsEach buffer [named [67] (by decide), second] := by
  intro buffer second
  have hthrows : second.readOutcome ((buffer.next (named [67] (by decide))).receive second) =
      .error .BufferOverflowException := by decide +kernel
  refine ⟨hthrows, ?_⟩
  intro heach
  obtain ⟨-, hrest⟩ := readsEach_cons.mp heach
  obtain ⟨hsecond, -⟩ := readsEach_cons.mp hrest
  exact not_readsAsNew_of_error hthrows hsecond

end HpnlBuffer

end Hpnl
