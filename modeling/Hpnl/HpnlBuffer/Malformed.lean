import Hpnl.HpnlBuffer.RoundTrip

/-!
# Frames that are none

`get` on whatever bytes a peer may send.  It tells the two layouts apart by
comparing the tag with `Type.MSG` alone, trusts the length of the name, and assigns
the fields while it reads.

* `Documented` — the layout of a frame, as the comment on `sendBuf` gives it.
* `nameToAllocate`, `get_eq` — how far `get` has read when it allocates a name.
* `Received`, `received` — every sequence of bytes is of one of five shapes; `judged_message`,
  `judged_cutLength`, `judged_cutName`, `judged_named` settle them one by one.
* `AcceptsExactly`, `WellJudged` — **a fresh buffer accepts exactly the documented
  frames, and forgets everything else, if and only if the bytes are well judged**.
-/

namespace Hpnl

namespace HpnlBuffer

open BigEndian

/-- The documented layout: the tag; with the second tag the length of the name and
the name; the type, the sequence number and the message. -/
inductive Documented : List UInt8 → Prop
  | msg (type : UInt8) (seq : UInt64) (payload : List UInt8) :
      Documented (Type.MSG :: type :: (toBytes 8 seq.toNat ++ payload))
  | rdm (nameLength : Int32) (name : List UInt8) (type : UInt8) (seq : UInt64)
      (payload : List UInt8) (hlen : nameLength.toInt = name.length) :
      Documented (Type.RDM :: (toBytes 4 nameLength.toUInt32.toNat ++
        (name ++ type :: (toBytes 8 seq.toNat ++ payload))))

/-- The tag of a frame and, unless it is that of a message, the length of the name. -/
def tagAndLength : Java HpnlBuffer (Option Int32) := do
  let tag ← onBuffer ByteBuffer.get
  if tag = Type.MSG then
    return none
  else
    let nameLength ← onBuffer ByteBuffer.getInt
    return some nameLength

/-- `get`, up to `new byte[this.nameLength]`: the length of the name that comes
next, if one does. -/
def nameToAllocate (blockBufferSize : ℤ) : Java HpnlBuffer (Option Int32) := do
  onBuffer (ByteBuffer.setPosition 0)
  onBuffer (ByteBuffer.setLimit blockBufferSize)
  tagAndLength

/-- The rest of `get`. -/
def getAfter : Option Int32 → Java HpnlBuffer ByteBuffer
  | none => getRest
  | some nameLength => do
      modify fun h => { h with nameLength := nameLength }
      let nameTmp ← onBuffer (ByteBuffer.getArray nameLength)
      setName nameLength nameTmp
      getRest

theorem get_eq (n : ℤ) : get n = nameToAllocate n >>= getAfter := by
  unfold get nameToAllocate tagAndLength getFrame
  simp only [bind_assoc]
  congr! 7 with _ _ tag
  split
  · rfl
  · simp only [bind_assoc, pure_bind]
    rfl

/-! ## What a peer may send -/

/-- The `int` that a sequence of bytes starts with. -/
def announced (bs : List UInt8) : ℤ :=
  (Int32.ofUInt32 (UInt32.ofNat (ofBytes (bs.take 4)))).toInt

@[simp] theorem announced_toBytes (nameLength : Int32) (rest : List UInt8) :
    announced (toBytes 4 nameLength.toUInt32.toNat ++ rest) = nameLength.toInt := by
  have htake : (toBytes 4 nameLength.toUInt32.toNat ++ rest).take 4 =
      toBytes 4 nameLength.toUInt32.toNat := List.take_left' (length_toBytes _ _)
  rw [announced, htake, ofBytes_toBytes _ _ nameLength.toUInt32.toNat_lt, UInt32.ofNat_toNat]

/-- A documented frame is long enough for what it announces. -/
theorem length_of_documented {tag : UInt8} {rest : List UInt8} (h : Documented (tag :: rest)) :
    (tag = Type.MSG ∧ 9 ≤ rest.length) ∨
      (tag = Type.RDM ∧ 4 ≤ rest.length ∧ 0 ≤ announced rest ∧
        announced rest + 13 ≤ rest.length) := by
  cases h with
  | msg type seq payload =>
    refine Or.inl ⟨rfl, ?_⟩
    simp only [List.length_cons, List.length_append, length_toBytes]
    omega
  | rdm nameLength name type seq payload hlen =>
    refine Or.inr ⟨rfl, ?_⟩
    simp only [announced_toBytes, List.length_cons, List.length_append, length_toBytes]
    omega

theorem not_documented_nil : ¬ Documented [] := by
  intro h
  cases h

/-- Four bytes are an `int`. -/
theorem exists_int {bs : List UInt8} (h : 4 ≤ bs.length) :
    ∃ (nameLength : Int32) (rest : List UInt8),
      bs = toBytes 4 nameLength.toUInt32.toNat ++ rest := by
  have hlen : (bs.take 4).length = 4 := by
    rw [List.length_take]
    omega
  have hlt : ofBytes (bs.take 4) < 2 ^ 32 := by
    have := ofBytes_lt (bs.take 4)
    rw [hlen] at this
    omega
  have htoNat : (Int32.ofUInt32 (UInt32.ofNat (ofBytes (bs.take 4)))).toUInt32.toNat =
      ofBytes (bs.take 4) := Nat.mod_eq_of_lt hlt
  refine ⟨Int32.ofUInt32 (UInt32.ofNat (ofBytes (bs.take 4))), bs.drop 4, ?_⟩
  have hdigits := toBytes_ofBytes (bs.take 4)
  rw [hlen] at hdigits
  rw [htoNat, hdigits, List.take_append_drop]

/-- Nine bytes are a type and a sequence number. -/
theorem exists_rest {bs : List UInt8} (h : 9 ≤ bs.length) :
    ∃ (type : UInt8) (seq : UInt64) (payload : List UInt8),
      bs = type :: (toBytes 8 seq.toNat ++ payload) := by
  cases bs with
  | nil => exact absurd h (by decide)
  | cons type bs =>
    rw [List.length_cons] at h
    have hlen : (bs.take 8).length = 8 := by
      rw [List.length_take]
      omega
    have hlt : ofBytes (bs.take 8) < 2 ^ 64 := by
      have := ofBytes_lt (bs.take 8)
      rw [hlen] at this
      omega
    have htoNat : (UInt64.ofNat (ofBytes (bs.take 8))).toNat = ofBytes (bs.take 8) :=
      Nat.mod_eq_of_lt hlt
    refine ⟨type, UInt64.ofNat (ofBytes (bs.take 8)), bs.drop 8, ?_⟩
    have hdigits := toBytes_ofBytes (bs.take 8)
    rw [hlen] at hdigits
    rw [htoNat, hdigits, List.take_append_drop]

/-- The shapes of what is received. -/
inductive Received : List UInt8 → Prop
  | empty : Received []
  | message (rest : List UInt8) : Received (Type.MSG :: rest)
  | cutLength (tag : UInt8) (rest : List UInt8) (htag : tag ≠ Type.MSG) (hcut : rest.length < 4) :
      Received (tag :: rest)
  | cutName (tag : UInt8) (nameLength : Int32) (rest : List UInt8) (htag : tag ≠ Type.MSG)
      (hcut : nameLength.toInt < 0 ∨ rest.length < nameLength.toInt) :
      Received (tag :: (toBytes 4 nameLength.toUInt32.toNat ++ rest))
  | named (tag : UInt8) (nameLength : Int32) (name rest : List UInt8) (htag : tag ≠ Type.MSG)
      (hlen : nameLength.toInt = name.length) :
      Received (tag :: (toBytes 4 nameLength.toUInt32.toNat ++ (name ++ rest)))

theorem received (bs : List UInt8) : Received bs := by
  cases bs with
  | nil => exact .empty
  | cons tag rest =>
    by_cases htag : tag = Type.MSG
    · subst htag
      exact .message rest
    by_cases hlength : 4 ≤ rest.length
    · obtain ⟨nameLength, rest, rfl⟩ := exists_int hlength
      by_cases hcut : nameLength.toInt < 0 ∨ rest.length < nameLength.toInt
      · exact .cutName tag nameLength rest htag hcut
      have hlen : nameLength.toInt = (rest.take nameLength.toInt.toNat).length := by
        rw [List.length_take]
        omega
      rw [← List.take_append_drop nameLength.toInt.toNat rest]
      exact .named tag nameLength _ _ htag hlen
    · exact .cutLength tag rest htag (Nat.not_le.mp hlength)

/-! ## What `get` makes of it -/

section Outcomes

variable {h : HpnlBuffer}

/-- What is left of a type and a sequence number that have been cut: the type, if it
was there. -/
theorem getRest_error (hcut : h.byteBuffer.remainingBytes.length < 9) :
    ∃ h', getRest.run h = .error .BufferUnderflowException h' ∧
      h'.type = h.byteBuffer.remainingBytes.headD h.type ∧ h'.seq = h.seq ∧ h'.name = h.name := by
  cases hb : h.byteBuffer.remainingBytes with
  | nil =>
    have hget := onBuffer_of_error (ByteBuffer.get_error hb)
    exact ⟨h, Java.bind_of_error hget, rfl, rfl, rfl⟩
  | cons type rest =>
    rw [hb, List.length_cons] at hcut
    obtain ⟨b, hget, hrest, -⟩ := ByteBuffer.get_ok hb
    have hlong : ByteBuffer.getLong.run b = .error .BufferUnderflowException b := by
      apply ByteBuffer.getLong_error
      rw [hrest]
      omega
    refine ⟨{ h with byteBuffer := b, type := type }, ?_, rfl, rfl, rfl⟩
    unfold getRest
    rw [Java.bind_of_ok (onBuffer_of_ok hget)]
    refine (Java.bind_of_ok rfl).trans (Java.bind_of_error ?_)
    apply onBuffer_of_error
    exact hlong

/-- Nothing has been received. -/
theorem getFrame_nil (hb : h.byteBuffer.remainingBytes = []) :
    getFrame.run h = .error .BufferUnderflowException h :=
  Java.bind_of_error (onBuffer_of_error (ByteBuffer.get_error hb))

theorem getFrame_cutMessage {rest : List UInt8}
    (hb : h.byteBuffer.remainingBytes = Type.MSG :: rest) (hcut : rest.length < 9) :
    ∃ h', getFrame.run h = .error .BufferUnderflowException h' ∧
      h'.type = rest.headD h.type ∧ h'.seq = h.seq ∧ h'.name = h.name := by
  obtain ⟨b, hget, hrest, -⟩ := ByteBuffer.get_ok hb
  obtain ⟨h', hrun, htype, hseq, hname⟩ :=
    getRest_error (h := { h with byteBuffer := b }) (hrest.symm ▸ hcut)
  refine ⟨h', ?_, hrest ▸ htype, hseq, hname⟩
  unfold getFrame
  rw [Java.bind_of_ok (onBuffer_of_ok hget), if_pos rfl]
  exact hrun

theorem getFrame_cutLength {tag : UInt8} {rest : List UInt8} (htag : tag ≠ Type.MSG)
    (hb : h.byteBuffer.remainingBytes = tag :: rest) (hcut : rest.length < 4) :
    ∃ b, getFrame.run h = .error .BufferUnderflowException { h with byteBuffer := b } := by
  obtain ⟨b, hget, hrest, -⟩ := ByteBuffer.get_ok hb
  have hint : (onBuffer ByteBuffer.getInt).run { h with byteBuffer := b } =
      .error .BufferUnderflowException { h with byteBuffer := b } :=
    onBuffer_of_error (ByteBuffer.getInt_error (hrest.symm ▸ hcut))
  refine ⟨b, ?_⟩
  unfold getFrame
  rw [Java.bind_of_ok (onBuffer_of_ok hget), if_neg htag]
  exact Java.bind_of_error hint

/-- The name is not there, or its length is none. -/
theorem getFrame_cutName {tag : UInt8} {nameLength : Int32} {rest : List UInt8}
    (htag : tag ≠ Type.MSG)
    (hb : h.byteBuffer.remainingBytes = tag :: (toBytes 4 nameLength.toUInt32.toNat ++ rest))
    (hcut : nameLength.toInt < 0 ∨ rest.length < nameLength.toInt) :
    ∃ e b, getFrame.run h = .error e { h with byteBuffer := b, nameLength := nameLength } := by
  obtain ⟨b, hframe, hrest⟩ := getFrame_length htag hb
  have harray : ∃ e, (ByteBuffer.getArray nameLength).run b = .error e b := by
    unfold ByteBuffer.getArray
    by_cases hneg : nameLength.toInt < 0
    · rw [if_pos hneg]
      exact ⟨_, rfl⟩
    · rw [if_neg hneg]
      refine ⟨_, ByteBuffer.getBytes_error ?_⟩
      rw [hrest]
      omega
  obtain ⟨e, harray⟩ := harray
  exact ⟨e, b, hframe.trans (Java.bind_of_error (onBuffer_of_error harray))⟩

/-- The name is there, and is kept although what follows it has been cut. -/
theorem getFrame_cutNamed {tag : UInt8} {nameLength : Int32} {name rest : List UInt8}
    (htag : tag ≠ Type.MSG) (hnone : h.name = none) (hlen : nameLength.toInt = name.length)
    (hb : h.byteBuffer.remainingBytes =
      tag :: (toBytes 4 nameLength.toUInt32.toNat ++ (name ++ rest)))
    (hcut : rest.length < 9) :
    ∃ h', getFrame.run h = .error .BufferUnderflowException h' ∧ h'.name ≠ none := by
  obtain ⟨b, hframe, hrest⟩ := getFrame_named htag hlen hb
  have hfits : NameFits { h with byteBuffer := b, nameLength := nameLength } name.length := by
    simp [NameFits, hnone]
  obtain ⟨buffer, hset, -⟩ := setName_ok hfits hlen
  obtain ⟨h', hrun, -, -, hname⟩ := getRest_error
    (h := { h with byteBuffer := b, nameLength := nameLength, name := some buffer })
    (hrest.symm ▸ hcut)
  refine ⟨h', hframe.trans ((Java.bind_of_ok hset).trans hrun), ?_⟩
  rw [hname]
  simp

end Outcomes

/-! ## Accepting exactly the documented frames -/

/-- The name that is allocated, if one is, is not longer than what was received. -/
def AllocatesWithin (r : HpnlBuffer) (n : ℕ) : Prop :=
  ∀ nameLength r', (nameToAllocate n).run r = .ok (some nameLength) r' → nameLength.toInt ≤ n

/-- `get(n)` succeeds exactly when the first `n` bytes are a documented frame; anything
else leaves type, sequence number and name as they were; and a name that is
allocated is not longer than what has been received. -/
def AcceptsExactly (r : HpnlBuffer) (n : ℕ) : Prop :=
  ((∃ result r', (get n).run r = .ok result r') ↔ Documented (r.byteBuffer.content.take n)) ∧
    (¬ Documented (r.byteBuffer.content.take n) →
      ((get n).after r).type = r.type ∧ ((get n).after r).seq = r.seq ∧
        ((get n).after r).name = r.name) ∧
    AllocatesWithin r n

/-- The bytes are a documented frame; or they are cut before anything is assigned, where
a type of 0 is as good as none and a name that is cut must have a length within
what has been received; or the length of the name is negative. -/
def WellJudged : List UInt8 → Prop
  | [] => True
  | tag :: rest =>
      if tag = Type.MSG then 9 ≤ rest.length ∨ rest.headD 0 = 0
      else
        rest.length < 4 ∨ announced rest < 0 ∨
          (rest.length < announced rest + 4 ∧ announced rest ≤ rest.length + 1) ∨
          (tag = Type.RDM ∧ announced rest + 13 ≤ rest.length)

instance : DecidablePred WellJudged := fun bs => by
  unfold WellJudged
  split <;> infer_instance

section Allocation

variable {h : HpnlBuffer}

/-- A name is allocated as long as announced. -/
theorem tagAndLength_some {tag : UInt8} {nameLength : Int32} {rest : List UInt8}
    (htag : tag ≠ Type.MSG)
    (hb : h.byteBuffer.remainingBytes = tag :: (toBytes 4 nameLength.toUInt32.toNat ++ rest)) :
    ∃ h', tagAndLength.run h = .ok (some nameLength) h' := by
  obtain ⟨b₁, hget, hrest₁, -⟩ := ByteBuffer.get_ok hb
  obtain ⟨b₂, hint, -⟩ := ByteBuffer.getInt_ok hrest₁
  have hint' : (onBuffer ByteBuffer.getInt).run { h with byteBuffer := b₁ } =
      .ok nameLength { h with byteBuffer := b₂ } := onBuffer_of_ok hint
  refine ⟨{ h with byteBuffer := b₂ }, ?_⟩
  unfold tagAndLength
  rw [Java.bind_of_ok (onBuffer_of_ok hget), if_neg htag, Java.bind_of_ok hint']
  rfl

/-- No name is allocated for a message, nor for what ends before its length. -/
theorem tagAndLength_none (hb : ∀ tag rest, h.byteBuffer.remainingBytes = tag :: rest →
      tag = Type.MSG ∨ rest.length < 4) (nameLength : Int32) (h' : HpnlBuffer) :
    tagAndLength.run h ≠ .ok (some nameLength) h' := by
  intro hrun
  unfold tagAndLength at hrun
  cases hbytes : h.byteBuffer.remainingBytes with
  | nil =>
    have hget := onBuffer_of_error (ByteBuffer.get_error hbytes)
    rw [Java.bind_of_error hget] at hrun
    cases hrun
  | cons tag rest =>
    obtain ⟨b, hget, hrest, -⟩ := ByteBuffer.get_ok hbytes
    rw [Java.bind_of_ok (onBuffer_of_ok hget)] at hrun
    by_cases htag : tag = Type.MSG
    · rw [if_pos htag] at hrun
      cases hrun
    · have hcut := (hb tag rest hbytes).resolve_left htag
      have hint : (onBuffer ByteBuffer.getInt).run { h with byteBuffer := b } =
          .error .BufferUnderflowException { h with byteBuffer := b } :=
        onBuffer_of_error (ByteBuffer.getInt_error (hrest.symm ▸ hcut))
      rw [if_neg htag, Java.bind_of_error hint] at hrun
      cases hrun

end Allocation

/-! ## The two compared -/

/-- Once position and limit are set, `get` works on a buffer of the first `n` bytes. -/
structure Limited (b : ByteBuffer) (n : ℕ) (b' : ByteBuffer) : Prop where
  get_eq : (get n).run { byteBuffer := b } = getFrame.run { byteBuffer := b' }
  nameToAllocate_eq : (nameToAllocate n).run { byteBuffer := b } =
    tagAndLength.run { byteBuffer := b' }
  bytes : b'.remainingBytes = b.content.take n
  length : (b.content.take n).length = n

theorem exists_limited {b : ByteBuffer} {n : ℕ} (hn : n ≤ b.capacity) : ∃ b', Limited b n b' := by
  have hlen : (b.content.take n).length = n := List.length_take_of_le hn
  obtain ⟨b', hlimited, hb'⟩ :=
    limited_of_prefix (r := { byteBuffer := b }) (List.take_prefix n b.content)
  rw [hlen] at hlimited
  exact ⟨b', hlimited _ _, hlimited _ _, hb', hlen⟩

section Judgement

variable {b b' : ByteBuffer} {n : ℕ}

theorem acceptsExactly_of_ok (hl : Limited b n b') {result : ByteBuffer} {r' : HpnlBuffer}
    (hrun : getFrame.run { byteBuffer := b' } = .ok result r') :
    AcceptsExactly { byteBuffer := b } n ↔
      Documented (b.content.take n) ∧ AllocatesWithin { byteBuffer := b } n := by
  have hget := hl.get_eq.trans hrun
  constructor
  · rintro ⟨hiff, -, halloc⟩
    exact ⟨hiff.mp ⟨result, r', hget⟩, halloc⟩
  · rintro ⟨hdoc, halloc⟩
    exact ⟨iff_of_true ⟨result, r', hget⟩ hdoc, fun hnot => absurd hdoc hnot, halloc⟩

theorem acceptsExactly_of_error (hl : Limited b n b') {e : JavaException} {r' : HpnlBuffer}
    (hrun : getFrame.run { byteBuffer := b' } = .error e r')
    (hdoc : ¬ Documented (b.content.take n)) :
    AcceptsExactly { byteBuffer := b } n ↔
      (r'.type = 0 ∧ r'.seq = 0 ∧ r'.name = none) ∧ AllocatesWithin { byteBuffer := b } n := by
  have hget := hl.get_eq.trans hrun
  have hafter : (get n).after { byteBuffer := b } = r' := Java.after_of_error hget
  unfold AcceptsExactly
  rw [hafter]
  constructor
  · rintro ⟨-, hkept, halloc⟩
    exact ⟨hkept hdoc, halloc⟩
  · rintro ⟨hkept, halloc⟩
    refine ⟨iff_of_false ?_ hdoc, fun _ => hkept, halloc⟩
    rintro ⟨result, r'', hok⟩
    rw [hget] at hok
    cases hok

/-- No name is allocated for a message, nor for what ends before its length. -/
theorem allocatesWithin_none (hl : Limited b n b') (hb : ∀ tag rest,
    b.content.take n = tag :: rest → tag = Type.MSG ∨ rest.length < 4) :
    AllocatesWithin { byteBuffer := b } n := by
  intro nameLength r' hrun
  rw [hl.nameToAllocate_eq] at hrun
  refine absurd hrun (tagAndLength_none ?_ nameLength r')
  intro tag rest htag
  exact hb tag rest (hl.bytes.symm.trans htag)

/-- A name is allocated as long as announced. -/
theorem allocatesWithin_some (hl : Limited b n b') {tag : UInt8} {nameLength : Int32}
    {rest : List UInt8} (htag : tag ≠ Type.MSG)
    (hb : b.content.take n = tag :: (toBytes 4 nameLength.toUInt32.toNat ++ rest)) :
    AllocatesWithin { byteBuffer := b } n ↔ nameLength.toInt ≤ rest.length + 5 := by
  obtain ⟨h', hrun⟩ := tagAndLength_some (h := { byteBuffer := b' }) htag (hl.bytes.trans hb)
  have hn : n = rest.length + 5 := by
    rw [← hl.length, hb, List.length_cons, List.length_append, length_toBytes]
    omega
  have halloc := hl.nameToAllocate_eq.trans hrun
  unfold AllocatesWithin
  rw [halloc, hn]
  constructor
  · intro h
    exact_mod_cast h nameLength h' rfl
  · intro h nameLength' r'' hrun'
    cases hrun'
    exact_mod_cast h

theorem judged_message (hl : Limited b n b') {rest : List UInt8}
    (hb : b.content.take n = Type.MSG :: rest) :
    AcceptsExactly { byteBuffer := b } n ↔ 9 ≤ rest.length ∨ rest.headD 0 = 0 := by
  have hbytes := hl.bytes.trans hb
  have halloc := allocatesWithin_none hl (by
    intro tag rest' htag
    rw [hb] at htag
    cases htag
    exact Or.inl rfl)
  by_cases hrest : 9 ≤ rest.length
  · obtain ⟨type, seq, payload, rfl⟩ := exists_rest hrest
    obtain ⟨result, h', hrun, -⟩ := getFrame_msg (h := { byteBuffer := b' }) hbytes
    rw [acceptsExactly_of_ok hl hrun, hb]
    exact iff_of_true ⟨.msg type seq payload, halloc⟩ (Or.inl hrest)
  · obtain ⟨h', hrun, htype, hseq, hname⟩ :=
      getFrame_cutMessage (h := { byteBuffer := b' }) hbytes (Nat.not_le.mp hrest)
    have hdoc : ¬ Documented (b.content.take n) := by
      intro h
      rw [hb] at h
      obtain ⟨-, h⟩ | ⟨h, -⟩ := length_of_documented h
      · exact hrest h
      · exact absurd h (by decide)
    rw [acceptsExactly_of_error hl hrun hdoc, htype, hseq, hname]
    constructor
    · rintro ⟨⟨h, -⟩, -⟩
      exact Or.inr h
    · rintro (h | h)
      · exact absurd h hrest
      · exact ⟨⟨h, rfl, rfl⟩, halloc⟩

theorem judged_cutLength (hl : Limited b n b') {tag : UInt8} {rest : List UInt8}
    (htag : tag ≠ Type.MSG) (hb : b.content.take n = tag :: rest) (hcut : rest.length < 4) :
    AcceptsExactly { byteBuffer := b } n := by
  obtain ⟨b'', hrun⟩ := getFrame_cutLength (h := { byteBuffer := b' }) htag (hl.bytes.trans hb) hcut
  have hdoc : ¬ Documented (b.content.take n) := by
    intro h
    rw [hb] at h
    obtain ⟨h, -⟩ | ⟨-, h, -⟩ := length_of_documented h
    · exact htag h
    · omega
  rw [acceptsExactly_of_error hl hrun hdoc]
  refine ⟨⟨rfl, rfl, rfl⟩, allocatesWithin_none hl ?_⟩
  intro tag' rest' htag'
  rw [hb] at htag'
  cases htag'
  exact Or.inr hcut

theorem judged_cutName (hl : Limited b n b') {tag : UInt8} {nameLength : Int32}
    {rest : List UInt8} (htag : tag ≠ Type.MSG)
    (hb : b.content.take n = tag :: (toBytes 4 nameLength.toUInt32.toNat ++ rest))
    (hcut : nameLength.toInt < 0 ∨ rest.length < nameLength.toInt) :
    AcceptsExactly { byteBuffer := b } n ↔ nameLength.toInt ≤ rest.length + 5 := by
  obtain ⟨e, b'', hrun⟩ :=
    getFrame_cutName (h := { byteBuffer := b' }) htag (hl.bytes.trans hb) hcut
  have hdoc : ¬ Documented (b.content.take n) := by
    intro h
    rw [hb] at h
    obtain ⟨h, -⟩ | ⟨-, -, h, hlen⟩ := length_of_documented h
    · exact htag h
    · rw [announced_toBytes] at h hlen
      simp only [List.length_append, length_toBytes] at hlen
      omega
  rw [acceptsExactly_of_error hl hrun hdoc, allocatesWithin_some hl htag hb]
  exact and_iff_right ⟨rfl, rfl, rfl⟩

theorem judged_named (hl : Limited b n b') {tag : UInt8} {nameLength : Int32}
    {name rest : List UInt8} (htag : tag ≠ Type.MSG) (hlen : nameLength.toInt = name.length)
    (hb : b.content.take n = tag :: (toBytes 4 nameLength.toUInt32.toNat ++ (name ++ rest))) :
    AcceptsExactly { byteBuffer := b } n ↔ tag = Type.RDM ∧ 9 ≤ rest.length := by
  have hbytes := hl.bytes.trans hb
  have halloc : AllocatesWithin { byteBuffer := b } n := by
    rw [allocatesWithin_some hl htag hb, List.length_append]
    omega
  by_cases hrest : 9 ≤ rest.length
  · obtain ⟨type, seq, payload, rfl⟩ := exists_rest hrest
    obtain ⟨result, h', hrun, -⟩ :=
      getFrame_rdm (h := { byteBuffer := b' }) htag trivial hlen hbytes
    rw [acceptsExactly_of_ok hl hrun, hb]
    constructor
    · rintro ⟨hdoc, -⟩
      obtain ⟨h, -⟩ | ⟨h, -⟩ := length_of_documented hdoc
      · exact absurd h htag
      · exact ⟨h, hrest⟩
    · rintro ⟨rfl, -⟩
      exact ⟨.rdm nameLength name type seq payload hlen, halloc⟩
  · obtain ⟨h', hrun, hname⟩ :=
      getFrame_cutNamed (h := { byteBuffer := b' }) htag rfl hlen hbytes (Nat.not_le.mp hrest)
    have hdoc : ¬ Documented (b.content.take n) := by
      intro h
      rw [hb] at h
      obtain ⟨h, -⟩ | ⟨-, -, -, h⟩ := length_of_documented h
      · exact htag h
      · rw [announced_toBytes] at h
        simp only [List.length_append, length_toBytes] at h
        omega
    rw [acceptsExactly_of_error hl hrun hdoc]
    refine iff_of_false ?_ fun h => hrest h.2
    rintro ⟨⟨-, -, h⟩, -⟩
    exact hname h

end Judgement

/-- **When exactly the documented frames are accepted.**  A fresh buffer does what it
should with the first `n` bytes if and only if they are well judged. -/
theorem accepts_exactly_iff (b : ByteBuffer) (n : ℕ) (hn : n ≤ b.capacity) :
    AcceptsExactly { byteBuffer := b } n ↔ WellJudged (b.content.take n) := by
  obtain ⟨b', hl⟩ := exists_limited hn
  have hshape := received (b.content.take n)
  generalize hb : b.content.take n = bs at hshape
  cases hshape with
  | empty =>
    have hdoc : ¬ Documented (b.content.take n) := hb ▸ not_documented_nil
    rw [acceptsExactly_of_error hl (getFrame_nil (hl.bytes.trans hb)) hdoc]
    refine iff_of_true ⟨⟨rfl, rfl, rfl⟩, allocatesWithin_none hl ?_⟩ trivial
    simp [hb]
  | message rest =>
    rw [judged_message hl hb, WellJudged, if_pos rfl]
  | cutLength tag rest htag hcut =>
    rw [WellJudged, if_neg htag]
    exact iff_of_true (judged_cutLength hl htag hb hcut) (Or.inl hcut)
  | cutName tag nameLength rest htag hcut =>
    rw [judged_cutName hl htag hb hcut, WellJudged, if_neg htag, announced_toBytes]
    simp only [List.length_append, length_toBytes]
    omega
  | named tag nameLength name rest htag hlen =>
    rw [judged_named hl htag hlen hb, WellJudged, if_neg htag, announced_toBytes]
    simp only [List.length_append, length_toBytes]
    constructor
    · rintro ⟨htag, hrest⟩
      exact Or.inr (Or.inr (Or.inr ⟨htag, by omega⟩))
    · rintro (h | h | h | ⟨htag, h⟩)
      · omega
      · omega
      · omega
      · exact ⟨htag, by omega⟩

/-- A message of no bytes. -/
theorem accepts_exactly_message :
    let b := ByteBuffer.wrap [0, 5, 0, 0, 0, 0, 0, 0, 1, 2] (by decide)
    AcceptsExactly { byteBuffer := b } 10 :=
  (accepts_exactly_iff (ByteBuffer.wrap [0, 5, 0, 0, 0, 0, 0, 0, 1, 2] (by decide)) 10
    (by decide)).mpr (by decide)

/-- A frame whose tag is neither of the two is accepted; a message that is cut after its
type leaves the type behind; five bytes make `get` allocate 2³¹ - 1. -/
theorem not_accepts_exactly :
    let unknownTag := ByteBuffer.wrap [2, 0, 0, 0, 0, 5, 0, 0, 0, 0, 0, 0, 0, 1] (by decide)
    let cutMessage := ByteBuffer.wrap [0, 7] (by decide)
    let longName := ByteBuffer.wrap [1, 127, 255, 255, 255] (by decide)
    ¬ AcceptsExactly { byteBuffer := unknownTag } 14 ∧
      ¬ AcceptsExactly { byteBuffer := cutMessage } 2 ∧
      ¬ AcceptsExactly { byteBuffer := longName } 5 := by
  intro unknownTag cutMessage longName
  refine ⟨?_, ?_, ?_⟩
  · obtain ⟨b', hl⟩ := exists_limited (b := unknownTag) (n := 14) (by decide)
    have hb : unknownTag.content.take 14 = 2 :: (toBytes 4 (0 : Int32).toUInt32.toNat ++
      ([] ++ [5, 0, 0, 0, 0, 0, 0, 0, 1])) := rfl
    rw [judged_named hl (by decide) rfl hb]
    decide
  · obtain ⟨b', hl⟩ := exists_limited (b := cutMessage) (n := 2) (by decide)
    have hb : cutMessage.content.take 2 = Type.MSG :: [7] := rfl
    rw [judged_message hl hb]
    decide
  · obtain ⟨b', hl⟩ := exists_limited (b := longName) (n := 5) (by decide)
    have hb : longName.content.take 5 =
      1 :: (toBytes 4 (2147483647 : Int32).toUInt32.toNat ++ []) := rfl
    rw [judged_cutName hl (by decide) hb (by decide)]
    decide

end HpnlBuffer

end Hpnl
