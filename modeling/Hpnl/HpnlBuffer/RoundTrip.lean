import Hpnl.HpnlBuffer.Reuse

/-!
# What `get` reads back

A frame of either form, written by `put` into a buffer whose limit is its capacity
and read by `get` from a fresh buffer that holds the same bytes.

* `Put.Proper` — the announced length of the name is its length, so that the frame
  has the announced size (`frame_of_proper`).
* `getFrame_msg`, `getFrame_rdm` — `get` on the two layouts.
* `RoundTrips`, `get_put` — **the fields come back, the two forms are never
  confused, and putting the fields again reproduces the frame**.
-/

namespace Hpnl

namespace HpnlBuffer

namespace Put

/-- The announced length of the name is its length. -/
def Proper : Put → Prop
  | msg _ _ _ => True
  | rdm _ nameLength name _ _ => nameLength.toInt = name.remaining

instance : (p : Put) → Decidable p.Proper
  | msg _ _ _ => isTrue trivial
  | rdm _ nameLength name _ _ => inferInstanceAs (Decidable (nameLength.toInt = name.remaining))

/-- The type byte. -/
def type : Put → UInt8
  | msg _ type _ => type
  | rdm _ _ _ type _ => type

/-- The sequence number. -/
def seq : Put → UInt64
  | msg _ _ seq => seq
  | rdm _ _ _ _ seq => seq

theorem frame_of_proper {p : Put} (h : p.Proper) : p.frame = p.bytes.length := by
  rw [length_bytes]
  cases p with
  | msg src type seq =>
    simp only [frame, header, Put.src, METADATA_SIZE, List.flatten_cons, List.flatten_nil,
      List.length_append, List.length_cons, List.length_nil, BigEndian.length_toBytes]
    omega
  | rdm src nameLength name type seq =>
    have hname : nameLength.toInt = name.remaining := h
    simp only [frame, header, Put.src, METADATA_SIZE, List.flatten_cons, List.flatten_nil,
      List.length_append, List.length_cons, List.length_nil, BigEndian.length_toBytes,
      ByteBuffer.length_remainingBytes]
    omega

/-- On a buffer whose limit is its capacity a put writes its frame. -/
theorem outcome_of_proper {p : Put} (hp : p.Proper) {h : HpnlBuffer}
    (hlimit : h.byteBuffer.limit = h.byteBuffer.capacity)
    (hfits : p.frame ≤ h.byteBuffer.capacity) : p.outcome h = .ok p.bytes := by
  have hframe := frame_of_proper hp
  rw [outcome_of_le hfits (hlimit.symm ▸ hfits) (by omega), if_pos (by omega)]

end Put

/-! ## The two layouts -/

section Layouts

variable {h : HpnlBuffer} {type : UInt8} {seq : UInt64} {payload : List UInt8}

theorem onBuffer_of_ok {α : Type} {x : Java ByteBuffer α} {a : α} {b : ByteBuffer}
    (hx : x.run h.byteBuffer = .ok a b) : (onBuffer x).run h = .ok a { h with byteBuffer := b } :=
  Java.onField_of_ok hx

theorem onBuffer_of_error {α : Type} {x : Java ByteBuffer α} {e : JavaException} {b : ByteBuffer}
    (hx : x.run h.byteBuffer = .error e b) :
    (onBuffer x).run h = .error e { h with byteBuffer := b } :=
  Java.onField_of_error hx

theorem onName_of_ok {α : Type} {x : Java ByteBuffer α} {a : α} {name name' : ByteBuffer}
    (hname : h.name = some name) (hx : x.run name = .ok a name') :
    (onName x).run h = .ok a { h with name := some name' } := by
  have hfield : (Java.onField (fun _ : HpnlBuffer => name)
      (fun h name => { h with name := some name }) x).run h = .ok a { h with name := some name' } :=
    Java.onField_of_ok hx
  show onName x h = _
  unfold onName
  rw [hname]
  exact hfield

theorem onName_of_error {α : Type} {x : Java ByteBuffer α} {e : JavaException}
    {name name' : ByteBuffer} (hname : h.name = some name) (hx : x.run name = .error e name') :
    (onName x).run h = .error e { h with name := some name' } := by
  have hfield : (Java.onField (fun _ : HpnlBuffer => name)
      (fun h name => { h with name := some name }) x).run h =
        .error e { h with name := some name' } := Java.onField_of_error hx
  show onName x h = _
  unfold onName
  rw [hname]
  exact hfield

theorem getRest_ok
    (hb : h.byteBuffer.remainingBytes = type :: (BigEndian.toBytes 8 seq.toNat ++ payload)) :
    ∃ result h', getRest.run h = .ok result h' ∧ result.remainingBytes = payload ∧
      h'.type = type ∧ h'.seq = seq ∧ h'.nameLength = h.nameLength ∧ h'.name = h.name := by
  obtain ⟨b₁, hget, hrest, -⟩ := ByteBuffer.get_ok hb
  obtain ⟨b₂, hlong, hrest₂, -⟩ := ByteBuffer.getLong_ok hrest
  refine ⟨b₂.slice, { h with byteBuffer := b₂, type := type, seq := seq }, ?_, ?_, rfl, rfl, rfl,
    rfl⟩
  · have hlong' : (onBuffer ByteBuffer.getLong).run { h with byteBuffer := b₁, type := type } =
        .ok seq { h with byteBuffer := b₂, type := type } := onBuffer_of_ok hlong
    unfold getRest
    rw [Java.bind_of_ok (onBuffer_of_ok hget)]
    exact (Java.bind_of_ok rfl).trans ((Java.bind_of_ok hlong').trans rfl)
  · rw [ByteBuffer.remainingBytes_slice, hrest₂]

/-- The buffer for the name, where it is there already, has room for `n` bytes. -/
def NameFits (h : HpnlBuffer) (n : ℕ) : Prop :=
  match h.name with
  | none => True
  | some name => n ≤ name.remaining

/-- What the buffer for the name holds before its position. -/
def nameBefore (h : HpnlBuffer) : List UInt8 :=
  match h.name with
  | none => []
  | some name => name.written

/-- The name is written into its buffer where the position of that stands. -/
theorem fillName_ok {tmp : List UInt8} {buffer : ByteBuffer} (hbuffer : h.name = some buffer)
    (hroom : tmp.length ≤ buffer.remaining) :
    ∃ name, (do
        onName (ByteBuffer.putBytes tmp)
        onName ByteBuffer.flip : Java HpnlBuffer Unit).run h = .ok () { h with name := some name } ∧
      name.remainingBytes = buffer.written ++ tmp ∧ name.position = 0 := by
  obtain ⟨b₁, hput, hwritten₁, -⟩ := ByteBuffer.putBytes_ok hroom
  obtain ⟨b₂, hflip, hbytes, -, hpos, -⟩ := ByteBuffer.flip_ok b₁
  refine ⟨b₂, ?_, hbytes.trans hwritten₁, hpos⟩
  have hflip' : (onName ByteBuffer.flip).run { h with name := some b₁ } =
      .ok () { h with name := some b₂ } := onName_of_ok rfl hflip
  exact (Java.bind_of_ok (onName_of_ok hbuffer hput)).trans hflip'

/-- The name is kept in a buffer of its own. -/
theorem setName_ok {nameLength : Int32} {tmp : List UInt8} (hfits : NameFits h tmp.length)
    (hlen : nameLength.toInt = tmp.length) :
    ∃ name, (setName nameLength tmp).run h = .ok () { h with name := some name } ∧
      name.remainingBytes = nameBefore h ++ tmp ∧ name.position = 0 := by
  have hget : (MonadState.get : Java HpnlBuffer HpnlBuffer).run h = .ok h h := rfl
  unfold setName nameBefore
  unfold NameFits at hfits
  rw [Java.bind_of_ok hget]
  cases hname : h.name with
  | none =>
    obtain ⟨b₁, halloc, hpos₁, hlimit₁, -⟩ :=
      ByteBuffer.allocate_ok (n := nameLength.toInt) (by omega) nameLength.toInt_lt h
    have hroom : tmp.length ≤ b₁.remaining := by
      unfold ByteBuffer.remaining
      omega
    have hwritten₁ : b₁.written = [] := by
      rw [ByteBuffer.written, hpos₁, List.take_zero]
    obtain ⟨name, hfill, hbytes, hpos⟩ :=
      fillName_ok (h := { h with name := some b₁ }) rfl hroom
    refine ⟨name, ?_, hwritten₁ ▸ hbytes, hpos⟩
    rw [if_pos rfl, Java.bind_of_ok halloc]
    exact (Java.bind_of_ok rfl).trans hfill
  | some buffer =>
    rw [hname] at hfits
    obtain ⟨name, hfill, hbytes, hpos⟩ := fillName_ok hname hfits
    refine ⟨name, ?_, hbytes, hpos⟩
    rw [if_neg (by simp)]
    exact hfill

/-- A name that is longer than the room for it overflows. -/
theorem setName_error {nameLength : Int32} {tmp : List UInt8} (hfits : ¬ NameFits h tmp.length) :
    ∃ h', (setName nameLength tmp).run h = .error .BufferOverflowException h' := by
  have hget : (MonadState.get : Java HpnlBuffer HpnlBuffer).run h = .ok h h := rfl
  unfold NameFits at hfits
  unfold setName
  rw [Java.bind_of_ok hget]
  cases hname : h.name with
  | none =>
    rw [hname] at hfits
    exact absurd trivial hfits
  | some buffer =>
    rw [hname] at hfits
    have hput : (onName (ByteBuffer.putBytes tmp)).run h =
        .error .BufferOverflowException { h with name := some buffer } :=
      onName_of_error hname (ByteBuffer.putBytes_error (Nat.not_le.mp hfits))
    rw [if_neg (by simp)]
    exact ⟨_, Java.bind_of_error hput⟩

/-- A frame with the tag of a message. -/
theorem getFrame_msg (hb : h.byteBuffer.remainingBytes =
      Type.MSG :: type :: (BigEndian.toBytes 8 seq.toNat ++ payload)) :
    ∃ result h', getFrame.run h = .ok result h' ∧ result.remainingBytes = payload ∧
      h'.type = type ∧ h'.seq = seq ∧ h'.name = h.name := by
  obtain ⟨b₁, hget, hrest, -⟩ := ByteBuffer.get_ok hb
  obtain ⟨result, h', hrun, hpayload, htype, hseq, -, hname⟩ :=
    getRest_ok (h := { h with byteBuffer := b₁ }) hrest
  refine ⟨result, h', ?_, hpayload, htype, hseq, hname⟩
  unfold getFrame
  rw [Java.bind_of_ok (onBuffer_of_ok hget), if_pos rfl]
  exact hrun

/-- A frame whose tag is not that of a message, up to the length of the name. -/
theorem getFrame_length {tag : UInt8} (htag : tag ≠ Type.MSG) {nameLength : Int32}
    {rest : List UInt8}
    (hb : h.byteBuffer.remainingBytes =
      tag :: (BigEndian.toBytes 4 nameLength.toUInt32.toNat ++ rest)) :
    ∃ b, getFrame.run h = (do
        let nameTmp ← onBuffer (ByteBuffer.getArray nameLength)
        setName nameLength nameTmp
        getRest : Java HpnlBuffer ByteBuffer).run
          { h with byteBuffer := b, nameLength := nameLength } ∧
      b.remainingBytes = rest := by
  obtain ⟨b₁, hget, hrest₁, -⟩ := ByteBuffer.get_ok hb
  obtain ⟨b₂, hint, hrest₂, -⟩ := ByteBuffer.getInt_ok hrest₁
  refine ⟨b₂, ?_, hrest₂⟩
  have hint' : (onBuffer ByteBuffer.getInt).run { h with byteBuffer := b₁ } =
      .ok nameLength { h with byteBuffer := b₂ } := onBuffer_of_ok hint
  unfold getFrame
  rw [Java.bind_of_ok (onBuffer_of_ok hget), if_neg htag, Java.bind_of_ok hint']
  exact Java.bind_of_ok rfl

/-- A frame with a name, up to the name. -/
theorem getFrame_named {tag : UInt8} (htag : tag ≠ Type.MSG) {nameLength : Int32}
    {name rest : List UInt8} (hlen : nameLength.toInt = name.length)
    (hb : h.byteBuffer.remainingBytes =
      tag :: (BigEndian.toBytes 4 nameLength.toUInt32.toNat ++ (name ++ rest))) :
    ∃ b, getFrame.run h = (do
        setName nameLength name
        getRest : Java HpnlBuffer ByteBuffer).run
          { h with byteBuffer := b, nameLength := nameLength } ∧
      b.remainingBytes = rest := by
  obtain ⟨b₁, hframe, hrest₁⟩ := getFrame_length htag hb
  obtain ⟨b₂, hbytes, hrest₂, -⟩ := ByteBuffer.getBytes_ok hrest₁
  have harray : (ByteBuffer.getArray nameLength).run b₁ = .ok name b₂ := by
    unfold ByteBuffer.getArray
    rw [if_neg (by omega), hlen, Int.toNat_natCast]
    exact hbytes
  have harray' : (onBuffer (ByteBuffer.getArray nameLength)).run
      { h with byteBuffer := b₁, nameLength := nameLength } =
        .ok name { h with byteBuffer := b₂, nameLength := nameLength } := onBuffer_of_ok harray
  exact ⟨b₂, hframe.trans (Java.bind_of_ok harray'), hrest₂⟩

/-- A frame with a name for which there is room. -/
theorem getFrame_rdm {tag : UInt8} (htag : tag ≠ Type.MSG) {nameLength : Int32}
    {name : List UInt8} (hfits : NameFits h name.length) (hlen : nameLength.toInt = name.length)
    (hb : h.byteBuffer.remainingBytes =
      tag :: (BigEndian.toBytes 4 nameLength.toUInt32.toNat ++
        (name ++ type :: (BigEndian.toBytes 8 seq.toNat ++ payload)))) :
    ∃ result h', getFrame.run h = .ok result h' ∧ result.remainingBytes = payload ∧
      h'.type = type ∧ h'.seq = seq ∧ h'.nameLength = nameLength ∧
        ∃ buffer, h'.name = some buffer ∧ buffer.remainingBytes = nameBefore h ++ name ∧
          buffer.position = 0 := by
  obtain ⟨b, hframe, hrest⟩ := getFrame_named htag hlen hb
  obtain ⟨buffer, hset, hbuffer⟩ := setName_ok
    (h := { h with byteBuffer := b, nameLength := nameLength }) hfits hlen
  obtain ⟨result, h', hrun, hpayload, htype, hseq, hlength, hname⟩ := getRest_ok
    (h := { h with byteBuffer := b, nameLength := nameLength, name := some buffer }) hrest
  exact ⟨result, h', hframe.trans ((Java.bind_of_ok hset).trans hrun), hpayload, htype, hseq,
    hlength, buffer, hname, hbuffer⟩

/-- A frame with a name that is longer than the room for it. -/
theorem getFrame_rdm_error {nameLength : Int32} {name : List UInt8}
    (hfits : ¬ NameFits h name.length) (hlen : nameLength.toInt = name.length)
    (hb : h.byteBuffer.remainingBytes =
      Type.RDM :: (BigEndian.toBytes 4 nameLength.toUInt32.toNat ++
        (name ++ type :: (BigEndian.toBytes 8 seq.toNat ++ payload)))) :
    ∃ h', getFrame.run h = .error .BufferOverflowException h' := by
  obtain ⟨b, hframe, -⟩ := getFrame_named (by decide) hlen hb
  have hset : ∃ h', (setName nameLength name).run
      { h with byteBuffer := b, nameLength := nameLength } = .error .BufferOverflowException h' :=
    setName_error hfits
  obtain ⟨h', hset⟩ := hset
  exact ⟨h', hframe.trans (Java.bind_of_error hset)⟩

end Layouts

/-! ## The round trip -/

/-- The put that a buffer's decoded fields describe: a message when no name has
been read. -/
def decoded (h : HpnlBuffer) (payload : ByteBuffer) : Put :=
  match h.name with
  | none => .msg payload h.type h.seq
  | some name => .rdm payload h.nameLength name.slice h.type h.seq

/-- The name is read back with an RDM frame, and none with a message. -/
def NameBack (p : Put) (h : HpnlBuffer) : Prop :=
  match p with
  | .msg _ _ _ => h.name = none
  | .rdm _ nameLength name _ _ => h.nameLength = nameLength ∧
      ∃ result, getName.run h = .ok result h ∧ result.remainingBytes = name.remainingBytes

/-- The put `p` on `h` yields its frame; `get(size())` on the buffer `r` returns the
payload and sets the fields; and the decoded fields, put again, yield the frame on
any buffer that is large enough. -/
def RoundTrips (p : Put) (h r : HpnlBuffer) : Prop :=
  p.outcome h = .ok p.bytes ∧
    ∃ payload r', (get (h.perform (.put p)).size).run r = .ok payload r' ∧
      payload.remainingBytes = p.src.remainingBytes ∧ r'.type = p.type ∧ r'.seq = p.seq ∧
      NameBack p r' ∧
      ∀ g : HpnlBuffer, g.byteBuffer.limit = g.byteBuffer.capacity →
        p.frame ≤ g.byteBuffer.capacity → (r'.decoded payload).outcome g = .ok p.bytes

theorem size_put {h : HpnlBuffer} {p : Put} {bs : List UInt8} (hok : p.outcome h = .ok bs) :
    (h.perform (.put p)).size = bs.length ∧
      (h.perform (.put p)).byteBuffer.remainingBytes = bs := by
  obtain ⟨hpos, hlimit⟩ := limit_put hok
  refine ⟨?_, ?_⟩
  · rw [size, ByteBuffer.remaining, hpos, hlimit, Nat.sub_zero]
  · cases hrun : p.run h with
    | error e h' =>
      rw [Put.outcome, hrun] at hok
      exact absurd hok (by simp)
    | ok u h' =>
      rw [Put.outcome, hrun, Except.ok.injEq] at hok
      rw [show h.perform (.put p) = h' from Java.after_of_ok hrun, hok]

/-- Whatever `get` does after it has set position and limit, it does on a buffer that
holds just the frame. -/
theorem limited_of_prefix {r : HpnlBuffer} {bs : List UInt8} (hbs : bs <+: r.byteBuffer.content) :
    ∃ b, (∀ (α : Type) (x : Java HpnlBuffer α), (do
        onBuffer (ByteBuffer.setPosition 0)
        onBuffer (ByteBuffer.setLimit bs.length)
        x : Java HpnlBuffer α).run r = x.run { r with byteBuffer := b }) ∧
      b.remainingBytes = bs := by
  have hlen : bs.length ≤ r.byteBuffer.capacity := hbs.length_le
  obtain ⟨b₁, hpos, hpos₁, -, hcontent₁⟩ := ByteBuffer.setPosition_zero r.byteBuffer
  obtain ⟨b₂, hlim, hlimit₂, hpos₂, hcontent₂⟩ := ByteBuffer.setLimit_ok (b := b₁)
    (n := bs.length) (by omega) (by
      rw [ByteBuffer.capacity, hcontent₁]
      exact_mod_cast hlen)
  have hpos' : (onBuffer (ByteBuffer.setPosition 0)).run r = .ok () { r with byteBuffer := b₁ } :=
    onBuffer_of_ok hpos
  have hlim' : (onBuffer (ByteBuffer.setLimit bs.length)).run { r with byteBuffer := b₁ } =
      .ok () { r with byteBuffer := b₂ } := onBuffer_of_ok hlim
  refine ⟨b₂, fun α x => (Java.bind_of_ok hpos').trans (Java.bind_of_ok hlim'), ?_⟩
  rw [hpos₁, Nat.zero_min] at hpos₂
  rw [ByteBuffer.remainingBytes, hpos₂, hlimit₂, hcontent₂, hcontent₁, List.drop_zero,
    Int.toNat_natCast, ← List.prefix_iff_eq_take.mp hbs]

/-- Reading a frame comes down to `getFrame` on a buffer that holds just the
frame. -/
theorem get_of_prefix {r : HpnlBuffer} {bs : List UInt8} (hbs : bs <+: r.byteBuffer.content) :
    ∃ b, (get bs.length).run r = getFrame.run { r with byteBuffer := b } ∧
      b.remainingBytes = bs := by
  obtain ⟨b, hrun, hb⟩ := limited_of_prefix hbs
  exact ⟨b, hrun _ _, hb⟩

theorem bytes_rdm (src : ByteBuffer) (nameLength : Int32) (name : ByteBuffer) (type : UInt8)
    (seq : UInt64) : (Put.rdm src nameLength name type seq).bytes =
      Type.RDM :: (BigEndian.toBytes 4 nameLength.toUInt32.toNat ++
        (name.remainingBytes ++
          type :: (BigEndian.toBytes 8 seq.toNat ++ src.remainingBytes))) := by
  simp only [Put.bytes, Put.header, Put.src, List.flatten_cons, List.flatten_nil,
    List.append_assoc, List.cons_append, List.nil_append]

/-- **`get` inverts `put`.**  A put on a buffer whose limit is its capacity yields
its frame, and a fresh buffer that starts with that frame gives every field back;
putting the decoded fields again reproduces the frame. -/
theorem get_put (p : Put) (hproper : p.Proper) (h : HpnlBuffer)
    (hlimit : h.byteBuffer.limit = h.byteBuffer.capacity)
    (hfits : p.frame ≤ h.byteBuffer.capacity) (r : HpnlBuffer) (hfresh : r.name = none)
    (hsame : (h.perform (.put p)).byteBuffer.remainingBytes <+: r.byteBuffer.content) :
    RoundTrips p h r := by
  have hok := Put.outcome_of_proper hproper hlimit hfits
  obtain ⟨hsize, hbytes⟩ := size_put hok
  obtain ⟨b, hget, hb⟩ := get_of_prefix (hbytes ▸ hsame)
  refine ⟨hok, ?_⟩
  rw [hsize, hget]
  cases p with
  | msg src type seq =>
    have hframe : ({ r with byteBuffer := b } : HpnlBuffer).byteBuffer.remainingBytes =
        Type.MSG :: type :: (BigEndian.toBytes 8 seq.toNat ++ src.remainingBytes) := hb
    obtain ⟨payload, r', hrun, hpayload, htype, hseq, hname⟩ := getFrame_msg hframe
    have hnone : r'.name = none := hname.trans hfresh
    refine ⟨payload, r', hrun, hpayload, htype, hseq, hnone, ?_⟩
    intro g hg hgfits
    have hdecoded : r'.decoded payload = .msg payload type seq := by
      rw [decoded, hnone, htype, hseq]
    have hbytes' : (Put.msg payload type seq).bytes = (Put.msg src type seq).bytes := by
      simp only [Put.bytes, Put.src, hpayload]
      rfl
    have hrem : payload.remaining = src.remaining := by
      rw [← ByteBuffer.length_remainingBytes, hpayload, ByteBuffer.length_remainingBytes]
    have hfits' : (Put.msg payload type seq).frame ≤ g.byteBuffer.capacity := by
      simp only [Put.frame, hrem] at hgfits ⊢
      exact hgfits
    rw [hdecoded, Put.outcome_of_proper (p := Put.msg payload type seq) trivial hg hfits', hbytes']
  | rdm src nameLength name type seq =>
    have hlen : nameLength.toInt = name.remainingBytes.length := by
      rw [ByteBuffer.length_remainingBytes]
      exact hproper
    have hb' := (hb.trans (bytes_rdm src nameLength name type seq))
    have hroom : NameFits { r with byteBuffer := b } name.remainingBytes.length := by
      simp [NameFits, hfresh]
    obtain ⟨payload, r', hrun, hpayload, htype, hseq, hlength, buffer, hbuffer, hname, -⟩ :=
      getFrame_rdm (by decide) hroom hlen hb'
    have hbefore : nameBefore { r with byteBuffer := b } = [] := by
      simp [nameBefore, hfresh]
    rw [hbefore, List.nil_append] at hname
    have hgetName : getName.run r' = .ok buffer.slice r' := by
      have hslice : (do return (← MonadState.get).slice : Java ByteBuffer ByteBuffer).run buffer =
          .ok buffer.slice buffer := rfl
      rw [getName, onName_of_ok hbuffer hslice, ← hbuffer]
    refine ⟨payload, r', hrun, hpayload, htype, hseq, ⟨hlength, buffer.slice, hgetName, ?_⟩, ?_⟩
    · rw [ByteBuffer.remainingBytes_slice, hname]
    intro g hg hgfits
    have hdecoded : r'.decoded payload = .rdm payload nameLength buffer.slice type seq := by
      rw [decoded, hbuffer, htype, hseq, hlength]
    have hbytes' : (Put.rdm payload nameLength buffer.slice type seq).bytes =
        (Put.rdm src nameLength name type seq).bytes := by
      simp only [Put.bytes, Put.header, Put.src, hpayload, ByteBuffer.remainingBytes_slice, hname]
    have hrem : payload.remaining = src.remaining := by
      rw [← ByteBuffer.length_remainingBytes, hpayload, ByteBuffer.length_remainingBytes]
    have hfits' : (Put.rdm payload nameLength buffer.slice type seq).frame ≤
        g.byteBuffer.capacity := by
      simp only [Put.frame, hrem] at hgfits ⊢
      exact hgfits
    have hproper' : (Put.rdm payload nameLength buffer.slice type seq).Proper := by
      show nameLength.toInt = buffer.slice.remaining
      rw [← ByteBuffer.length_remainingBytes, ByteBuffer.remainingBytes_slice, hname, hlen]
    rw [hdecoded, Put.outcome_of_proper hproper' hg hfits', hbytes']

/-- A frame with the name `[65, 66]`. -/
theorem get_put_named :
    let p := Put.rdm (ByteBuffer.wrap [7, 8, 9] (by decide)) 2
      (ByteBuffer.wrap [65, 66] (by decide)) 5 258
    RoundTrips p (fresh (ByteBuffer.wrap (List.replicate 32 0) (by decide)))
      { byteBuffer := ByteBuffer.wrap (p.bytes ++ [0, 0]) (by decide +kernel) } :=
  get_put (Put.rdm (ByteBuffer.wrap [7, 8, 9] (by decide)) 2
      (ByteBuffer.wrap [65, 66] (by decide)) 5 258) (by decide)
    (fresh (ByteBuffer.wrap (List.replicate 32 0) (by decide))) rfl (by decide) _ rfl
    (by decide +kernel)

end HpnlBuffer

end Hpnl
