import Hpnl.MsgStack.RmaRegions

/-!
# The two registries of RMA buffers

A Java program registers buffers for remote access through `EqService`
(`com/intel/hpnl/core/EqService.java`), which keeps the buffers in `rmaBufferMap` and
calls the stack through the native methods (`com_intel_hpnl_core_EqService.cc`).  The
buffer is entered before the native call, the native method reads the key of a chunk that
may be null, and `unregRmaBuffer` leaves the entry where it is.

* `EqServiceRma` — the Java side over the native `RegionWorld`; `regRmaBuffer`,
  `regRmaBufferByAddress`, `getRmaBuffer`, `unregRmaBuffer` — the methods.
* `Agree`, `FailsCleanly` — a buffer is found under exactly the ids for which the stack
  holds an open registration; a call whose native registration fails returns null and
  changes neither registry.
* `Guard` — every native registration succeeds, under an id for which the stack has no null
  entry, and only ids without a buffer are unregistered.
* `register_cases`, `agree_registered`, `agree_unregistered`, `inv_step` — what one call does;
  `guard_of_agree` — a call after which the registries agree has met the guard.
* `rma_registries_agree` — **the registries agree and failures are clean if and only if** every
  call of the run meets the guard.
-/

namespace Hpnl

open MachineInt Transition

/-! ## The code -/

/-- A `java.nio.ByteBuffer`; `address` is what `GetDirectBufferAddress` answers, null for a
buffer on the heap. -/
structure ByteBufferRef where
  object : ℕ
  address : Addr
  deriving DecidableEq, Repr

/-- An `HpnlBuffer` of a registration. -/
structure RmaBuffer where
  bufferId : ℤ
  byteBuffer : ByteBufferRef
  rkey : Int64
  address : Int64 := 0
  deriving DecidableEq

/-- What a method ends with; `crash` is the end of the process. -/
inductive RmaResult where
  | returns (buffer : Option RmaBuffer)
  | exception
  | crash
  deriving DecidableEq

/-- The fields of an `EqService` that RMA buffers use, and the stack behind it. -/
structure EqServiceRma where
  rmaBufferMap : StdMap ℤ ByteBufferRef
  rmaBufferId : ℤ
  native : RegionWorld
  crashed : Bool

namespace EqServiceRma

/-- A service that has not been used. -/
def init (initialized : Bool) (mem : Mem) : EqServiceRma :=
  { rmaBufferMap := ∅
    rmaBufferId := 0
    native := RegionWorld.init initialized mem
    crashed := false }

/-- A pointer as a `jlong`. -/
def jlong (address : Addr) : Int64 := (UInt64.ofNat address).toInt64

/-- The native registration returns null. -/
def nativeFails (w : EqServiceRma) (buffer : Addr) (bufferSize : ℤ)
    (mr : Option (Addr × UInt64)) : Prop :=
  MsgStack.rejects w.native.stack buffer (toUInt64 bufferSize) ∨ mr = none

instance (w : EqServiceRma) (buffer : Addr) (bufferSize : ℤ) (mr : Option (Addr × UInt64)) :
    Decidable (w.nativeFails buffer bufferSize mr) := inferInstanceAs (Decidable (_ ∨ _))

/-- The native `reg_rma_buffer`, which returns `reg_rma_buffer(...)->mr->key`: `none` is the
null dereference.  `fi_mr_reg` answers with a region and its key, if it succeeds. -/
def reg_rma_buffer (w : EqServiceRma) (buffer : Addr) (bufferSize bufferId : ℤ) (ck : Addr)
    (mr : Option (Addr × UInt64)) : Option (EqServiceRma × Option Int64) :=
  (w.native.step (.reg_rma_buffer buffer (toUInt64 bufferSize) bufferId ck
    (mr.map Prod.fst))).map fun native =>
      ({ w with native := native },
        if w.nativeFails buffer bufferSize mr then none else mr.map fun m => m.2.toInt64)

/-- `rmaBufferId.getAndIncrement()`. -/
def nextId (w : EqServiceRma) : EqServiceRma :=
  { w with rmaBufferId := toInt32 (w.rmaBufferId + 1) }

/-- The end of the three registering methods: the buffer is put into `rmaBufferMap`, then the
native method is called, and a negative key makes the method return null. -/
def register (w : EqServiceRma) (byteBuffer : ByteBufferRef) (buffer : Addr)
    (bufferSize bufferId : ℤ) (address : Int64) (ck : Addr) (mr : Option (Addr × UInt64)) :
    Option (EqServiceRma × RmaResult) :=
  let entered := { w with rmaBufferMap := w.rmaBufferMap.assign bufferId byteBuffer }
  match entered.reg_rma_buffer buffer bufferSize bufferId ck mr with
  | none => none
  | some (w', none) => some ({ w' with crashed := true }, .crash)
  | some (w', some rkey) =>
      if rkey < 0 then some (w', .returns none)
      else some (w', .returns (some ⟨bufferId, byteBuffer, rkey, address⟩))

/-- `regRmaBuffer`.  A null buffer is an exception of `rmaBufferMap.put`. -/
def regRmaBuffer (w : EqServiceRma) (byteBuffer : Option ByteBufferRef) (bufferSize : ℤ)
    (ck : Addr) (mr : Option (Addr × UInt64)) : Option (EqServiceRma × RmaResult) :=
  match byteBuffer with
  | none => some (w.nextId, .exception)
  | some b => w.nextId.register b b.address bufferSize w.rmaBufferId 0 ck mr

/-- `regRmaBufferByAddress`, with a `ByteBuffer`. -/
def regRmaBufferByAddress (w : EqServiceRma) (byteBuffer : ByteBufferRef) (address : Addr)
    (bufferSize : ℤ) (ck : Addr) (mr : Option (Addr × UInt64)) :
    Option (EqServiceRma × RmaResult) :=
  w.nextId.register byteBuffer address bufferSize w.rmaBufferId 0 ck mr

/-- `getRmaBuffer`; `byteBuffer` is what `allocateDirect` answers, if it does not throw. -/
def getRmaBuffer (w : EqServiceRma) (bufferSize : ℤ) (byteBuffer : Option ByteBufferRef)
    (ck : Addr) (mr : Option (Addr × UInt64)) : Option (EqServiceRma × RmaResult) :=
  match byteBuffer with
  | none => some (w.nextId, .exception)
  | some b =>
      if jlong b.address < 0 then some (w.nextId, .returns none)
      else w.nextId.register b b.address bufferSize w.rmaBufferId (jlong b.address) ck mr

/-- `unregRmaBuffer`. -/
def unregRmaBuffer (w : EqServiceRma) (bufferId : ℤ) : Option (EqServiceRma × RmaResult) :=
  (w.native.step (.unreg_rma_buffer bufferId)).map fun native =>
    ({ w with native := native }, .returns none)

/-- `getRmaBufferByBufferId`. -/
def getRmaBufferByBufferId (w : EqServiceRma) (rmaBufferId : ℤ) : Option ByteBufferRef :=
  w.rmaBufferMap.find? rmaBufferId

end EqServiceRma

/-! ## Runs -/

/-- A call of a method, with what the environment answers. -/
inductive EqServiceRmaOp where
  | regRmaBuffer (byteBuffer : Option ByteBufferRef) (bufferSize : ℤ) (ck : Addr)
      (mr : Option (Addr × UInt64))
  | regRmaBufferByAddress (byteBuffer : ByteBufferRef) (address : Addr) (bufferSize : ℤ)
      (ck : Addr) (mr : Option (Addr × UInt64))
  | getRmaBuffer (bufferSize : ℤ) (byteBuffer : Option ByteBufferRef) (ck : Addr)
      (mr : Option (Addr × UInt64))
  | unregRmaBuffer (bufferId : ℤ)

namespace EqServiceRma

/-- A call and its result. -/
def call (w : EqServiceRma) : EqServiceRmaOp → Option (EqServiceRma × RmaResult)
  | .regRmaBuffer byteBuffer bufferSize ck mr => w.regRmaBuffer byteBuffer bufferSize ck mr
  | .regRmaBufferByAddress byteBuffer address bufferSize ck mr =>
      w.regRmaBufferByAddress byteBuffer address bufferSize ck mr
  | .getRmaBuffer bufferSize byteBuffer ck mr => w.getRmaBuffer bufferSize byteBuffer ck mr
  | .unregRmaBuffer bufferId => w.unregRmaBuffer bufferId

/-- A process that has crashed takes no call. -/
def step (w : EqServiceRma) (op : EqServiceRmaOp) : Option EqServiceRma :=
  if w.crashed then none else (w.call op).map Prod.fst

/-- The native registration that a call makes: the memory, its size, and what `fi_mr_reg`
answers. -/
def nativeCall : EqServiceRmaOp → Option (Addr × ℤ × Option (Addr × UInt64))
  | .regRmaBuffer byteBuffer bufferSize _ mr =>
      byteBuffer.map fun b => (b.address, bufferSize, mr)
  | .regRmaBufferByAddress _ address bufferSize _ mr => some (address, bufferSize, mr)
  | .getRmaBuffer bufferSize byteBuffer _ mr =>
      byteBuffer.bind fun b =>
        if jlong b.address < 0 then none else some (b.address, bufferSize, mr)
  | .unregRmaBuffer _ => none

/-- The call makes a native registration that fails. -/
def Fails (w : EqServiceRma) (op : EqServiceRmaOp) : Prop :=
  ∃ c ∈ nativeCall op, w.nativeFails c.1 c.2.1 c.2.2

/-- The stack holds an open registration for `id`. -/
def HoldsOpen (w : EqServiceRma) (id : ℤ) : Prop :=
  ∃ ck, w.native.Entry id ck ∧ w.native.regions.InUse (w.native.mem ck).mr

/-- A buffer is found under exactly the ids with an open registration. -/
def Agree (w : EqServiceRma) : Prop :=
  ∀ id, (∃ b, w.getRmaBufferByBufferId id = some b) ↔ w.HoldsOpen id

/-- A call whose native registration fails returns null and leaves both registries as they
were. -/
def FailsCleanly (w : EqServiceRma) (op : EqServiceRmaOp) : Prop :=
  w.Fails op → ∀ w' r, w.call op = some (w', r) →
    r = .returns none ∧ w'.rmaBufferMap = w.rmaBufferMap ∧ w'.native.stack = w.native.stack

/-- **The condition.**  A native registration succeeds, and the stack has no null entry for the
id; an id that is unregistered has no buffer. -/
def Guard (w : EqServiceRma) (op : EqServiceRmaOp) : Prop :=
  (∀ c ∈ nativeCall op, ¬ w.nativeFails c.1 c.2.1 c.2.2 ∧
    w.native.stack.rmaChunkMap.find? w.rmaBufferId ≠ some nullptr) ∧
    match op with
    | .unregRmaBuffer id => w.getRmaBufferByBufferId id = none
    | _ => True

instance (w : EqServiceRma) : DecidablePred w.Guard := fun op => by
  unfold Guard
  refine @instDecidableAnd _ _ inferInstance ?_
  cases op with
  | unregRmaBuffer id => exact inferInstanceAs (Decidable (w.getRmaBufferByBufferId id = none))
  | _ => exact isTrue trivial

/-! ### One registration -/

/-- What is kept along a run that meets the guard. -/
structure Inv (w : EqServiceRma) : Prop where
  native : w.native.Inv
  agree : w.Agree
  alive : w.crashed = false

theorem holdsOpen_iff {w : EqServiceRma} (h : w.native.Inv) {id : ℤ} :
    w.HoldsOpen id ↔ ∃ ck, w.native.Entry id ck :=
  ⟨fun ⟨ck, hck, _⟩ => ⟨ck, hck⟩, fun ⟨ck, hck⟩ => ⟨ck, hck, (h.alive id ck hck).2⟩⟩

theorem inv_init (initialized : Bool) (mem : Mem) : (init initialized mem).Inv where
  native := RegionWorld.inv_init initialized mem
  agree := by
    intro id
    constructor
    · rintro ⟨b, hb⟩
      simp [init, getRmaBufferByBufferId] at hb
    · rintro ⟨ck, hck, -⟩
      exact absurd hck (RegionWorld.not_entry_init initialized mem id ck)
  alive := rfl

/-- **What `register` does**: when the native registration fails, the process crashes with the
buffer entered; else both sides have an entry, the native one perhaps an older one. -/
theorem register_cases {w w' : EqServiceRma} {r : RmaResult} {b : ByteBufferRef} {buffer : Addr}
    {size id : ℤ} {address : Int64} {ck : Addr} {mr : Option (Addr × UInt64)}
    (h : w.register b buffer size id address ck mr = some (w', r)) :
    (w.nativeFails buffer size mr ∧ r = .crash ∧ w'.crashed = true) ∨
      (¬ w.nativeFails buffer size mr ∧ w'.rmaBufferMap = w.rmaBufferMap.assign id b ∧
        w'.crashed = w.crashed ∧
        ∃ header hck hmr, ck ≠ nullptr ∧ w'.native = w.native.registered id ck header hck hmr) := by
  rw [register, reg_rma_buffer] at h
  cases hnative : w.native.step
      (.reg_rma_buffer buffer (toUInt64 size) id ck (mr.map Prod.fst)) with
  | none =>
    rw [hnative] at h
    cases h
  | some native =>
    rw [hnative] at h
    simp only [Option.map_some] at h
    by_cases hfail : w.nativeFails buffer size mr
    · left
      have hfail' : nativeFails { w with rmaBufferMap := w.rmaBufferMap.assign id b } buffer size
        mr := hfail
      rw [if_pos hfail'] at h
      cases h
      exact ⟨hfail, rfl, rfl⟩
    · right
      have hfail' : ¬ nativeFails { w with rmaBufferMap := w.rmaBufferMap.assign id b } buffer size
        mr := hfail
      obtain ⟨hrej, hmr⟩ := not_or.mp hfail
      obtain ⟨⟨mr, key⟩, rfl⟩ := Option.ne_none_iff_exists'.mp hmr
      rw [if_neg hfail'] at h
      have hregistered := RegionWorld.step_reg_some hrej hnative
      simp only [Option.map_some] at h
      split at h
      · cases h
        exact ⟨hfail, rfl, rfl, hregistered⟩
      · cases h
        exact ⟨hfail, rfl, rfl, hregistered⟩

/-- After a registration that goes through, the registries agree when the stack had no null
entry for the id, and only then. -/
theorem agree_registered {w w' : EqServiceRma} {b : ByteBufferRef} {id : ℤ} {ck : Addr}
    {header : Chunk} {hck : ¬ w.native.chunks.InUse ck} {hmr : ¬ w.native.regions.InUse header.mr}
    (h : w.Inv) (hmap : w'.rmaBufferMap = w.rmaBufferMap.assign id b) (hnull : ck ≠ nullptr)
    (hnative : w'.native = w.native.registered id ck header hck hmr) :
    w'.Agree ↔ w.native.stack.rmaChunkMap.find? id ≠ some nullptr := by
  have hinv : w'.native.Inv := hnative ▸ RegionWorld.inv_registered h.native hnull
  have hfind : ∀ j, (∃ a, w'.getRmaBufferByBufferId j = some a) ↔
      j = id ∨ ∃ a, w.getRmaBufferByBufferId j = some a := by
    intro j
    rw [getRmaBufferByBufferId, getRmaBufferByBufferId, hmap, StdMap.find?_assign]
    by_cases hj : id = j
    · simp [hj]
    · simp [hj, Ne.symm hj]
  -- the entries of the stack are the old ones, and `id` unless it has a null entry
  have hentry : ∀ j, (∃ a, w'.native.Entry j a) ↔
      j = id ∧ w.native.stack.rmaChunkMap.find? id ≠ some nullptr ∨ ∃ a, w.native.Entry j a := by
    intro j
    rw [hnative]
    cases hold : w.native.stack.rmaChunkMap.find? id with
    | none =>
      simp only [RegionWorld.entry_registered_of_none hnull hold]
      constructor
      · rintro ⟨a, ⟨rfl, -⟩ | ha⟩
        · exact Or.inl ⟨rfl, by simp⟩
        · exact Or.inr ⟨a, ha⟩
      · rintro (⟨rfl, -⟩ | ⟨a, ha⟩)
        · exact ⟨ck, Or.inl ⟨rfl, rfl⟩⟩
        · exact ⟨a, Or.inr ha⟩
    | some old =>
      simp only [RegionWorld.entry_registered_of_some hold]
      constructor
      · exact Or.inr
      · rintro (⟨rfl, hne⟩ | ha)
        · exact ⟨old, by simpa using hne, hold⟩
        · exact ha
  constructor
  · intro hagree hbad
    have hopen := (holdsOpen_iff hinv).mp ((hagree id).mp ((hfind id).mpr (Or.inl rfl)))
    rcases (hentry id).mp hopen with ⟨-, hne⟩ | ⟨a, hne, ha⟩
    · exact hne hbad
    · exact hne (Option.some.inj (ha.symm.trans hbad))
  · intro hgood j
    rw [hfind, holdsOpen_iff hinv, hentry]
    have hj := h.agree j
    rw [holdsOpen_iff h.native] at hj
    exact or_congr ⟨fun hid => ⟨hid, hgood⟩, And.left⟩ hj

/-! ### One call -/

/-- The calls that reach the native side register or unregister; the others only take an id. -/
theorem step_cases {w w' : EqServiceRma} {op : EqServiceRmaOp} (h : w.step op = some w') :
    (nativeCall op = none ∧ (∀ id, op ≠ .unregRmaBuffer id) ∧ w' = w.nextId) ∨
      (∃ buffer size mr b address ck r, nativeCall op = some (buffer, size, mr) ∧
        (∀ id, op ≠ .unregRmaBuffer id) ∧
        w.call op = some (w', r) ∧
        w.nextId.register b buffer size w.rmaBufferId address ck mr = some (w', r)) ∨
      ∃ id native, op = .unregRmaBuffer id ∧
        w.native.step (.unreg_rma_buffer id) = some native ∧ w' = { w with native := native } := by
  rw [step] at h
  split at h
  · cases h
  obtain ⟨⟨w', r⟩, hcall, rfl⟩ := Option.map_eq_some_iff.mp h
  cases op with
  | regRmaBuffer byteBuffer size ck mr =>
    cases byteBuffer with
    | none =>
      cases hcall
      exact Or.inl ⟨rfl, by simp, rfl⟩
    | some b => exact Or.inr (Or.inl ⟨_, _, _, b, _, ck, r, rfl, by simp, hcall, hcall⟩)
  | regRmaBufferByAddress b address size ck mr =>
    exact Or.inr (Or.inl ⟨_, _, _, b, _, ck, r, rfl, by simp, hcall, hcall⟩)
  | getRmaBuffer size byteBuffer ck mr =>
    cases byteBuffer with
    | none =>
      cases hcall
      exact Or.inl ⟨rfl, by simp, rfl⟩
    | some b =>
      by_cases haddr : jlong b.address < 0
      · simp only [call, getRmaBuffer, if_pos haddr] at hcall
        cases hcall
        exact Or.inl ⟨by simp [nativeCall, haddr], by simp, rfl⟩
      · have hreg := hcall
        simp only [call, getRmaBuffer, if_neg haddr] at hreg
        exact Or.inr (Or.inl ⟨_, _, _, b, _, ck, r, by simp [nativeCall, haddr], by simp, hcall,
          hreg⟩)
  | unregRmaBuffer id =>
    obtain ⟨native, hnative, heq⟩ := Option.map_eq_some_iff.mp hcall
    cases heq
    exact Or.inr (Or.inr ⟨id, native, rfl, hnative, rfl⟩)

section

variable {w w' : EqServiceRma} {op : EqServiceRmaOp}

theorem guard_of_not_unreg (hop : ∀ id, op ≠ .unregRmaBuffer id)
    (h : ∀ c ∈ nativeCall op, ¬ w.nativeFails c.1 c.2.1 c.2.2 ∧
      w.native.stack.rmaChunkMap.find? w.rmaBufferId ≠ some nullptr) : w.Guard op := by
  refine ⟨h, ?_⟩
  cases op with
  | unregRmaBuffer id => exact absurd rfl (hop id)
  | _ => trivial

theorem inv_nextId (h : w.Inv) : w.nextId.Inv :=
  { native := h.native, agree := h.agree, alive := h.alive }

/-- After an unregistration the registries agree when there was no buffer to forget, and only
then. -/
theorem agree_unregistered {id : ℤ} {native : RegionWorld} (h : w.Inv)
    (hstep : w.native.step (.unreg_rma_buffer id) = some native) :
    Agree { w with native := native } ↔ w.getRmaBufferByBufferId id = none := by
  have hinv : native.Inv := RegionWorld.inv_step h.native hstep
  -- the entries of the stack are the old ones but that of `id`
  have hentry : ∀ j, (∃ a, native.Entry j a) ↔ j ≠ id ∧ ∃ a, w.native.Entry j a := by
    intro j
    rcases RegionWorld.step_unreg hstep with ⟨hnone, rfl⟩ | ⟨ck, hck, rfl⟩
    · simp only [RegionWorld.entry_get_rma_chunk]
      constructor
      · rintro ⟨a, ha⟩
        refine ⟨?_, a, ha⟩
        rintro rfl
        exact hnone a ha
      · exact And.right
    · simp only [RegionWorld.entry_unregistered]
      exact ⟨fun ⟨a, hj, ha⟩ => ⟨hj, a, ha⟩, fun ⟨hj, a, ha⟩ => ⟨a, hj, ha⟩⟩
  have hopen : ∀ j, HoldsOpen { w with native := native } j ↔
      j ≠ id ∧ ∃ b, w.getRmaBufferByBufferId j = some b := by
    intro j
    rw [holdsOpen_iff hinv, hentry, h.agree j, holdsOpen_iff h.native]
  constructor
  · intro hagree
    by_contra hsome
    obtain ⟨b, hb⟩ := Option.ne_none_iff_exists'.mp hsome
    exact ((hopen id).mp ((hagree id).mp ⟨b, hb⟩)).1 rfl
  · intro hnone j
    rw [hopen]
    constructor
    · rintro ⟨b, hb⟩
      refine ⟨?_, b, hb⟩
      rintro rfl
      exact absurd (hnone.symm.trans hb) (by simp)
    · exact And.right

/-- **A call that meets the guard keeps the registries in agreement.** -/
theorem inv_step (h : w.Inv) (hguard : w.Guard op) (hstep : w.step op = some w') : w'.Inv := by
  rcases step_cases hstep with ⟨-, -, rfl⟩ |
    ⟨buffer, size, mr, b, address, ck, r, hcall, -, -, hreg⟩ | ⟨id, native, rfl, hnative, rfl⟩
  · exact inv_nextId h
  · obtain ⟨hfail, hnull⟩ := hguard.1 _ hcall
    rcases register_cases hreg with ⟨hbad, -, -⟩ |
      ⟨-, hmap, halive, header, hck, hmr, hck0, hnat⟩
    · exact absurd hbad hfail
    · exact ⟨hnat ▸ RegionWorld.inv_registered h.native hck0,
        (agree_registered (inv_nextId h) hmap hck0 hnat).mpr hnull, halive.trans h.alive⟩
  · exact ⟨RegionWorld.inv_step h.native hnative, (agree_unregistered h hnative).mpr hguard.2,
      h.alive⟩

/-- A call after which the registries agree, and which did not crash, has met the guard. -/
theorem guard_of_agree (h : w.Inv) (hclean : w.FailsCleanly op) (hstep : w.step op = some w')
    (hagree : w'.Agree) : w.Guard op := by
  rcases step_cases hstep with ⟨hcall, hop, -⟩ |
    ⟨buffer, size, mr, b, address, ck, r, hcall, hop, hresult, hreg⟩ |
    ⟨id, native, rfl, hnative, rfl⟩
  · refine guard_of_not_unreg hop fun c hc => ?_
    rw [hcall] at hc
    cases hc
  · refine guard_of_not_unreg hop fun c hc => ?_
    obtain rfl := Option.some.inj (hcall.symm.trans hc)
    rcases register_cases hreg with ⟨hfail, hcrash, -⟩ |
      ⟨hfail, hmap, -, header, hck, hmr, hck0, hnat⟩
    · have hnull := (hclean ⟨_, hcall, hfail⟩ w' r hresult).1
      exact absurd (hcrash.symm.trans hnull) (by simp)
    · exact ⟨hfail, (agree_registered (inv_nextId h) hmap hck0 hnat).mp hagree⟩
  · refine ⟨?_, (agree_unregistered h hnative).mp hagree⟩
    intro c hc
    cases hc

/-- A call that meets the guard does not fail. -/
theorem failsCleanly_of_guard (hguard : w.Guard op) : w.FailsCleanly op := by
  rintro ⟨c, hc, hfail⟩
  exact absurd hfail (hguard.1 c hc).1

end

/-- **The two registries.**  Along a run a buffer is found under exactly the ids for which the
stack holds an open registration, and every failure is clean, if and only if every native
registration of the run succeeds and finds no null entry for its id, and no id with a buffer is
unregistered. -/
theorem rma_registries_agree (initialized : Bool) (mem : Mem) (ops : List EqServiceRmaOp) :
    Always step Agree (init initialized mem) ops ∧
        Meets step FailsCleanly (init initialized mem) ops ↔
      Meets step Guard (init initialized mem) ops := by
  have keep : ∀ w op w', Inv w → w.Guard op → step w op = some w' → Inv w' :=
    fun _ _ _ h hg hstep => inv_step h hg hstep
  have hinit : (init initialized mem).Inv := inv_init initialized mem
  constructor
  · rintro ⟨hagree, hclean⟩
    exact meets_of_always (fun w op w' h _ hg hstep => keep w op w' h hg hstep)
      (fun _ _ _ h hc hstep ht => guard_of_agree h hc hstep ht) hinit hclean hagree
  · intro hguard
    exact ⟨(always_of_meets keep hinit hguard).mono fun w h => h.agree,
      meets_of_meets keep (fun _ _ _ _ hg _ => failsCleanly_of_guard hg) hinit ops hguard⟩

/-- A buffer that is unregistered is still found. -/
theorem rma_unregistered_found :
    ¬ (Always step Agree (init true fun _ => {})
          [.regRmaBuffer (some ⟨1, 4096⟩) 16 8192 (some (1, 5)), .unregRmaBuffer 0] ∧
        Meets step FailsCleanly (init true fun _ => {})
          [.regRmaBuffer (some ⟨1, 4096⟩) 16 8192 (some (1, 5)), .unregRmaBuffer 0]) := by
  rintro ⟨hagree, -⟩
  have hrun : (run step (init true fun _ => {})
      [.regRmaBuffer (some ⟨1, 4096⟩) 16 8192 (some (1, 5)), .unregRmaBuffer 0]).map
        (fun w => (w.getRmaBufferByBufferId 0, w.native.stack.rmaChunkMap.find? 0)) =
          some (some ⟨1, 4096⟩, none) := by
    decide +kernel
  obtain ⟨w, hw, hfields⟩ := Option.map_eq_some_iff.mp hrun
  obtain ⟨hbuffer, hentry⟩ := Prod.mk.inj hfields
  obtain ⟨ck, hck, -⟩ := (hagree.last hw 0).mp ⟨_, hbuffer⟩
  exact absurd (hentry.symm.trans hck.2) (by simp)

end EqServiceRma

end Hpnl
