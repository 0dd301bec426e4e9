import Hpnl.Lib.MachineInt

/-!
# `java.nio.ByteBuffer`

A byte buffer is a fixed array of bytes with a position and a limit; its
methods either succeed or throw and, when they throw, leave the buffer alone.
Methods are programs of `EStateM`, whose state survives an exception.

* `toBytes`, `ofBytes` — big-endian numbers, each other's inverse.
* `ByteBuffer` — the bound on position and limit is part of the type.
* `written`, `remainingBytes` — what a buffer holds for a writer and for a
  reader; `putBytes_ok`, `getBytes_ok` and their companions say what each method
  does to the two, so that programs are verified without unfolding them.
-/

/-! ## Big-endian numbers -/

namespace BigEndian

/-- The last `n` base-256 digits of a number, the most significant first. -/
def toBytes : ℕ → ℕ → List UInt8
  | 0, _ => []
  | n + 1, x => toBytes n (x / 256) ++ [UInt8.ofNat x]

/-- The number a list of bytes spells. -/
def ofBytes (bs : List UInt8) : ℕ := bs.foldl (fun x b => x * 256 + b.toNat) 0

@[simp] theorem length_toBytes (n x : ℕ) : (toBytes n x).length = n := by
  induction n generalizing x with
  | zero => rfl
  | succ n ih => simp [toBytes, ih]

theorem ofBytes_append_singleton (bs : List UInt8) (b : UInt8) :
    ofBytes (bs ++ [b]) = ofBytes bs * 256 + b.toNat := by
  simp [ofBytes]

/-- Reading back what was written. -/
theorem ofBytes_toBytes (n x : ℕ) (h : x < 256 ^ n) : ofBytes (toBytes n x) = x := by
  induction n generalizing x with
  | zero =>
    have hx : x = 0 := by simpa using h
    rw [hx]
    rfl
  | succ n ih =>
    have hdiv : x / 256 < 256 ^ n := by
      rw [pow_succ] at h
      exact Nat.div_lt_of_lt_mul (by rwa [Nat.mul_comm] at h)
    rw [toBytes, ofBytes_append_singleton, ih _ hdiv, UInt8.toNat_ofNat']
    omega

theorem ofBytes_lt (bs : List UInt8) : ofBytes bs < 256 ^ bs.length := by
  induction bs using List.reverseRecOn with
  | nil => decide
  | append_singleton bs b ih =>
    have hb := b.toNat_lt
    rw [ofBytes_append_singleton, List.length_append, List.length_singleton, pow_succ]
    omega

/-- Any bytes are the digits of the number they spell. -/
theorem toBytes_ofBytes (bs : List UInt8) : toBytes bs.length (ofBytes bs) = bs := by
  induction bs using List.reverseRecOn with
  | nil => rfl
  | append_singleton bs b ih =>
    have hb := b.toNat_lt
    have hdiv : (ofBytes bs * 256 + b.toNat) / 256 = ofBytes bs := by omega
    have hlast : UInt8.ofNat (ofBytes bs * 256 + b.toNat) = b := by
      apply UInt8.toNat_inj.mp
      rw [UInt8.toNat_ofNat']
      omega
    rw [ofBytes_append_singleton, List.length_append, List.length_singleton, toBytes, hdiv, ih,
      hlast]

end BigEndian

/-! ## Programs that throw -/

/-- The exceptions that byte buffers and arrays throw. -/
inductive JavaException where
  | ArithmeticException
  | BufferOverflowException
  | BufferUnderflowException
  | IllegalArgumentException
  | NegativeArraySizeException
  | NullPointerException
  deriving DecidableEq, Repr

/-- A method on an object with state `σ`. -/
abbrev Java (σ α : Type) := EStateM JavaException σ α

namespace Java

variable {σ τ α β : Type}

theorem bind_of_ok {x : Java σ α} {f : α → Java σ β} {s t : σ} {a : α} (h : x.run s = .ok a t) :
    (x >>= f).run s = (f a).run t := by
  show EStateM.bind x f s = f a t
  unfold EStateM.bind
  rw [show x s = .ok a t from h]

theorem bind_of_error {x : Java σ α} {f : α → Java σ β} {s t : σ} {e : JavaException}
    (h : x.run s = .error e t) : (x >>= f).run s = .error e t := by
  show EStateM.bind x f s = .error e t
  unfold EStateM.bind
  rw [show x s = .error e t from h]

/-- A program that returns has run its first part to the end. -/
theorem ok_of_bind {x : Java σ α} {f : α → Java σ β} {s t : σ} {b : β}
    (h : (x >>= f).run s = .ok b t) : ∃ a u, x.run s = .ok a u ∧ (f a).run u = .ok b t := by
  cases hx : x.run s with
  | ok a u =>
    rw [bind_of_ok hx] at h
    exact ⟨a, u, rfl, h⟩
  | error e u =>
    rw [bind_of_error hx] at h
    exact absurd h (by simp)

/-- `try { x } catch (e) {}`. -/
def ignoring (e : JavaException) (x : Java σ Unit) : Java σ Unit := fun s =>
  match x s with
  | .ok a t => .ok a t
  | .error e' t => if e' = e then .ok () t else .error e' t

theorem ignoring_of_ok {e : JavaException} {x : Java σ Unit} {s t : σ} (h : x.run s = .ok () t) :
    (ignoring e x).run s = .ok () t := by
  show ignoring e x s = _
  unfold ignoring
  rw [show x s = .ok () t from h]

theorem ignoring_of_caught {e : JavaException} {x : Java σ Unit} {s t : σ}
    (h : x.run s = .error e t) : (ignoring e x).run s = .ok () t := by
  show ignoring e x s = _
  unfold ignoring
  rw [show x s = .error e t from h]
  exact if_pos rfl

theorem ignoring_of_error {e e' : JavaException} {x : Java σ Unit} {s t : σ}
    (h : x.run s = .error e' t) (hne : e' ≠ e) : (ignoring e x).run s = .error e' t := by
  show ignoring e x s = _
  unfold ignoring
  rw [show x s = .error e' t from h]
  exact if_neg hne

/-- A method of an object that is a field of another one. -/
def onField (get : σ → τ) (set : σ → τ → σ) (x : Java τ α) : Java σ α := fun s =>
  match x (get s) with
  | .ok a t => .ok a (set s t)
  | .error e t => .error e (set s t)

theorem onField_of_ok {get : σ → τ} {set : σ → τ → σ} {x : Java τ α} {s : σ} {a : α} {t : τ}
    (h : x.run (get s) = .ok a t) : (onField get set x).run s = .ok a (set s t) := by
  show onField get set x s = _
  unfold onField
  rw [show x (get s) = .ok a t from h]

theorem onField_of_error {get : σ → τ} {set : σ → τ → σ} {x : Java τ α} {s : σ}
    {e : JavaException} {t : τ} (h : x.run (get s) = .error e t) :
    (onField get set x).run s = .error e (set s t) := by
  show onField get set x s = _
  unfold onField
  rw [show x (get s) = .error e t from h]

/-- The state a method leaves behind, whether it returns or throws. -/
def after (x : Java σ α) (s : σ) : σ :=
  match x s with
  | .ok _ t => t
  | .error _ t => t

theorem after_of_ok {x : Java σ α} {s t : σ} {a : α} (h : x.run s = .ok a t) : x.after s = t := by
  unfold after
  rw [show x s = .ok a t from h]

theorem after_of_error {x : Java σ α} {s t : σ} {e : JavaException} (h : x.run s = .error e t) :
    x.after s = t := by
  unfold after
  rw [show x s = .error e t from h]

/-- Programs that run alike leave the same state behind. -/
theorem after_congr {x y : Java σ α} {s t : σ} (h : x.run s = y.run t) : x.after s = y.after t := by
  unfold after
  rw [show x s = y t from h]

/-- A method never changes whether `I` holds. -/
def Keeps (I : σ → Prop) (x : Java σ α) : Prop := ∀ s, I s → I (x.after s)

section Keeps

variable {I : σ → Prop}

theorem keeps_pure (a : α) : Keeps I (pure a : Java σ α) := fun _ h => h

theorem keeps_throw (e : JavaException) : Keeps I (throw e : Java σ α) := fun _ h => h

theorem keeps_get : Keeps I (MonadState.get : Java σ σ) := fun _ h => h

theorem keeps_modify {f : σ → σ} (h : ∀ s, I s → I (f s)) : Keeps I (modify f : Java σ Unit) := h

theorem keeps_bind {x : Java σ α} {f : α → Java σ β} (hx : Keeps I x) (hf : ∀ a, Keeps I (f a)) :
    Keeps I (x >>= f) := by
  intro s hs
  have hx := hx s hs
  unfold after at hx ⊢
  show I (match EStateM.bind x f s with | .ok _ t => t | .error _ t => t)
  unfold EStateM.bind
  cases hrun : x s with
  | ok a t =>
    rw [hrun] at hx
    exact hf a t hx
  | error e t =>
    rw [hrun] at hx
    exact hx

theorem keeps_ite {P : Prop} [Decidable P] {x y : Java σ α} (hx : Keeps I x) (hy : Keeps I y) :
    Keeps I (if P then x else y) := by
  split
  · exact hx
  · exact hy

theorem keeps_ignoring {e : JavaException} {x : Java σ Unit} (hx : Keeps I x) :
    Keeps I (ignoring e x) := by
  intro s hs
  have hx := hx s hs
  unfold after ignoring at *
  cases hrun : x s with
  | ok a t =>
    rw [hrun] at hx
    exact hx
  | error e' t =>
    rw [hrun] at hx
    by_cases he : e' = e
    · simp only [if_pos he]
      exact hx
    · simp only [if_neg he]
      exact hx

theorem keeps_onField {get : σ → τ} {set : σ → τ → σ} {J : τ → Prop} {x : Java τ α}
    (hget : ∀ s, I s → J (get s)) (hset : ∀ s t, I s → J t → I (set s t)) (hx : Keeps J x) :
    Keeps I (onField get set x) := by
  intro s hs
  have hx := hx (get s) (hget s hs)
  unfold after onField at *
  cases hrun : x (get s) with
  | ok a t =>
    rw [hrun] at hx
    exact hset s t hs hx
  | error e t =>
    rw [hrun] at hx
    exact hset s t hs hx

end Keeps

end Java

/-! ## Buffers -/

/-- A byte buffer; its capacity is an `int`. -/
structure ByteBuffer where
  content : List UInt8
  position : ℕ
  limit : ℕ
  position_le : position ≤ limit
  limit_le : limit ≤ content.length
  capacity_lt : content.length < 2 ^ 31
  deriving DecidableEq

namespace ByteBuffer

open MachineInt

/-- `capacity()`. -/
def capacity (b : ByteBuffer) : ℕ := b.content.length

/-- `remaining()`. -/
def remaining (b : ByteBuffer) : ℕ := b.limit - b.position

/-- The bytes between position and limit. -/
def remainingBytes (b : ByteBuffer) : List UInt8 := (b.content.take b.limit).drop b.position

/-- The bytes before the position. -/
def written (b : ByteBuffer) : List UInt8 := b.content.take b.position

@[simp] theorem length_remainingBytes (b : ByteBuffer) : b.remainingBytes.length = b.remaining := by
  have := b.limit_le
  simp [remainingBytes, remaining, Nat.min_eq_left this]

@[simp] theorem length_written (b : ByteBuffer) : b.written.length = b.position := by
  have := b.position_le
  have := b.limit_le
  simp only [written, List.length_take]
  omega

/-- Two buffers that agree before and behind their positions. -/
theorem eq_of_written {b b' : ByteBuffer} (hlimit : b'.limit = b.limit)
    (hwritten : b'.written = b.written)
    (hrest : b'.content.drop b'.position = b.content.drop b'.position) : b' = b := by
  have hpos : b'.position = b.position := by
    rw [← length_written, ← length_written, hwritten]
  have hcontent : b'.content = b.content := by
    rw [← List.take_append_drop b'.position b'.content, hrest]
    have htake : b'.content.take b'.position = b.content.take b.position := hwritten
    rw [htake, hpos, List.take_append_drop]
  cases b
  cases b'
  simp_all

/-- An array of bytes as a buffer, ready to be read. -/
def wrap (bs : List UInt8) (h : bs.length < 2 ^ 31) : ByteBuffer :=
  ⟨bs, 0, bs.length, Nat.zero_le _, le_rfl, h⟩

/-- `slice()`: a buffer of its own for the remaining bytes. -/
def slice (b : ByteBuffer) : ByteBuffer :=
  wrap b.remainingBytes (by
    rw [length_remainingBytes]
    have := b.limit_le
    have := b.capacity_lt
    unfold remaining
    omega)

@[simp] theorem remainingBytes_wrap (bs : List UInt8) (h : bs.length < 2 ^ 31) :
    (wrap bs h).remainingBytes = bs := by
  simp [remainingBytes, wrap]

@[simp] theorem remainingBytes_slice (b : ByteBuffer) :
    b.slice.remainingBytes = b.remainingBytes :=
  remainingBytes_wrap _ _

/-- `allocateDirect(n)`. -/
def allocate {σ : Type} (n : ℤ) : Java σ ByteBuffer :=
  if h : 0 ≤ n ∧ n < 2 ^ 31 then
    pure (wrap (List.replicate n.toNat 0) (by rw [List.length_replicate]; omega))
  else throw .IllegalArgumentException

/-! ### Memory that is shared -/

/-- A slice: `length` bytes of the memory from `offset` on. -/
def view (b : ByteBuffer) (offset length : ℕ) : ByteBuffer :=
  wrap ((b.content.drop offset).take length) (by
    have := b.capacity_lt
    simp only [List.length_take, List.length_drop]
    omega)

@[simp] theorem remainingBytes_view (b : ByteBuffer) (offset length : ℕ) :
    (b.view offset length).remainingBytes = (b.content.drop offset).take length :=
  remainingBytes_wrap _ _

/-- `slice()` is a slice of the memory. -/
theorem slice_eq_view (b : ByteBuffer) : b.slice = b.view b.position b.remaining := by
  unfold slice view
  congr 1
  exact List.drop_take

/-- The buffer after somebody else has written to the start of its memory. -/
def store (b : ByteBuffer) (bs : List UInt8) (h : bs.length ≤ b.capacity) : ByteBuffer :=
  have hlen : (bs ++ b.content.drop bs.length).length = b.content.length := by
    unfold capacity at h
    simp only [List.length_append, List.length_drop]
    omega
  { b with
    content := bs ++ b.content.drop bs.length
    limit_le := hlen.symm ▸ b.limit_le
    capacity_lt := hlen.symm ▸ b.capacity_lt }

/-! ### Position and limit -/

/-- `rewind()`. -/
def rewind : Java ByteBuffer Unit := modify fun b =>
  { b with position := 0, position_le := Nat.zero_le _ }

/-- `flip()`. -/
def flip : Java ByteBuffer Unit := modify fun b =>
  { b with
    position := 0
    limit := b.position
    position_le := Nat.zero_le _
    limit_le := b.position_le.trans b.limit_le }

/-- `position(n)`. -/
def setPosition (n : ℤ) : Java ByteBuffer Unit := fun b =>
  if h : 0 ≤ n ∧ n ≤ b.limit then .ok () { b with position := n.toNat, position_le := by omega }
  else .error .IllegalArgumentException b

/-- `limit(n)`. -/
def setLimit (n : ℤ) : Java ByteBuffer Unit := fun b =>
  if h : 0 ≤ n ∧ n ≤ b.capacity then
    .ok () { b with
      limit := n.toNat
      position := min b.position n.toNat
      position_le := Nat.min_le_right _ _
      limit_le := by unfold capacity at h; omega }
  else .error .IllegalArgumentException b

/-! ### Relative access -/

/-- The buffer after the bytes from its position on have been overwritten. -/
def overwrite (b : ByteBuffer) (bs : List UInt8) (h : bs.length ≤ b.remaining) : ByteBuffer :=
  have hlen : (b.content.take b.position ++ bs ++ b.content.drop (b.position + bs.length)).length =
      b.content.length := by
    have := b.position_le
    have := b.limit_le
    simp only [remaining] at h
    simp only [List.length_append, List.length_take, List.length_drop]
    omega
  { content := b.content.take b.position ++ bs ++ b.content.drop (b.position + bs.length)
    position := b.position + bs.length
    limit := b.limit
    position_le := by
      have := b.position_le
      simp only [remaining] at h
      omega
    limit_le := hlen.symm ▸ b.limit_le
    capacity_lt := hlen.symm ▸ b.capacity_lt }

/-- The buffer after bytes have been read. -/
def skip (b : ByteBuffer) (n : ℕ) (h : n ≤ b.remaining) : ByteBuffer :=
  { b with
    position := b.position + n
    position_le := by
      have := b.position_le
      simp only [remaining] at h
      omega }

/-- A relative bulk `put`, which all the others come down to. -/
def putBytes (bs : List UInt8) : Java ByteBuffer Unit := fun b =>
  if h : bs.length ≤ b.remaining then .ok () (b.overwrite bs h)
  else .error .BufferOverflowException b

/-- A relative bulk `get`, which all the others come down to. -/
def getBytes (n : ℕ) : Java ByteBuffer (List UInt8) := fun b =>
  if h : n ≤ b.remaining then .ok (b.remainingBytes.take n) (b.skip n h)
  else .error .BufferUnderflowException b

/-- `put(byte)`. -/
def put (x : UInt8) : Java ByteBuffer Unit := putBytes [x]

/-- `putInt(int)`. -/
def putInt (x : Int32) : Java ByteBuffer Unit := putBytes (BigEndian.toBytes 4 x.toUInt32.toNat)

/-- `putLong(long)`. -/
def putLong (x : UInt64) : Java ByteBuffer Unit := putBytes (BigEndian.toBytes 8 x.toNat)

/-- `put(ByteBuffer)`, of a buffer that is used for nothing else. -/
def putBuffer (src : ByteBuffer) : Java ByteBuffer Unit := putBytes src.remainingBytes

/-- `get()`. -/
def get : Java ByteBuffer UInt8 := do
  let bs ← getBytes 1
  return UInt8.ofNat (BigEndian.ofBytes bs)

/-- `getInt()`. -/
def getInt : Java ByteBuffer Int32 := do
  let bs ← getBytes 4
  return Int32.ofUInt32 (UInt32.ofNat (BigEndian.ofBytes bs))

/-- `new byte[n]`, filled by `get(array, 0, n)`. -/
def getArray (n : Int32) : Java ByteBuffer (List UInt8) :=
  if n.toInt < 0 then throw .NegativeArraySizeException else getBytes n.toInt.toNat

/-- `getLong()`. -/
def getLong : Java ByteBuffer UInt64 := do
  let bs ← getBytes 8
  return UInt64.ofNat (BigEndian.ofBytes bs)

/-! ## What the methods do -/

variable {b : ByteBuffer}

/-- A rewound buffer: nothing is written, the limit is the old one. -/
theorem rewind_ok (b : ByteBuffer) : ∃ b', rewind.run b = .ok () b' ∧ b'.written = [] ∧
    b'.limit = b.limit ∧ b'.content = b.content :=
  ⟨_, rfl, rfl, rfl, rfl⟩

/-- A flipped buffer holds for its reader what had been written. -/
theorem flip_ok (b : ByteBuffer) : ∃ b', flip.run b = .ok () b' ∧ b'.remainingBytes = b.written ∧
    b'.limit = b.position ∧ b'.position = 0 ∧ b'.content = b.content := by
  refine ⟨_, rfl, ?_, rfl, rfl, rfl⟩
  simp only [remainingBytes, List.drop_zero]
  rfl

theorem setPosition_zero (b : ByteBuffer) : ∃ b', (setPosition 0).run b = .ok () b' ∧
    b'.position = 0 ∧ b'.limit = b.limit ∧ b'.content = b.content := by
  refine ⟨{ b with position := 0, position_le := Nat.zero_le _ }, ?_, rfl, rfl, rfl⟩
  show setPosition 0 b = _
  unfold setPosition
  rw [dif_pos ⟨le_rfl, by omega⟩]
  rfl

theorem setLimit_ok {n : ℤ} (h0 : 0 ≤ n) (hcap : n ≤ b.capacity) :
    ∃ b', (setLimit n).run b = .ok () b' ∧ b'.limit = n.toNat ∧
      b'.position = min b.position n.toNat ∧ b'.content = b.content := by
  refine ⟨_, dif_pos ⟨h0, hcap⟩, rfl, rfl, rfl⟩

theorem setLimit_error {n : ℤ} (h : ¬ (0 ≤ n ∧ n ≤ b.capacity)) :
    (setLimit n).run b = .error .IllegalArgumentException b :=
  dif_neg h

/-- **A put that fits** appends to what is written. -/
theorem putBytes_ok {bs : List UInt8} (h : bs.length ≤ b.remaining) :
    ∃ b', (putBytes bs).run b = .ok () b' ∧ b'.written = b.written ++ bs ∧ b'.limit = b.limit ∧
      b'.position = b.position + bs.length ∧ b'.capacity = b.capacity := by
  have hp := b.position_le
  have hl := b.limit_le
  refine ⟨b.overwrite bs h, dif_pos h, ?_, rfl, rfl, ?_⟩
  · have hlen : (b.content.take b.position ++ bs).length = b.position + bs.length := by
      rw [List.length_append, List.length_take, Nat.min_eq_left (hp.trans hl)]
    show (b.content.take b.position ++ bs ++ _).take (b.position + bs.length) = _
    rw [← hlen, List.take_left]
    rfl
  · simp only [remaining] at h
    simp only [capacity, overwrite, List.length_append, List.length_take, List.length_drop]
    omega

/-- A put changes no byte behind what it writes. -/
theorem putBytes_drop {b b' : ByteBuffer} {bs : List UInt8}
    (hrun : (putBytes bs).run b = .ok () b') :
    b'.content.drop b'.position = b.content.drop b'.position := by
  have hp := b.position_le
  have hl := b.limit_le
  change putBytes bs b = _ at hrun
  unfold putBytes at hrun
  split at hrun
  · cases hrun
    have hlen : (b.content.take b.position ++ bs).length = b.position + bs.length := by
      rw [List.length_append, List.length_take, Nat.min_eq_left (hp.trans hl)]
    exact List.drop_left' hlen
  · cases hrun

theorem putBytes_error {bs : List UInt8} (h : b.remaining < bs.length) :
    (putBytes bs).run b = .error .BufferOverflowException b :=
  dif_neg (Nat.not_le.mpr h)

/-- **A get that fits** takes from what remains. -/
theorem getBytes_ok {bs rest : List UInt8} (h : b.remainingBytes = bs ++ rest) :
    ∃ b', (getBytes bs.length).run b = .ok bs b' ∧ b'.remainingBytes = rest ∧
      b'.limit = b.limit ∧ b'.content = b.content := by
  have hlen : bs.length ≤ b.remaining := by
    rw [← length_remainingBytes, h, List.length_append]
    exact Nat.le_add_right _ _
  refine ⟨b.skip bs.length hlen, ?_, ?_, rfl, rfl⟩
  · have hrun : (getBytes bs.length).run b =
        .ok (b.remainingBytes.take bs.length) (b.skip bs.length hlen) := dif_pos hlen
    rw [hrun, h, List.take_left]
  · have hdrop : (b.skip bs.length hlen).remainingBytes = b.remainingBytes.drop bs.length := by
      unfold remainingBytes skip
      rw [List.drop_drop]
    rw [hdrop, h, List.drop_left]

theorem getBytes_error {n : ℕ} (h : b.remainingBytes.length < n) :
    (getBytes n).run b = .error .BufferUnderflowException b := by
  rw [length_remainingBytes] at h
  exact dif_neg (Nat.not_le.mpr h)

/-- One put after the other. -/
def putAll (pieces : List (List UInt8)) : Java ByteBuffer Unit :=
  pieces.foldr (fun bs rest => do putBytes bs; rest) (pure ())

/-- **Puts that fit together** append all their bytes. -/
theorem putAll_ok {pieces : List (List UInt8)} (h : pieces.flatten.length ≤ b.remaining) :
    ∃ b', (putAll pieces).run b = .ok () b' ∧ b'.written = b.written ++ pieces.flatten ∧
      b'.limit = b.limit ∧ b'.position = b.position + pieces.flatten.length ∧
      b'.capacity = b.capacity := by
  induction pieces generalizing b with
  | nil => exact ⟨b, rfl, by simp, rfl, by simp, rfl⟩
  | cons bs pieces ih =>
    rw [List.flatten_cons, List.length_append] at h
    have hbs : bs.length ≤ b.remaining := by omega
    obtain ⟨b₁, hrun, hw, hl, hp, hc⟩ := putBytes_ok hbs
    have hrem : pieces.flatten.length ≤ b₁.remaining := by
      unfold remaining at h ⊢
      omega
    obtain ⟨b₂, hrun₂, hw₂, hl₂, hp₂, hc₂⟩ := ih hrem
    refine ⟨b₂, (Java.bind_of_ok hrun).trans hrun₂, ?_, hl₂.trans hl, ?_, hc₂.trans hc⟩
    · rw [hw₂, hw, List.flatten_cons, List.append_assoc]
    · rw [hp₂, hp, List.flatten_cons, List.length_append, Nat.add_assoc]

/-- The pieces, from the first one on, that fit into `n` bytes. -/
def fitting (n : ℕ) : List (List UInt8) → List UInt8
  | [] => []
  | bs :: pieces => if bs.length ≤ n then bs ++ fitting (n - bs.length) pieces else []

/-- Puts that do not fit together overflow, sooner or later: those that fit are
written. -/
theorem putAll_error {pieces : List (List UInt8)} (h : b.remaining < pieces.flatten.length) :
    ∃ b', (putAll pieces).run b = .error .BufferOverflowException b' ∧ b'.limit = b.limit ∧
      b'.written = b.written ++ fitting b.remaining pieces ∧
      b'.content.drop b'.position = b.content.drop b'.position := by
  induction pieces generalizing b with
  | nil => exact absurd h (Nat.not_lt_zero _)
  | cons bs pieces ih =>
    by_cases hbs : bs.length ≤ b.remaining
    · obtain ⟨b₁, hrun, hw, hl, hp, -⟩ := putBytes_ok hbs
      have hrem : b₁.remaining = b.remaining - bs.length := by
        unfold remaining
        omega
      have hlong : b₁.remaining < pieces.flatten.length := by
        rw [List.flatten_cons, List.length_append] at h
        omega
      obtain ⟨b₂, hrun₂, hl₂, hw₂, hrest₂⟩ := ih hlong
      refine ⟨b₂, (Java.bind_of_ok hrun).trans hrun₂, hl₂.trans hl, ?_, ?_⟩
      · rw [hw₂, hw, hrem, List.append_assoc, fitting, if_pos hbs]
      · have hpos : b₁.position ≤ b₂.position := by
          rw [← length_written, ← length_written, hw₂, List.length_append]
          exact Nat.le_add_right _ _
        rw [hrest₂, ← Nat.add_sub_cancel' hpos, ← List.drop_drop, ← List.drop_drop,
          putBytes_drop hrun]
    · refine ⟨b, Java.bind_of_error (putBytes_error (Nat.not_le.mp hbs)), rfl, ?_, rfl⟩
      rw [fitting, if_neg hbs, List.append_nil]

theorem get_ok {x : UInt8} {rest : List UInt8} (h : b.remainingBytes = x :: rest) :
    ∃ b', get.run b = .ok x b' ∧ b'.remainingBytes = rest ∧ b'.limit = b.limit ∧
      b'.content = b.content := by
  have hone : b.remainingBytes = [x] ++ rest := h
  obtain ⟨b', hrun, hrest⟩ := getBytes_ok hone
  refine ⟨b', ?_, hrest⟩
  rw [List.length_singleton] at hrun
  unfold get
  rw [Java.bind_of_ok hrun]
  show EStateM.Result.ok (UInt8.ofNat (0 * 256 + x.toNat)) b' = _
  rw [Nat.zero_mul, Nat.zero_add, UInt8.ofNat_toNat]

theorem getInt_ok {x : Int32} {rest : List UInt8}
    (h : b.remainingBytes = BigEndian.toBytes 4 x.toUInt32.toNat ++ rest) :
    ∃ b', getInt.run b = .ok x b' ∧ b'.remainingBytes = rest ∧ b'.limit = b.limit ∧
      b'.content = b.content := by
  obtain ⟨b', hrun, hrest⟩ := getBytes_ok h
  rw [BigEndian.length_toBytes] at hrun
  refine ⟨b', ?_, hrest⟩
  unfold getInt
  rw [Java.bind_of_ok hrun, BigEndian.ofBytes_toBytes _ _ x.toUInt32.toNat_lt]
  show EStateM.Result.ok (Int32.ofUInt32 (UInt32.ofNat x.toUInt32.toNat)) b' = _
  rw [UInt32.ofNat_toNat]

theorem getLong_ok {x : UInt64} {rest : List UInt8}
    (h : b.remainingBytes = BigEndian.toBytes 8 x.toNat ++ rest) :
    ∃ b', getLong.run b = .ok x b' ∧ b'.remainingBytes = rest ∧ b'.limit = b.limit ∧
      b'.content = b.content := by
  obtain ⟨b', hrun, hrest⟩ := getBytes_ok h
  rw [BigEndian.length_toBytes] at hrun
  refine ⟨b', ?_, hrest⟩
  unfold getLong
  rw [Java.bind_of_ok hrun, BigEndian.ofBytes_toBytes _ _ x.toNat_lt]
  show EStateM.Result.ok (UInt64.ofNat x.toNat) b' = _
  rw [UInt64.ofNat_toNat]

/-! ### Access beyond the limit -/

theorem get_error (h : b.remainingBytes = []) :
    get.run b = .error .BufferUnderflowException b := by
  apply Java.bind_of_error
  apply getBytes_error
  rw [h]
  decide

theorem getInt_error (h : b.remainingBytes.length < 4) :
    getInt.run b = .error .BufferUnderflowException b :=
  Java.bind_of_error (getBytes_error h)

theorem getLong_error (h : b.remainingBytes.length < 8) :
    getLong.run b = .error .BufferUnderflowException b :=
  Java.bind_of_error (getBytes_error h)

/-! ### What the methods leave alone -/

section Capacity

variable {c : ℕ}

theorem keeps_putBytes (bs : List UInt8) : Java.Keeps (fun b => capacity b = c) (putBytes bs) := by
  intro b hb
  by_cases h : bs.length ≤ b.remaining
  · obtain ⟨b', hrun, -, -, -, hcap⟩ := putBytes_ok h
    unfold Java.after
    rw [show putBytes bs b = .ok () b' from hrun]
    exact hcap.trans hb
  · unfold Java.after
    rw [show putBytes bs b = .error _ b from putBytes_error (Nat.not_le.mp h)]
    exact hb

/-- A `get` keeps whatever does not depend on the position. -/
theorem keeps_getBytes {I : ByteBuffer → Prop} (hI : ∀ b n h, I b → I (skip b n h)) (n : ℕ) :
    Java.Keeps I (getBytes n) := by
  intro b hb
  unfold Java.after getBytes
  by_cases h : n ≤ b.remaining
  · rw [dif_pos h]
    exact hI b n h hb
  · rw [dif_neg h]
    exact hb

theorem keeps_getArray {I : ByteBuffer → Prop} (hI : ∀ b n h, I b → I (skip b n h)) (n : Int32) :
    Java.Keeps I (getArray n) :=
  Java.keeps_ite (Java.keeps_throw _) (keeps_getBytes hI _)

theorem keeps_get {I : ByteBuffer → Prop} (hI : ∀ b n h, I b → I (skip b n h)) :
    Java.Keeps I get :=
  Java.keeps_bind (keeps_getBytes hI 1) fun _ => Java.keeps_pure _

theorem keeps_getInt {I : ByteBuffer → Prop} (hI : ∀ b n h, I b → I (skip b n h)) :
    Java.Keeps I getInt :=
  Java.keeps_bind (keeps_getBytes hI 4) fun _ => Java.keeps_pure _

theorem keeps_getLong {I : ByteBuffer → Prop} (hI : ∀ b n h, I b → I (skip b n h)) :
    Java.Keeps I getLong :=
  Java.keeps_bind (keeps_getBytes hI 8) fun _ => Java.keeps_pure _

theorem keeps_rewind : Java.Keeps (fun b => capacity b = c) rewind := fun _ hb => hb

theorem keeps_flip : Java.Keeps (fun b => capacity b = c) flip := fun _ hb => hb

end Capacity

/-- Moving the limit or the position leaves the memory alone. -/
theorem keeps_setLimit {I : List UInt8 → Prop} (n : ℤ) :
    Java.Keeps (fun b => I b.content) (setLimit n) := by
  intro b hb
  unfold Java.after setLimit
  by_cases h : 0 ≤ n ∧ n ≤ b.capacity
  · rw [dif_pos h]
    exact hb
  · rw [dif_neg h]
    exact hb

theorem keeps_setPosition {I : List UInt8 → Prop} (n : ℤ) :
    Java.Keeps (fun b => I b.content) (setPosition n) := by
  intro b hb
  unfold Java.after setPosition
  by_cases h : 0 ≤ n ∧ n ≤ b.limit
  · rw [dif_pos h]
    exact hb
  · rw [dif_neg h]
    exact hb

theorem keeps_allocate {σ : Type} {I : σ → Prop} (n : ℤ) :
    Java.Keeps I (allocate n : Java σ ByteBuffer) := by
  unfold allocate
  split
  · exact Java.keeps_pure _
  · exact Java.keeps_throw _

theorem allocate_ok {σ : Type} {n : ℤ} (h0 : 0 ≤ n) (hn : n < 2 ^ 31) (s : σ) :
    ∃ b', (allocate n : Java σ ByteBuffer).run s = .ok b' s ∧ b'.position = 0 ∧
      b'.limit = n.toNat ∧ b'.capacity = n.toNat := by
  refine ⟨wrap (List.replicate n.toNat 0) ?_, ?_, rfl, ?_, ?_⟩
  · rw [List.length_replicate]
    omega
  · unfold allocate
    rw [dif_pos ⟨h0, hn⟩]
    rfl
  · simp [wrap]
  · simp [wrap, capacity]

end ByteBuffer
