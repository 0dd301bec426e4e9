import Mathlib

/-!
# Operations in flight

Operations are posted, complete in any order, and their completions are read from a queue one
after the other.  They are numbered in the order in which they are posted.

* `Flight` — the operations, those in flight, and the queue; `post`, `complete`, `read`.
* `Once` — **exactly once**: what a system counts for each operation is one for those that are
  due and have been read, and never more than one.
* `Accounted` — the invariant behind it: nothing is counted before the completion is read.
* `Accounted.post`, `Accounted.complete`, `Accounted.read` — what keeps it.
* `Accounted.counted` — **what is read and due has been counted**, or `Once` fails.
-/

/-- Operations: number `n` is at position `n`.  The queue has the numbers of those whose
completion has not been read, and what is known of it. -/
structure Flight (ο β : Type*) where
  operations : List ο
  inFlight : List ℕ
  queue : List (ℕ × β)

namespace Flight

variable {ο β : Type*}

/-- No operations. -/
def empty : Flight ο β := ⟨[], [], []⟩

/-- The operations whose completions have not been read. -/
def pending (f : Flight ο β) : List ℕ := f.inFlight ++ f.queue.map Prod.fst

/-- An operation is posted. -/
def post (f : Flight ο β) (o : ο) : Flight ο β :=
  { f with
    operations := f.operations ++ [o]
    inFlight := f.operations.length :: f.inFlight }

/-- Operation `n` completes. -/
def complete (f : Flight ο β) (n : ℕ) (b : β) : Flight ο β :=
  { f with inFlight := f.inFlight.erase n, queue := f.queue ++ [(n, b)] }

/-- A completion has been read, and `rest` is left. -/
def read (f : Flight ο β) (rest : List (ℕ × β)) : Flight ο β := { f with queue := rest }

/-- Every operation that is due has been counted once when its completion has been read, and
none has been counted twice. -/
def Once (f : Flight ο β) (count : ℕ → ℕ) (Due : ο → Prop) : Prop :=
  (∀ n, count n ≤ 1) ∧ ∀ n, ∀ o ∈ f.operations[n]?, Due o → n ∉ f.pending → count n = 1

/-- Each operation is pending once at most, and nothing is counted before its completion is
read. -/
structure Accounted (f : Flight ο β) (count : ℕ → ℕ) (Due : ο → Prop) : Prop where
  once : f.Once count Due
  nodup : f.pending.Nodup
  known : ∀ n ∈ f.pending, n < f.operations.length
  staying : ∀ n ∈ f.pending, count n = 0
  unposted : ∀ n, f.operations.length ≤ n → count n = 0

section

variable {f : Flight ο β} {count : ℕ → ℕ} {Due : ο → Prop} {n : ℕ} {o : ο} {b : β}
  {rest : List (ℕ × β)}

theorem accounted_empty : (empty : Flight ο β).Accounted (fun _ => 0) Due where
  once := ⟨fun _ => Nat.zero_le 1, fun n o ho => absurd ho (by simp [empty])⟩
  nodup := List.nodup_nil
  known := fun n hn => absurd hn List.not_mem_nil
  staying := fun n hn => absurd hn List.not_mem_nil
  unposted := fun _ _ => rfl

/-- Less can become due. -/
theorem Accounted.mono (h : f.Accounted count Due) {Due' : ο → Prop}
    (hdue : ∀ o ∈ f.operations, Due' o → Due o) : f.Accounted count Due' :=
  ⟨⟨h.once.1, fun n o ho hd hn => h.once.2 n o ho (hdue o (List.mem_of_getElem? ho) hd) hn⟩,
    h.nodup, h.known, h.staying, h.unposted⟩

theorem length_post (f : Flight ο β) (o : ο) :
    (f.post o).operations.length = f.operations.length + 1 := by
  simp [post]

theorem getElem?_post (hn : n < f.operations.length) :
    (f.post o).operations[n]? = f.operations[n]? :=
  List.getElem?_append_left hn

/-- **An operation is posted**, under a new number. -/
theorem Accounted.post (h : f.Accounted count Due) (o : ο) : (f.post o).Accounted count Due := by
  have hpending : (f.post o).pending = f.operations.length :: f.pending := rfl
  have hnew : f.operations.length ∉ f.pending := fun hmem => (h.known _ hmem).false
  refine ⟨⟨h.once.1, fun n p hp hdue hn => ?_⟩, ?_, fun n hn => ?_, fun n hn => ?_, fun n hn => ?_⟩
  · obtain ⟨hne, hn⟩ := not_or.mp (mt List.mem_cons.mpr (hpending ▸ hn))
    have hlt : n < f.operations.length := by
      have hle : n < (f.post o).operations.length := (List.getElem?_eq_some_iff.mp hp).1
      rw [length_post] at hle
      omega
    exact h.once.2 n p ((getElem?_post hlt).symm.trans hp) hdue hn
  · rw [hpending]
    exact List.nodup_cons.mpr ⟨hnew, h.nodup⟩
  · rw [length_post]
    rcases List.mem_cons.mp (hpending ▸ hn) with rfl | hn
    · exact Nat.lt_succ_self _
    · exact (h.known n hn).trans (Nat.lt_succ_self _)
  · rcases List.mem_cons.mp (hpending ▸ hn) with rfl | hn
    · exact h.unposted _ le_rfl
    · exact h.staying n hn
  · rw [length_post] at hn
    exact h.unposted n (by omega)

/-- Completing an operation leaves it pending. -/
theorem Accounted.complete (h : f.Accounted count Due) (hn : n ∈ f.inFlight) (b : β) :
    (f.complete n b).Accounted count Due := by
  have hperm : (f.complete n b).pending.Perm f.pending := by
    show (f.inFlight.erase n ++ (f.queue ++ [(n, b)]).map Prod.fst).Perm f.pending
    rw [List.map_append, ← List.append_assoc]
    exact (List.perm_append_singleton n _).trans ((List.perm_cons_erase hn).symm.append_right _)
  exact ⟨⟨h.once.1, fun m o ho hdue hm => h.once.2 m o ho hdue (mt hperm.mem_iff.mpr hm)⟩,
    hperm.nodup_iff.mpr h.nodup, fun m hm => h.known m (hperm.mem_iff.mp hm),
    fun m hm => h.staying m (hperm.mem_iff.mp hm), h.unposted⟩

/-! ## Reading a completion -/

/-- Reading a completion takes one operation away from the pending ones. -/
theorem pending_perm (hqueue : f.queue = (n, b) :: rest) :
    f.pending.Perm (n :: (f.read rest).pending) := by
  rw [pending, hqueue]
  exact List.perm_middle

theorem mem_pending (hqueue : f.queue = (n, b) :: rest) : n ∈ f.pending :=
  (pending_perm hqueue).mem_iff.mpr List.mem_cons_self

/-- The operation whose completion has been read is pending no more. -/
theorem Accounted.not_pending (h : f.Accounted count Due) (hqueue : f.queue = (n, b) :: rest) :
    n ∉ (f.read rest).pending :=
  (List.nodup_cons.mp ((pending_perm hqueue).nodup_iff.mp h.nodup)).1

/-- **A completion is read**, and the operation is counted if it is due. -/
theorem Accounted.read (h : f.Accounted count Due) (hqueue : f.queue = (n, b) :: rest) {k : ℕ}
    (hk : k ≤ 1) (hdue : ∀ o ∈ f.operations[n]?, Due o → k = 1) :
    (f.read rest).Accounted (Function.update count n k) Due := by
  have hperm := pending_perm hqueue
  have hn : n ∈ f.pending := mem_pending hqueue
  have hmem : ∀ m ∈ (f.read rest).pending, m ∈ f.pending ∧ m ≠ n := by
    intro m hm
    refine ⟨hperm.mem_iff.mpr (List.mem_cons_of_mem n hm), ?_⟩
    rintro rfl
    exact h.not_pending hqueue hm
  refine ⟨⟨fun m => ?_, fun m o ho hd hm => ?_⟩,
    (List.nodup_cons.mp (hperm.nodup_iff.mp h.nodup)).2,
    fun m hm => h.known m (hmem m hm).1, fun m hm => ?_, fun m hm => ?_⟩
  · by_cases hmn : m = n
    · rwa [hmn, Function.update_self]
    · rw [Function.update_of_ne hmn]
      exact h.once.1 m
  · by_cases hmn : m = n
    · rw [hmn, Function.update_self]
      exact hdue o (hmn ▸ ho) hd
    · rw [Function.update_of_ne hmn]
      refine h.once.2 m o ho hd fun hin => hm ?_
      exact (List.mem_cons.mp (hperm.mem_iff.mp hin)).resolve_left hmn
  · rw [Function.update_of_ne (hmem m hm).2]
    exact h.staying m (hmem m hm).1
  · have hmn : m ≠ n := by
      rintro rfl
      exact absurd (h.known m hn) (not_lt.mpr hm)
    rw [Function.update_of_ne hmn]
    exact h.unposted m hm

/-- **What is read and due has been counted**, or some operation has not been counted once. -/
theorem Accounted.counted (h : f.Accounted count Due) (hqueue : f.queue = (n, b) :: rest)
    (ho : o ∈ f.operations[n]?) {g : Flight ο β} {count' : ℕ → ℕ} {Due' : ο → Prop}
    (hg : g.Once count' Due') (hdue : Due' o)
    (hread : g = f.read rest ∨ ∃ p, g = (f.read rest).post p) : count' n = 1 := by
  have hgone := h.not_pending hqueue
  have hlt : n < f.operations.length := h.known n (mem_pending hqueue)
  rcases hread with rfl | ⟨p, rfl⟩
  · exact hg.2 n o ho hdue hgone
  · refine hg.2 n o ((getElem?_post hlt).trans ho) hdue ?_
    exact mt List.mem_cons.mp (not_or.mpr ⟨hlt.ne, hgone⟩)

end

end Flight
