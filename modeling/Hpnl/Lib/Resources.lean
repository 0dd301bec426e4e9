import Mathlib

/-!
# A ledger of resources that are acquired and released by handle

Memory, memory regions and the like come from an environment that answers with a
handle, and are released by that handle.  A handle can come back once its resource
has been released, so the ledger numbers the resources and not the handles.

* `Resources` — the ledger; its fields keep it in order.
* `acquire`, `release`, `releaseAll` — the operations.  Releasing a handle that names
  nothing, or something that is gone, goes into the ledger too.
* `InUse`, `AtMostOnce`, `AllReleased` — a handle whose resource is still there; no
  resource released twice; every resource released exactly once.
* `Holds` — **who has what**: a partial function from handles to owners, defined at
  the handles in use and nowhere else, so that two owners never have the same.
* `allReleased_iff` — **everything has been released exactly once when nothing was
  released twice and no handle is in use**.
-/

/-- The ledger: how many resources have been acquired, which of them a handle names
(the latest), and how many times each has been released. -/
structure Resources (η : Type*) where
  made : ℕ
  owner : η → Option ℕ
  released : ℕ → ℕ
  bound : ∀ {h n}, owner h = some n → n < made
  inj : ∀ {h k n}, owner h = some n → owner k = some n → h = k
  named : ∀ {n}, n < made → released n = 0 → ∃ h, owner h = some n
  unmade : ∀ {n}, made ≤ n → released n = 0

namespace Resources

variable {η κ : Type*}

/-- Nothing has been acquired. -/
def none_made : Resources η where
  made := 0
  owner := fun _ => none
  released := fun _ => 0
  bound := by simp
  inj := by simp
  named := by simp
  unmade := by simp

/-- `h` names a resource that has not been released. -/
def InUse (r : Resources η) (h : η) : Prop :=
  match r.owner h with
  | none => False
  | some n => r.released n = 0

instance (r : Resources η) (h : η) : Decidable (r.InUse h) := by
  unfold InUse
  split <;> infer_instance

/-- No resource has been released twice. -/
def AtMostOnce (r : Resources η) : Prop := ∀ n, r.released n ≤ 1

/-- Every resource has been released, and once. -/
def AllReleased (r : Resources η) : Prop := ∀ n < r.made, r.released n = 1

instance (r : Resources η) : Decidable r.AllReleased :=
  inferInstanceAs (Decidable (∀ n < r.made, r.released n = 1))

theorem inUse_iff {r : Resources η} {h : η} :
    r.InUse h ↔ ∃ n, r.owner h = some n ∧ r.released n = 0 := by
  unfold InUse
  cases hn : r.owner h with
  | none => simp
  | some n => simp

theorem not_inUse_none_made (h : η) : ¬ (none_made : Resources η).InUse h := by
  rintro h
  exact h

theorem atMostOnce_none_made : (none_made : Resources η).AtMostOnce := fun _ => Nat.zero_le 1

/-- **Everything has been released exactly once** when nothing was released twice and
no handle is in use. -/
theorem allReleased_iff {r : Resources η} (hr : r.AtMostOnce) :
    r.AllReleased ↔ ∀ h, ¬ r.InUse h := by
  constructor
  · intro hall h huse
    obtain ⟨n, hn, hzero⟩ := inUse_iff.mp huse
    have hone : r.released n = 1 := hall n (r.bound hn)
    omega
  · intro hnone n hn
    have hle : r.released n ≤ 1 := hr n
    by_contra hne
    obtain ⟨h, hh⟩ := r.named hn (by omega)
    exact hnone h (inUse_iff.mpr ⟨n, hh, by omega⟩)

/-! ## The operations -/

/-- The environment answers with `h`, which is not in use. -/
def acquire [DecidableEq η] (r : Resources η) (h : η) (hfree : ¬ r.InUse h) : Resources η where
  made := r.made + 1
  owner := Function.update r.owner h (some r.made)
  released := r.released
  bound := by
    intro k n hk
    by_cases hkh : k = h
    · rw [hkh, Function.update_self, Option.some.injEq] at hk
      omega
    · rw [Function.update_of_ne hkh] at hk
      exact (r.bound hk).trans (Nat.lt_succ_self _)
  inj := by
    intro i j n hi hj
    by_cases hih : i = h <;> by_cases hjh : j = h
    · rw [hih, hjh]
    · rw [hih, Function.update_self, Option.some.injEq] at hi
      rw [Function.update_of_ne hjh] at hj
      exact absurd (r.bound hj) (by omega)
    · rw [hjh, Function.update_self, Option.some.injEq] at hj
      rw [Function.update_of_ne hih] at hi
      exact absurd (r.bound hi) (by omega)
    · rw [Function.update_of_ne hih] at hi
      rw [Function.update_of_ne hjh] at hj
      exact r.inj hi hj
  named := by
    intro n hn hzero
    rcases Nat.lt_succ_iff_lt_or_eq.mp hn with hlt | rfl
    · obtain ⟨k, hk⟩ := r.named hlt hzero
      refine ⟨k, ?_⟩
      rw [Function.update_of_ne, hk]
      rintro rfl
      exact hfree (inUse_iff.mpr ⟨n, hk, hzero⟩)
    · exact ⟨h, Function.update_self ..⟩
  unmade := fun hn => r.unmade (by omega)

/-- The resource that `h` names is released. -/
def release (r : Resources η) (h : η) : Resources η :=
  match hn : r.owner h with
  | none => r
  | some n =>
      { made := r.made
        owner := r.owner
        released := Function.update r.released n (r.released n + 1)
        bound := r.bound
        inj := r.inj
        named := by
          intro k hk hzero
          refine r.named hk ?_
          by_cases hkn : k = n
          · rw [hkn, Function.update_self] at hzero
            omega
          · rwa [Function.update_of_ne hkn] at hzero
        unmade := by
          intro k hk
          have hne : k ≠ n := by
            have := r.bound hn
            omega
          rw [Function.update_of_ne hne]
          exact r.unmade hk }

/-- Every handle of a list is released, one after the other. -/
def releaseAll (r : Resources η) (hs : List η) : Resources η := hs.foldl release r

theorem release_of_owner {r : Resources η} {h : η} {n : ℕ} (hn : r.owner h = some n) :
    (r.release h).owner = r.owner ∧
      (r.release h).released = Function.update r.released n (r.released n + 1) := by
  unfold release
  split
  · rename_i hnone
    exact absurd (hnone.symm.trans hn) (by simp)
  · rename_i m hm
    obtain rfl : n = m := Option.some.inj (hn.symm.trans hm)
    exact ⟨rfl, rfl⟩

theorem release_of_none {r : Resources η} {h : η} (hn : r.owner h = none) : r.release h = r := by
  unfold release
  split
  · rfl
  · rename_i m hm
    exact absurd (hn.symm.trans hm) (by simp)

theorem inUse_acquire [DecidableEq η] (r : Resources η) (h : η) (hfree : ¬ r.InUse h) (k : η) :
    (r.acquire h hfree).InUse k ↔ k = h ∨ r.InUse k := by
  rw [inUse_iff, inUse_iff]
  by_cases hk : k = h
  · rw [hk]
    exact ⟨fun _ => Or.inl rfl,
      fun _ => ⟨r.made, Function.update_self .., r.unmade le_rfl⟩⟩
  · show (∃ n, Function.update r.owner h (some r.made) k = some n ∧ r.released n = 0) ↔ _
    rw [Function.update_of_ne hk]
    exact ⟨Or.inr, fun h => h.resolve_left hk⟩

theorem inUse_release (r : Resources η) (h k : η) :
    (r.release h).InUse k ↔ k ≠ h ∧ r.InUse k := by
  cases hn : r.owner h with
  | none =>
    rw [release_of_none hn]
    refine ⟨fun hk => ⟨?_, hk⟩, fun hk => hk.2⟩
    rintro rfl
    obtain ⟨n, hk, -⟩ := inUse_iff.mp hk
    exact absurd (hn.symm.trans hk) (by simp)
  | some n =>
    obtain ⟨howner, hreleased⟩ := release_of_owner hn
    rw [inUse_iff, inUse_iff, howner, hreleased]
    constructor
    · rintro ⟨m, hm, hzero⟩
      have hne : m ≠ n := by
        rintro rfl
        rw [Function.update_self] at hzero
        omega
      rw [Function.update_of_ne hne] at hzero
      refine ⟨?_, m, hm, hzero⟩
      rintro rfl
      exact hne (Option.some.inj (hm.symm.trans hn))
    · rintro ⟨hkh, m, hm, hzero⟩
      refine ⟨m, hm, ?_⟩
      rw [Function.update_of_ne, hzero]
      rintro rfl
      exact hkh (r.inj hm hn)

theorem inUse_releaseAll (r : Resources η) (hs : List η) (k : η) :
    (r.releaseAll hs).InUse k ↔ k ∉ hs ∧ r.InUse k := by
  induction hs generalizing r with
  | nil => simp [releaseAll]
  | cons h hs ih =>
    show ((r.release h).releaseAll hs).InUse k ↔ _
    rw [ih, inUse_release, List.mem_cons, not_or]
    exact ⟨fun ⟨hks, hkh, huse⟩ => ⟨⟨hkh, hks⟩, huse⟩, fun ⟨⟨hkh, hks⟩, huse⟩ => ⟨hks, hkh, huse⟩⟩

theorem releaseAll_append (r : Resources η) (hs ks : List η) :
    r.releaseAll (hs ++ ks) = (r.releaseAll hs).releaseAll ks :=
  List.foldl_append

theorem owner_release (r : Resources η) (h : η) : (r.release h).owner = r.owner := by
  cases hn : r.owner h with
  | none => rw [release_of_none hn]
  | some n => exact (release_of_owner hn).1

theorem owner_releaseAll (r : Resources η) (hs : List η) : (r.releaseAll hs).owner = r.owner := by
  induction hs generalizing r with
  | nil => rfl
  | cons h hs ih => exact (ih (r.release h)).trans (owner_release r h)

theorem released_release [DecidableEq η] {r : Resources η} {h : η} {n : ℕ}
    (hn : r.owner h = some n) (k : η) :
    (r.release k).released n = r.released n + if k = h then 1 else 0 := by
  split
  · rename_i heq
    rw [heq, (release_of_owner hn).2, Function.update_self]
  · rename_i hne
    cases hk : r.owner k with
    | none => rw [release_of_none hk, Nat.add_zero]
    | some m =>
      rw [(release_of_owner hk).2, Function.update_of_ne, Nat.add_zero]
      rintro rfl
      exact hne (r.inj hk hn)

/-- A resource is released as many times as its handle is in the list. -/
theorem released_releaseAll [DecidableEq η] {r : Resources η} {h : η} {n : ℕ}
    (hn : r.owner h = some n) (hs : List η) :
    (r.releaseAll hs).released n = r.released n + hs.count h := by
  induction hs generalizing r with
  | nil => rfl
  | cons k hs ih =>
    have howner : (r.release k).owner h = some n := by rw [owner_release, hn]
    refine (ih howner).trans ?_
    rw [released_release hn, List.count_cons, Nat.add_assoc, Nat.add_comm (hs.count h)]
    simp only [beq_iff_eq]

/-- What has been released stays released. -/
theorem released_le_release (r : Resources η) (h : η) (n : ℕ) :
    r.released n ≤ (r.release h).released n := by
  cases hm : r.owner h with
  | none => rw [release_of_none hm]
  | some m =>
    rw [(release_of_owner hm).2]
    by_cases hn : n = m
    · rw [hn, Function.update_self]
      exact Nat.le_succ _
    · rw [Function.update_of_ne hn]

theorem atMostOnce_of_release {r : Resources η} {h : η} (hr : (r.release h).AtMostOnce) :
    r.AtMostOnce :=
  fun n => (released_le_release r h n).trans (hr n)

theorem atMostOnce_of_allReleased {r : Resources η} (hr : r.AllReleased) : r.AtMostOnce := by
  intro n
  by_cases hn : n < r.made
  · exact (hr n hn).le
  · rw [r.unmade (Nat.le_of_not_lt hn)]
    exact Nat.zero_le 1

/-- What comes and goes leaves the handles in use as they were. -/
theorem inUse_acquire_release [DecidableEq η] (r : Resources η) (h : η) (hfree : ¬ r.InUse h)
    (k : η) : ((r.acquire h hfree).release h).InUse k ↔ r.InUse k := by
  rw [inUse_release, inUse_acquire]
  constructor
  · rintro ⟨hkh, huse⟩
    exact huse.resolve_left hkh
  · intro huse
    refine ⟨?_, Or.inr huse⟩
    rintro rfl
    exact hfree huse

/-! ## At most once -/

theorem AtMostOnce.acquire [DecidableEq η] {r : Resources η} (hr : r.AtMostOnce) {h : η}
    (hfree : ¬ r.InUse h) : (r.acquire h hfree).AtMostOnce := hr

theorem AtMostOnce.release {r : Resources η} (hr : r.AtMostOnce) {h : η} (huse : r.InUse h) :
    (r.release h).AtMostOnce := by
  obtain ⟨n, hn, hzero⟩ := inUse_iff.mp huse
  intro m
  rw [(release_of_owner hn).2]
  by_cases hm : m = n
  · rw [hm, Function.update_self, hzero]
  · rw [Function.update_of_ne hm]
    exact hr m

theorem AtMostOnce.releaseAll {r : Resources η} (hr : r.AtMostOnce) {hs : List η}
    (hnodup : hs.Nodup) (huse : ∀ h ∈ hs, r.InUse h) : (r.releaseAll hs).AtMostOnce := by
  induction hs generalizing r with
  | nil => exact hr
  | cons h hs ih =>
    obtain ⟨hnot, hnodup⟩ := List.nodup_cons.mp hnodup
    refine ih (hr.release (huse h List.mem_cons_self)) hnodup fun k hk => ?_
    refine (inUse_release r h k).mpr ⟨?_, huse k (List.mem_cons_of_mem h hk)⟩
    rintro rfl
    exact hnot hk

/-! ## Who has what -/

/-- The owners have all the handles in use, and no others. -/
def Holds (r : Resources η) (holder : η → Option κ) : Prop :=
  ∀ h, r.InUse h ↔ holder h ≠ none

theorem holds_none_made : (none_made : Resources η).Holds fun _ => (none : Option κ) :=
  fun h => ⟨fun huse => absurd huse (not_inUse_none_made h), fun hne => absurd rfl hne⟩

variable {r : Resources η} {holder : η → Option κ}

theorem Holds.inUse (hr : r.Holds holder) {h : η} {k : κ} (hk : holder h = some k) : r.InUse h :=
  (hr h).mpr (hk ▸ Option.some_ne_none k)

variable [DecidableEq η]

/-- A new resource has one owner. -/
theorem Holds.acquire (hr : r.Holds holder) {h : η} (hfree : ¬ r.InUse h) (k : κ) :
    (r.acquire h hfree).Holds (Function.update holder h (some k)) := by
  intro a
  rw [inUse_acquire]
  by_cases ha : a = h
  · rw [ha, Function.update_self]
    exact ⟨fun _ => Option.some_ne_none k, fun _ => Or.inl rfl⟩
  · rw [Function.update_of_ne ha]
    exact ⟨fun huse => (hr a).mp (huse.resolve_left ha), fun hne => Or.inr ((hr a).mpr hne)⟩

/-- A released one has none. -/
theorem Holds.release (hr : r.Holds holder) (h : η) :
    (r.release h).Holds (Function.update holder h none) := by
  intro a
  rw [inUse_release]
  by_cases ha : a = h
  · rw [ha, Function.update_self]
    exact ⟨fun huse => absurd rfl huse.1, fun hne => absurd rfl hne⟩
  · rw [Function.update_of_ne ha]
    exact ⟨fun huse => (hr a).mp huse.2, fun hne => ⟨ha, (hr a).mpr hne⟩⟩

/-- What has an owner can be passed on. -/
theorem Holds.pass (hr : r.Holds holder) {h : η} (hne : holder h ≠ none) (k : κ) :
    r.Holds (Function.update holder h (some k)) := by
  intro a
  by_cases ha : a = h
  · rw [ha, Function.update_self]
    exact ⟨fun _ => Option.some_ne_none k, fun _ => (hr h).mpr hne⟩
  · rw [Function.update_of_ne ha]
    exact hr a

end Resources
