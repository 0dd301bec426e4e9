import Mathlib

/-!
# Things that lie in places

A system moves things around: each place has a list of the things that lie there.  What is
to hold is that nothing lies in two places, or in one place twice.

* `Sorted` — nothing does.
* `put`, `take`, `move` — a thing is put into a place, or taken from one, or both.
* `Sorted.sublist`, `Sorted.perm` — less may lie there, and in another order.
* `Sorted.put`, `Sorted.take`, `Sorted.move` — **the places stay sorted when what is put down
  lies nowhere**, and so when a thing is moved.
* `mem_put`, `mem_of_mem_take`, `Sorted.mem_take` — what lies where afterwards.
* `length_put`, `length_take` — how much lies there.
-/

namespace Places

variable {κ α : Type*}

/-- Nothing lies in two places, or in one twice. -/
structure Sorted (at' : κ → List α) : Prop where
  nodup : ∀ k, (at' k).Nodup
  one : ∀ {k l a}, a ∈ at' k → a ∈ at' l → k = l

/-- The thing lies somewhere. -/
def Lies (at' : κ → List α) (a : α) : Prop := ∃ k, a ∈ at' k

theorem sorted_empty : Sorted fun _ : κ => ([] : List α) where
  nodup := fun _ => List.nodup_nil
  one := fun ha _ => absurd ha List.not_mem_nil

/-- What lies somewhere lies in one place. -/
theorem Sorted.existsUnique {at' : κ → List α} (h : Sorted at') {a : α} (ha : Lies at' a) :
    ∃! k, a ∈ at' k := by
  obtain ⟨k, hk⟩ := ha
  exact ⟨k, hk, fun l hl => h.one hl hk⟩

/-- Things may be taken away. -/
theorem Sorted.sublist {at' at'' : κ → List α} (h : Sorted at')
    (hsub : ∀ k, (at'' k).Sublist (at' k)) : Sorted at'' where
  nodup := fun k => (h.nodup k).sublist (hsub k)
  one := fun ha hb => h.one ((hsub _).subset ha) ((hsub _).subset hb)

/-- The order in which things lie does not matter. -/
theorem Sorted.perm {at' at'' : κ → List α} (h : Sorted at')
    (hperm : ∀ k, (at'' k).Perm (at' k)) : Sorted at'' where
  nodup := fun k => (hperm k).nodup_iff.mpr (h.nodup k)
  one := fun ha hb => h.one ((hperm _).mem_iff.mp ha) ((hperm _).mem_iff.mp hb)

variable [DecidableEq κ] {at' : κ → List α} {k l : κ} {a b : α}

/-! ## Putting a thing down -/

/-- A thing is put into a place. -/
def put (at' : κ → List α) (k : κ) (a : α) : κ → List α := Function.update at' k (a :: at' k)

theorem put_of_ne (hlk : l ≠ k) : put at' k a l = at' l := Function.update_of_ne hlk ..

theorem length_put (at' : κ → List α) (k : κ) (a : α) :
    (put at' k a k).length = (at' k).length + 1 := by
  rw [put, Function.update_self, List.length_cons]

theorem mem_put : b ∈ put at' k a l ↔ l = k ∧ b = a ∨ b ∈ at' l := by
  by_cases hlk : l = k
  · rw [hlk, put, Function.update_self, List.mem_cons]
    simp
  · rw [put_of_ne hlk]
    simp [hlk]

theorem lies_put : Lies (put at' k a) b ↔ b = a ∨ Lies at' b := by
  constructor
  · rintro ⟨l, hl⟩
    rcases mem_put.mp hl with ⟨-, rfl⟩ | hl
    · exact Or.inl rfl
    · exact Or.inr ⟨l, hl⟩
  · rintro (rfl | ⟨l, hl⟩)
    · exact ⟨k, mem_put.mpr (Or.inl ⟨rfl, rfl⟩)⟩
    · exact ⟨l, mem_put.mpr (Or.inr hl)⟩

/-- **What lay nowhere lies in one place.** -/
theorem Sorted.put (h : Sorted at') (hnew : ¬ Lies at' a) (k : κ) : Sorted (put at' k a) where
  nodup := by
    intro l
    by_cases hlk : l = k
    · rw [hlk, Places.put, Function.update_self]
      exact List.nodup_cons.mpr ⟨fun ha => hnew ⟨k, ha⟩, h.nodup k⟩
    · rw [put_of_ne hlk]
      exact h.nodup l
  one := by
    intro l m b hl hm
    rcases mem_put.mp hl with ⟨hlk, hb⟩ | hl
    · rcases mem_put.mp hm with ⟨hmk, -⟩ | hm
      · exact hlk.trans hmk.symm
      · exact absurd ⟨m, hb ▸ hm⟩ hnew
    · rcases mem_put.mp hm with ⟨-, hb⟩ | hm
      · exact absurd ⟨l, hb ▸ hl⟩ hnew
      · exact h.one hl hm

/-- It may be put last. -/
theorem Sorted.append (h : Sorted at') (hnew : ¬ Lies at' a) (k : κ) :
    Sorted (Function.update at' k (at' k ++ [a])) := by
  refine (h.put hnew k).perm fun l => ?_
  by_cases hlk : l = k
  · rw [hlk, Places.put, Function.update_self, Function.update_self]
    exact List.perm_append_singleton a _
  · rw [Function.update_of_ne hlk, put_of_ne hlk]

/-! ## Taking a thing -/

variable [DecidableEq α]

/-- A thing is taken from a place. -/
def take (at' : κ → List α) (k : κ) (a : α) : κ → List α :=
  Function.update at' k ((at' k).erase a)

theorem take_of_ne (hlk : l ≠ k) : take at' k a l = at' l := Function.update_of_ne hlk ..

theorem length_take (ha : a ∈ at' k) : (take at' k a k).length + 1 = (at' k).length := by
  rw [take, Function.update_self]
  exact List.length_erase_add_one ha

theorem mem_of_mem_take (hb : b ∈ take at' k a l) : b ∈ at' l := by
  by_cases hlk : l = k
  · rw [hlk, take, Function.update_self] at hb
    exact hlk ▸ List.mem_of_mem_erase hb
  · rwa [take_of_ne hlk] at hb

theorem Sorted.mem_take (h : Sorted at') (ha : a ∈ at' k) :
    b ∈ take at' k a l ↔ b ≠ a ∧ b ∈ at' l := by
  by_cases hlk : l = k
  · rw [hlk, take, Function.update_self]
    exact (h.nodup k).mem_erase_iff
  · rw [take_of_ne hlk]
    refine ⟨fun hb => ⟨?_, hb⟩, fun hb => hb.2⟩
    rintro rfl
    exact hlk (h.one hb ha)

theorem Sorted.lies_take (h : Sorted at') (ha : a ∈ at' k) :
    Lies (take at' k a) b ↔ b ≠ a ∧ Lies at' b := by
  constructor
  · rintro ⟨l, hl⟩
    obtain ⟨hne, hl⟩ := (h.mem_take ha).mp hl
    exact ⟨hne, l, hl⟩
  · rintro ⟨hne, l, hl⟩
    exact ⟨l, (h.mem_take ha).mpr ⟨hne, hl⟩⟩

theorem Sorted.take (h : Sorted at') (ha : a ∈ at' k) : Sorted (take at' k a) where
  nodup := by
    intro l
    by_cases hlk : l = k
    · rw [hlk, Places.take, Function.update_self]
      exact (h.nodup k).erase a
    · rw [take_of_ne hlk]
      exact h.nodup l
  one := fun hl hm => h.one ((h.mem_take ha).mp hl).2 ((h.mem_take ha).mp hm).2

/-! ## Moving a thing -/

/-- A thing is taken from one place and put into another. -/
def move (at' : κ → List α) (k l : κ) (a : α) : κ → List α := put (take at' k a) l a

theorem move_of_ne {m : κ} (hk : m ≠ k) (hl : m ≠ l) : move at' k l a m = at' m :=
  (put_of_ne hl).trans (take_of_ne hk)

/-- Moving a thing leaves what lies somewhere as it is. -/
theorem Sorted.lies_move (h : Sorted at') (ha : a ∈ at' k) :
    Lies (move at' k l a) b ↔ Lies at' b := by
  rw [move, lies_put, h.lies_take ha]
  by_cases hba : b = a
  · rw [hba]
    exact ⟨fun _ => ⟨k, ha⟩, fun _ => Or.inl rfl⟩
  · exact ⟨fun hb => (hb.resolve_left hba).2, fun hb => Or.inr ⟨hba, hb⟩⟩

/-- **A thing that is moved still lies in one place.** -/
theorem Sorted.move (h : Sorted at') (ha : a ∈ at' k) (l : κ) : Sorted (move at' k l a) :=
  (h.take ha).put (fun hlies => ((h.lies_take ha).mp hlies).1 rfl) l

end Places
