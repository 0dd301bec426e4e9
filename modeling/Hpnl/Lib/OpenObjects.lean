import Mathlib

/-!
# Objects that are opened on other objects

An object is opened on others, and cannot be closed while one that was opened on it is open:
such a close is refused, and the object stays.  The objects are numbered as they are opened.

* `OpenObjects` — what has been opened, on what, and what has been closed; `opened`, `attach`,
  `close` — the operations.
* `Tracks` — a list of what is open, each before those that it was opened on; everything else has
  been closed, by the only call for it.
* `Tracks.closeAll` — **such a list can be closed from the front, and nothing is refused**.
* `Lost` — something is open that is not in the list; it stays open whatever is closed from there.
-/

/-- The objects so far.  `calls` are those that a close was called for, in order, and `closed`
those for which it was not refused. -/
structure OpenObjects where
  made : ℕ
  parents : ℕ → List ℕ
  closed : List ℕ
  calls : List ℕ

namespace OpenObjects

/-- Nothing has been opened. -/
def none_opened : OpenObjects := ⟨0, fun _ => [], [], []⟩

def IsOpen (o : OpenObjects) (i : ℕ) : Prop := i < o.made ∧ i ∉ o.closed

/-- Another object is open that was opened on it. -/
def Busy (o : OpenObjects) (i : ℕ) : Prop :=
  ∃ j, j < o.made ∧ j ∉ o.closed ∧ j ≠ i ∧ i ∈ o.parents j

instance (o : OpenObjects) (i : ℕ) : Decidable (o.IsOpen i) := inferInstanceAs (Decidable (_ ∧ _))

instance (o : OpenObjects) (i : ℕ) : Decidable (o.Busy i) :=
  inferInstanceAs (Decidable (∃ j, j < o.made ∧ _))

/-- A new object, with the number `o.made`. -/
def opened (o : OpenObjects) (parents : List ℕ) : OpenObjects :=
  { o with made := o.made + 1, parents := Function.update o.parents o.made parents }

/-- An object is attached to one more. -/
def attach (o : OpenObjects) (i parent : ℕ) : OpenObjects :=
  { o with parents := Function.update o.parents i (parent :: o.parents i) }

def close (o : OpenObjects) (i : ℕ) : OpenObjects :=
  { o with
    calls := o.calls ++ [i]
    closed := if o.IsOpen i ∧ ¬ o.Busy i then o.closed ++ [i] else o.closed }

/-- The objects of a list are closed, one after the other. -/
def closeAll (o : OpenObjects) (is : List ℕ) : OpenObjects := is.foldl close o

/-- The objects that are open, none of them opened on one before it. -/
structure Tracks (o : OpenObjects) (is : List ℕ) : Prop where
  perm : (o.closed ++ is).Perm (List.range o.made)
  once : o.calls = o.closed
  order : is.Pairwise fun i j => i ∉ o.parents j
  older : ∀ j, ∀ p ∈ o.parents j, p < o.made

/-- Everything has been closed, by the only call for it. -/
def ClosedOnce (o : OpenObjects) : Prop := o.calls = o.closed ∧ o.closed.Perm (List.range o.made)

/-- Something is open that is not in the list. -/
def Lost (o : OpenObjects) (is : List ℕ) : Prop := ∃ i, o.IsOpen i ∧ i ∉ is

instance (o : OpenObjects) : Decidable o.ClosedOnce := inferInstanceAs (Decidable (_ ∧ _))

variable {o : OpenObjects} {is js ps : List ℕ} {i k p : ℕ}

@[simp] theorem made_opened (o : OpenObjects) (ps : List ℕ) : (o.opened ps).made = o.made + 1 := rfl

@[simp] theorem made_attach (o : OpenObjects) (i p : ℕ) : (o.attach i p).made = o.made := rfl

@[simp] theorem made_close (o : OpenObjects) (i : ℕ) : (o.close i).made = o.made := rfl

theorem closeAll_append (o : OpenObjects) (is js : List ℕ) :
    o.closeAll (is ++ js) = (o.closeAll is).closeAll js :=
  List.foldl_append

theorem tracks_none_opened : none_opened.Tracks [] :=
  ⟨List.Perm.refl _, rfl, List.Pairwise.nil, fun _ _ hp => absurd hp List.not_mem_nil⟩

namespace Tracks

theorem closedOnce (h : o.Tracks []) : o.ClosedOnce := by
  have hperm := h.perm
  rw [List.append_nil] at hperm
  exact ⟨h.once, hperm⟩

theorem nodup (h : o.Tracks is) : (o.closed ++ is).Nodup :=
  h.perm.nodup_iff.mpr List.nodup_range

theorem mem_iff (h : o.Tracks is) : i ∈ is ↔ o.IsOpen i := by
  have hmem : i ∈ o.closed ++ is ↔ i < o.made := (h.perm.mem_iff).trans List.mem_range
  rw [List.mem_append] at hmem
  have hdisjoint := (List.nodup_append.mp h.nodup).2.2
  constructor
  · intro hi
    exact ⟨hmem.mp (Or.inr hi), fun hc => hdisjoint i hc i hi rfl⟩
  · rintro ⟨hlt, hnot⟩
    exact (hmem.mpr hlt).resolve_left hnot

/-! ## The operations -/

/-- A new object, somewhere before those that it is opened on. -/
theorem opened (h : o.Tracks (is ++ js)) (hps : ∀ p ∈ ps, p < o.made ∧ p ∉ is) :
    (o.opened ps).Tracks (is ++ o.made :: js) := by
  have hold : ∀ i ∈ is ++ js, i < o.made := fun i hi => (h.mem_iff.mp hi).1
  have hkept : ∀ i ∈ is ++ js, (o.opened ps).parents i = o.parents i := fun i hi =>
    Function.update_of_ne (hold i hi).ne _ _
  obtain ⟨his, hjs, hcross⟩ := List.pairwise_append.mp h.order
  refine ⟨?_, h.once, ?_, ?_⟩
  · have hfirst : (o.closed ++ (is ++ o.made :: js)).Perm (o.made :: (o.closed ++ (is ++ js))) := by
      rw [← List.append_assoc, ← List.append_assoc]
      exact List.perm_middle
    have hlast : (o.made :: List.range o.made).Perm (List.range (o.made + 1)) := by
      rw [List.range_succ]
      exact (List.perm_append_singleton _ _).symm
    exact (hfirst.trans (h.perm.cons _)).trans hlast
  · refine List.pairwise_append.mpr ⟨?_, List.pairwise_cons.mpr ⟨?_, ?_⟩, ?_⟩
    · refine his.imp_of_mem fun _ hj hij => ?_
      rw [hkept _ (List.mem_append_left _ hj)]
      exact hij
    · intro j hj hmade
      rw [hkept j (List.mem_append_right _ hj)] at hmade
      exact absurd (h.older j _ hmade) (lt_irrefl _)
    · refine hjs.imp_of_mem fun _ hj hij => ?_
      rw [hkept _ (List.mem_append_right _ hj)]
      exact hij
    · intro i hi j hj
      rcases List.mem_cons.mp hj with rfl | hj
      · show i ∉ Function.update o.parents o.made ps o.made
        rw [Function.update_self]
        exact fun hip => (hps i hip).2 hi
      · rw [hkept j (List.mem_append_right _ hj)]
        exact hcross i hi j hj
  · intro j p hp
    by_cases hj : j = o.made
    · subst hj
      have hps' : p ∈ ps := by
        have hp' : p ∈ Function.update o.parents o.made ps o.made := hp
        rwa [Function.update_self] at hp'
      exact Nat.lt_succ_of_lt (hps p hps').1
    · have hp' : p ∈ Function.update o.parents o.made ps j := hp
      rw [Function.update_of_ne hj] at hp'
      exact Nat.lt_succ_of_lt (h.older j p hp')

/-- An object is attached to one that comes after it in the list. -/
theorem attach (h : o.Tracks (is ++ i :: js)) (hlt : p < o.made) (hp : p ∉ is) :
    (o.attach i p).Tracks (is ++ i :: js) := by
  obtain ⟨his, hijs, hcross⟩ := List.pairwise_append.mp h.order
  obtain ⟨hi, hjs⟩ := List.pairwise_cons.mp hijs
  have hnot : i ∉ is ++ js :=
    (List.nodup_middle.mp (List.nodup_append.mp h.nodup).2.1).notMem
  have hkept : ∀ j ∈ is ++ js, (o.attach i p).parents j = o.parents j := by
    intro j hj
    apply Function.update_of_ne
    rintro rfl
    exact hnot hj
  have hself : (o.attach i p).parents i = p :: o.parents i := Function.update_self ..
  refine ⟨h.perm, h.once, ?_, ?_⟩
  · refine List.pairwise_append.mpr ⟨?_, List.pairwise_cons.mpr ⟨?_, ?_⟩, ?_⟩
    · refine his.imp_of_mem fun _ hj hij => ?_
      rw [hkept _ (List.mem_append_left _ hj)]
      exact hij
    · intro j hj
      rw [hkept j (List.mem_append_right _ hj)]
      exact hi j hj
    · refine hjs.imp_of_mem fun _ hj hij => ?_
      rw [hkept _ (List.mem_append_right _ hj)]
      exact hij
    · intro a ha j hj
      rcases List.mem_cons.mp hj with rfl | hj'
      · rw [hself, List.mem_cons, not_or]
        exact ⟨fun heq => hp (heq ▸ ha), hcross a ha j hj⟩
      · rw [hkept j (List.mem_append_right _ hj')]
        exact hcross a ha j hj
  · intro j q hq
    by_cases hj : j = i
    · rw [hj, hself] at hq
      rcases List.mem_cons.mp hq with rfl | hq
      · exact hlt
      · exact h.older i q hq
    · have hq' : q ∈ Function.update o.parents i (p :: o.parents i) j := hq
      rw [Function.update_of_ne hj] at hq'
      exact h.older j q hq'

/-- The first of the list is closed. -/
theorem close (h : o.Tracks (i :: is)) : (o.close i).Tracks is := by
  have hopen := h.mem_iff.mp List.mem_cons_self
  have hfree : ¬ o.Busy i := by
    rintro ⟨j, hlt, hnot, hne, hparent⟩
    have hj := (h.mem_iff.mpr ⟨hlt, hnot⟩ : j ∈ i :: is)
    rcases List.mem_cons.mp hj with rfl | hj
    · exact hne rfl
    · exact List.rel_of_pairwise_cons h.order hj hparent
  have hclosed : (o.close i).closed = o.closed ++ [i] := if_pos ⟨hopen, hfree⟩
  refine ⟨?_, ?_, (List.pairwise_cons.mp h.order).2, h.older⟩
  · rw [hclosed, List.append_assoc]
    exact h.perm
  · rw [hclosed, ← h.once]
    rfl

/-- **A list of what is open can be closed** from the front, and nothing is refused. -/
theorem closeAll (h : o.Tracks (is ++ js)) : (o.closeAll is).Tracks js := by
  induction is generalizing o with
  | nil => exact h
  | cons i is ih => exact ih h.close

end Tracks

/-! ## What is lost -/

/-- An object that is open and not in the list was not closed. -/
theorem Lost.not_closedOnce (h : o.Lost is) : ¬ o.ClosedOnce := by
  rintro ⟨-, hperm⟩
  obtain ⟨i, ⟨hlt, hnot⟩, -⟩ := h
  exact hnot (hperm.mem_iff.mpr (List.mem_range.mpr hlt))

theorem IsOpen.opened (h : o.IsOpen i) (ps : List ℕ) : (o.opened ps).IsOpen i :=
  ⟨Nat.lt_succ_of_lt h.1, h.2⟩

theorem IsOpen.attach (h : o.IsOpen i) (k p : ℕ) : (o.attach k p).IsOpen i := h

/-- Nothing else is closed. -/
theorem IsOpen.close (h : o.IsOpen i) (hne : i ≠ k) : (o.close k).IsOpen i := by
  refine ⟨h.1, fun hclosed => ?_⟩
  have hclosed' : i ∈ if o.IsOpen k ∧ ¬ o.Busy k then o.closed ++ [k] else o.closed := hclosed
  split at hclosed'
  · rcases List.mem_append.mp hclosed' with hc | hc
    · exact h.2 hc
    · exact hne (List.mem_singleton.mp hc)
  · exact h.2 hclosed'

theorem IsOpen.closeAll (h : o.IsOpen i) (hi : i ∉ is) : (o.closeAll is).IsOpen i := by
  induction is generalizing o with
  | nil => exact h
  | cons k is ih =>
    obtain ⟨hik, his⟩ := not_or.mp fun hor => hi (List.mem_cons.mpr hor)
    exact ih (h.close hik) his

/-- **What is lost stays open**, when the list is closed. -/
theorem Lost.closeAll (h : o.Lost is) : (o.closeAll is).Lost [] := by
  obtain ⟨i, hopen, hi⟩ := h
  exact ⟨i, hopen.closeAll hi, List.not_mem_nil⟩

end OpenObjects
