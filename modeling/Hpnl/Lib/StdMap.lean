import Mathlib

/-!
# `std::map`, `std::unordered_map` and their quirks

A C++ ordered map is an extensional tree map over the key's order, so that
iterating it yields its entries in key order.  Three operations differ from
what their names suggest and are the ones program text uses most:

* `index` — `m[k]` as an expression: it *inserts* a default value when the key
  is missing and then reads it (`find?_index_self`);
* `insertNew` — `m.insert({k, v})`: it keeps an entry that is already there
  (`insertNew_of_some`);
* `assign` — `m[k] = v`, which does replace it (`find?_assign`).

`OnlyAt` says which value a key can have.  `mem_entries` connects iteration
with lookup and `entries_keys_nodup` says each key is visited once.
-/

/-- `std::map<κ, α>`: a finite map iterated in key order. -/
abbrev StdMap (κ α : Type*) [Ord κ] := Std.ExtTreeMap κ α compare

namespace StdMap

variable {κ α : Type*} [Ord κ] [Std.TransOrd κ]

/-! ## The operations -/

/-- `m.find(k)`, or the value found there. -/
def find? (m : StdMap κ α) (k : κ) : Option α := m[k]?

/-- `m.count(k) != 0`. -/
def has (m : StdMap κ α) (k : κ) : Bool := (m.find? k).isSome

/-- `m[k] = v`: insert or replace. -/
def assign (m : StdMap κ α) (k : κ) (v : α) : StdMap κ α := m.insert k v

/-- `m.insert({k, v})`: insert, keeping an entry that is already there. -/
def insertNew (m : StdMap κ α) (k : κ) (v : α) : StdMap κ α :=
  if m.has k then m else m.assign k v

/-- The map after evaluating `m[k]`: a missing key is entered with the default. -/
def index (m : StdMap κ α) (k : κ) (dflt : α) : StdMap κ α := m.insertNew k dflt

/-- The value of the expression `m[k]`. -/
def value (m : StdMap κ α) (k : κ) (dflt : α) : α := (m.find? k).getD dflt

/-- `m.erase(k)`. -/
def remove (m : StdMap κ α) (k : κ) : StdMap κ α := m.erase k

/-- The entries in the order a range-`for` visits them. -/
def entries (m : StdMap κ α) : List (κ × α) := m.toList

/-! ## Lookups -/

@[simp] theorem find?_empty (k : κ) : (∅ : StdMap κ α).find? k = none := by
  simp [find?]

theorem find?_empty_ne {k : κ} {v : α} : (∅ : StdMap κ α).find? k ≠ some v := by
  simp

@[simp] theorem entries_empty : (∅ : StdMap κ α).entries = [] := by
  simp [entries]

theorem has_eq_true_iff {m : StdMap κ α} {k : κ} : m.has k = true ↔ ∃ v, m.find? k = some v :=
  Option.isSome_iff_exists

theorem has_eq_false_iff {m : StdMap κ α} {k : κ} : m.has k = false ↔ m.find? k = none := by
  simp [has]

theorem value_of_some {m : StdMap κ α} {k : κ} (d : α) {w : α} (h : m.find? k = some w) :
    m.value k d = w := by
  rw [value, h]
  rfl

theorem insertNew_of_none {m : StdMap κ α} {k : κ} (v : α) (h : m.find? k = none) :
    m.insertNew k v = m.assign k v := by
  rw [insertNew, has_eq_false_iff.mpr h]
  rfl

theorem insertNew_of_some {m : StdMap κ α} {k : κ} (v : α) {w : α} (h : m.find? k = some w) :
    m.insertNew k v = m := by
  rw [insertNew, has_eq_true_iff.mpr ⟨w, h⟩]
  rfl

theorem index_of_some {m : StdMap κ α} {k : κ} (d : α) {w : α} (h : m.find? k = some w) :
    m.index k d = m :=
  insertNew_of_some d h

variable [Std.LawfulEqOrd κ]

theorem find?_assign (m : StdMap κ α) (k j : κ) (v : α) [DecidableEq κ] :
    (m.assign k v).find? j = if k = j then some v else m.find? j := by
  simp [find?, assign, Std.ExtTreeMap.getElem?_insert]

@[simp] theorem find?_assign_self (m : StdMap κ α) (k : κ) (v : α) :
    (m.assign k v).find? k = some v := by
  simp [find?, assign]

theorem find?_assign_of_ne (m : StdMap κ α) {k j : κ} (v : α) (h : k ≠ j) :
    (m.assign k v).find? j = m.find? j := by
  simp [find?, assign, Std.ExtTreeMap.getElem?_insert, h]

theorem find?_remove (m : StdMap κ α) (k j : κ) [DecidableEq κ] :
    (m.remove k).find? j = if k = j then none else m.find? j := by
  simp [find?, remove, Std.ExtTreeMap.getElem?_erase]

@[simp] theorem find?_remove_self (m : StdMap κ α) (k : κ) : (m.remove k).find? k = none := by
  simp [find?, remove]

theorem find?_remove_of_ne (m : StdMap κ α) {k j : κ} (h : k ≠ j) :
    (m.remove k).find? j = m.find? j := by
  simp [find?, remove, Std.ExtTreeMap.getElem?_erase, h]

theorem find?_remove_eq_some {m : StdMap κ α} {k j : κ} {v : α} :
    (m.remove k).find? j = some v ↔ j ≠ k ∧ m.find? j = some v := by
  by_cases hj : k = j
  · simp [hj]
  · rw [find?_remove_of_ne m hj]
    simp [Ne.symm hj]

theorem has_assign_iff {m : StdMap κ α} {k j : κ} {v : α} :
    (m.assign k v).has j = true ↔ j = k ∨ m.has j = true := by
  by_cases hj : k = j
  · simp [has, hj]
  · simp [has, find?_assign_of_ne m v hj, Ne.symm hj]

theorem has_remove_iff {m : StdMap κ α} {k j : κ} :
    (m.remove k).has j = true ↔ j ≠ k ∧ m.has j = true := by
  by_cases hj : k = j
  · simp [has, hj]
  · simp [has, find?_remove_of_ne m hj, Ne.symm hj]

theorem find?_insertNew_eq_some {m : StdMap κ α} {k j : κ} {v a : α} (h : m.find? k = none) :
    (m.insertNew k v).find? j = some a ↔ j = k ∧ a = v ∨ m.find? j = some a := by
  rw [insertNew_of_none v h]
  by_cases hj : k = j
  · subst hj
    simp [h, eq_comm]
  · rw [find?_assign_of_ne m v hj]
    simp [Ne.symm hj]

theorem find?_insertNew_of_ne (m : StdMap κ α) {k j : κ} (v : α) (h : k ≠ j) :
    (m.insertNew k v).find? j = m.find? j := by
  cases hk : m.find? k with
  | none => rw [insertNew_of_none v hk, find?_assign_of_ne m v h]
  | some w => rw [insertNew_of_some v hk]

theorem find?_index_of_ne (m : StdMap κ α) {k j : κ} (d : α) (h : k ≠ j) :
    (m.index k d).find? j = m.find? j :=
  find?_insertNew_of_ne m d h

/-- After `m[k]` the key is there, with the value the expression had. -/
@[simp] theorem find?_index_self (m : StdMap κ α) (k : κ) (d : α) :
    (m.index k d).find? k = some (m.value k d) := by
  cases hk : m.find? k with
  | none => simp [index, value, insertNew_of_none d hk, hk]
  | some w => simp [index, value, insertNew_of_some d hk, hk]

/-! ## Keys with one possible value -/

/-- The entry of the key, if there is one, is this value. -/
def OnlyAt (m : StdMap κ α) (k : κ) (v : α) : Prop := ∀ w ∈ m.find? k, w = v

instance [DecidableEq α] (m : StdMap κ α) (k : κ) (v : α) : Decidable (m.OnlyAt k v) :=
  inferInstanceAs (Decidable (∀ w ∈ m.find? k, w = v))

omit [Std.LawfulEqOrd κ] in
theorem OnlyAt.mono {m m' : StdMap κ α} {k : κ} {v : α} (h : m.OnlyAt k v)
    (hsub : ∀ w, m'.find? k = some w → m.find? k = some w) : m'.OnlyAt k v :=
  fun w hw => h w (hsub w hw)

theorem OnlyAt.insertNew {m : StdMap κ α} {k j : κ} {v w : α} (h : m.OnlyAt k v)
    (hw : j = k → w = v) : (m.insertNew j w).OnlyAt k v := by
  intro a ha
  replace ha : (m.insertNew j w).find? k = some a := ha
  cases hj : m.find? j with
  | none =>
    obtain ⟨hkj, rfl⟩ | hold := (find?_insertNew_eq_some hj).mp ha
    · exact hw hkj.symm
    · exact h a hold
  | some b =>
    rw [insertNew_of_some w hj] at ha
    exact h a ha

theorem OnlyAt.assign [DecidableEq κ] {m : StdMap κ α} {k j : κ} {v w : α} (h : m.OnlyAt k v)
    (hw : j = k → w = v) : (m.assign j w).OnlyAt k v := by
  intro a ha
  replace ha : (m.assign j w).find? k = some a := ha
  rw [find?_assign] at ha
  split at ha
  · rename_i hjk
    cases ha
    exact hw hjk
  · exact h a ha

/-- The removal of a key that can only have `v` takes no other value. -/
theorem OnlyAt.find?_remove {m : StdMap κ α} {k j : κ} {v w : α} (h : m.OnlyAt k v)
    (hw : w ≠ v) (hj : m.find? j = some w) : (m.remove k).find? j = some w :=
  find?_remove_eq_some.mpr ⟨fun hjk => hw (h w (hjk ▸ hj)), hj⟩

/-! ## Iteration -/

theorem mem_entries {m : StdMap κ α} {k : κ} {v : α} :
    (k, v) ∈ m.entries ↔ m.find? k = some v :=
  Std.ExtTreeMap.mem_toList_iff_getElem?_eq_some

/-- Iteration visits each key once. -/
theorem entries_keys_nodup (m : StdMap κ α) : (m.entries.map Prod.fst).Nodup := by
  rw [List.Nodup, List.pairwise_map]
  refine List.Pairwise.imp (fun {a b} h hab => h ?_) (Std.ExtTreeMap.distinct_keys_toList (t := m))
  rw [hab]
  exact Std.ReflCmp.compare_self

/-- In a list of entries with different keys, `f` reads the value `b` exactly once when
exactly one key leads to it. -/
theorem count_filterMap_eq_one {κ α β : Type*} [DecidableEq β] {f : α → Option β} {b : β}
    {l : List (κ × α)} (hkeys : (l.map Prod.fst).Nodup) :
    (l.filterMap fun e => f e.2).count b = 1 ↔ ∃! k, ∃ v, (k, v) ∈ l ∧ f v = some b := by
  induction l with
  | nil => simp
  | cons e l ih =>
    obtain ⟨j, w⟩ := e
    rw [List.map_cons, List.nodup_cons] at hkeys
    obtain ⟨hj, hkeys⟩ := hkeys
    by_cases hw : f w = some b
    · have hcount : (((j, w) :: l).filterMap fun e => f e.2).count b =
          (l.filterMap fun e => f e.2).count b + 1 := by
        rw [List.filterMap_cons_some (f := fun e : κ × α => f e.2) hw, List.count_cons_self]
      have hnone : (l.filterMap fun e => f e.2).count b = 0 ↔ ∀ k v, (k, v) ∈ l → f v ≠ some b := by
        rw [List.count_eq_zero, List.mem_filterMap]
        constructor
        · intro h k v hkv hv
          exact h ⟨(k, v), hkv, hv⟩
        · rintro h ⟨⟨k, v⟩, hkv, hv⟩
          exact h k v hkv hv
      rw [hcount, Nat.add_eq_right, hnone]
      constructor
      · intro h
        refine ⟨j, ⟨w, List.mem_cons_self, hw⟩, ?_⟩
        rintro k ⟨v, hkv, hv⟩
        obtain heq | hkv := List.mem_cons.mp hkv
        · exact (Prod.mk.inj heq).1
        · exact absurd hv (h k v hkv)
      · rintro ⟨k, -, hunique⟩ i v hiv hv
        have hik : i = k := hunique i ⟨v, List.mem_cons_of_mem _ hiv, hv⟩
        have hjk : j = k := hunique j ⟨w, List.mem_cons_self, hw⟩
        exact hj (List.mem_map.mpr ⟨(i, v), hiv, hik.trans hjk.symm⟩)
    · have hcount : (((j, w) :: l).filterMap fun e => f e.2).count b =
          (l.filterMap fun e => f e.2).count b := by
        cases hfw : f w with
        | none => rw [List.filterMap_cons_none (f := fun e : κ × α => f e.2) hfw]
        | some c =>
          have hc : c ≠ b := fun h => hw (hfw.trans (congrArg some h))
          rw [List.filterMap_cons_some (f := fun e : κ × α => f e.2) hfw,
            List.count_cons_of_ne hc]
      have hsame : ∀ k, (∃ v, (k, v) ∈ (j, w) :: l ∧ f v = some b) ↔
          ∃ v, (k, v) ∈ l ∧ f v = some b := by
        intro k
        constructor
        · rintro ⟨v, hkv, hv⟩
          obtain heq | hkv := List.mem_cons.mp hkv
          · rw [(Prod.mk.inj heq).2] at hv
            exact absurd hv hw
          · exact ⟨v, hkv, hv⟩
        · rintro ⟨v, hkv, hv⟩
          exact ⟨v, List.mem_cons_of_mem _ hkv, hv⟩
      rw [hcount, ih hkeys]
      exact (existsUnique_congr hsame).symm

/-- **What an iteration reads once** is what exactly one key leads to. -/
theorem count_entries_eq_one {β : Type*} [DecidableEq β] (m : StdMap κ α) (f : α → Option β)
    (b : β) : (m.entries.filterMap fun e => f e.2).count b = 1 ↔
      ∃! k, ∃ v, m.find? k = some v ∧ f v = some b := by
  rw [count_filterMap_eq_one m.entries_keys_nodup]
  refine existsUnique_congr fun k => ?_
  simp only [mem_entries]

end StdMap
