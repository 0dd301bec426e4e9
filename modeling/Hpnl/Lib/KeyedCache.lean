import Hpnl.Lib.StdMap

/-!
# A cache filed under a key of its argument

Answers of some oracle are cached under `key p` instead of the argument `p`
itself.  A lookup of `p` that misses asks the oracle and enters its answer; a
lookup that hits returns what is filed under the key, whoever it was asked for.

* `resolve` — one lookup; `asked` records the oracle's answers, `used` what the
  lookups returned.
* `Faithful` — every lookup returned an answer given for its own argument.
* `Inv`, `inv_resolve` — kept by a lookup of an argument that shares its key with
  no other argument the oracle was asked about (`Separated`).
* `separated_of_faithful` — and broken by any other lookup.
-/

/-- The cache, with the oracle's answers and the results of the lookups. -/
structure KeyedCache (P K H : Type*) [Ord K] where
  map : StdMap K H
  asked : List (P × H)
  used : List (P × H)

namespace KeyedCache

variable {P K H : Type*} [Ord K] [Std.TransOrd K]
variable (key : P → K)

/-- The lookup of `p`; `h` is the oracle's answer, if it is asked. -/
def resolve (c : KeyedCache P K H) (p : P) (h : H) : KeyedCache P K H :=
  match c.map.find? (key p) with
  | none =>
      { map := c.map.insertNew (key p) h
        asked := (p, h) :: c.asked
        used := (p, h) :: c.used }
  | some h' => { c with used := (p, h') :: c.used }

/-- The oracle does not answer `p` with what it answered for something else. -/
def Answers (c : KeyedCache P K H) (p : P) (h : H) : Prop :=
  c.map.find? (key p) = none → ∀ e ∈ c.asked, e.2 = h → e.1 = p

/-- Lookups return answers given for their own argument, and so different ones
for different arguments. -/
def Faithful (c : KeyedCache P K H) : Prop :=
  (∀ u ∈ c.used, u ∈ c.asked) ∧ ∀ u ∈ c.used, ∀ v ∈ c.used, u.2 = v.2 → u.1 = v.1

/-- `p` shares its key with no other argument the oracle was asked about. -/
def Separated (c : KeyedCache P K H) (p : P) : Prop :=
  ∀ e ∈ c.asked, key e.1 = key p → e.1 = p

/-- What is filed is what the oracle answered, and it answered differently for
different arguments. -/
structure Inv (c : KeyedCache P K H) : Prop where
  used_asked : ∀ u ∈ c.used, u ∈ c.asked
  filed : ∀ k h, c.map.find? k = some h → ∃ p, (p, h) ∈ c.asked ∧ key p = k
  asked_filed : ∀ e ∈ c.asked, c.map.find? (key e.1) = some e.2
  answers : ∀ d ∈ c.asked, ∀ e ∈ c.asked, d.2 = e.2 → d.1 = e.1

variable {key} {c : KeyedCache P K H} {p : P} {h : H}

theorem Inv.faithful (hc : c.Inv key) : c.Faithful :=
  ⟨hc.used_asked, fun u hu v hv => hc.answers u (hc.used_asked u hu) v (hc.used_asked v hv)⟩

/-- What the lookups returned may be forgotten. -/
theorem Inv.forget (hc : c.Inv key) : Inv key { c with used := [] } :=
  ⟨fun _ hu => absurd hu List.not_mem_nil, hc.filed, hc.asked_filed, hc.answers⟩

theorem inv_empty : Inv key (⟨∅, [], []⟩ : KeyedCache P K H) := by
  refine ⟨?_, ?_, ?_, ?_⟩
  · intro u hu
    exact absurd hu List.not_mem_nil
  · intro k h hf
    rw [StdMap.find?_empty] at hf
    exact absurd hf (by simp)
  · intro e he
    exact absurd he List.not_mem_nil
  · intro d hd
    exact absurd hd List.not_mem_nil

theorem resolve_of_none (hmiss : c.map.find? (key p) = none) :
    c.resolve key p h =
      { map := c.map.assign (key p) h
        asked := (p, h) :: c.asked
        used := (p, h) :: c.used } := by
  rw [resolve, hmiss, ← StdMap.insertNew_of_none h hmiss]

theorem resolve_of_some {h' : H} (hhit : c.map.find? (key p) = some h') :
    c.resolve key p h = { c with used := (p, h') :: c.used } := by
  rw [resolve, hhit]

/-- **A lookup that goes well had a separated key.** -/
theorem separated_of_faithful (hc : c.Inv key) (hf : (c.resolve key p h).Faithful) :
    c.Separated key p := by
  intro e he hkey
  have hhit : c.map.find? (key p) = some e.2 := hkey ▸ hc.asked_filed e he
  rw [resolve_of_some hhit] at hf
  have hp : (p, e.2) ∈ c.asked := hf.1 (p, e.2) List.mem_cons_self
  exact hc.answers e he (p, e.2) hp rfl

variable [Std.LawfulEqOrd K] [DecidableEq K]

/-- **A lookup with a separated key keeps the invariant.** -/
theorem inv_resolve (hc : c.Inv key) (hans : c.Answers key p h) (hsep : c.Separated key p) :
    (c.resolve key p h).Inv key := by
  cases hfind : c.map.find? (key p) with
  | some h' =>
    obtain ⟨q, hq, hkey⟩ := hc.filed _ _ hfind
    have hqp : q = p := hsep (q, h') hq hkey
    rw [resolve_of_some hfind]
    refine ⟨?_, hc.filed, hc.asked_filed, hc.answers⟩
    intro u hu
    rcases List.mem_cons.mp hu with rfl | hu
    · exact hqp ▸ hq
    · exact hc.used_asked u hu
  | none =>
    have hold := hans hfind
    rw [resolve_of_none hfind]
    refine ⟨?_, ?_, ?_, ?_⟩
    · intro u hu
      rcases List.mem_cons.mp hu with rfl | hu
      · exact List.mem_cons_self
      · exact List.mem_cons_of_mem _ (hc.used_asked u hu)
    · intro k a hf
      rw [StdMap.find?_assign] at hf
      split at hf
      · rename_i hk
        exact ⟨p, (Option.some.inj hf) ▸ List.mem_cons_self, hk⟩
      · obtain ⟨q, hq, hkey⟩ := hc.filed k a hf
        exact ⟨q, List.mem_cons_of_mem _ hq, hkey⟩
    · intro e he
      rcases List.mem_cons.mp he with rfl | he
      · exact StdMap.find?_assign_self ..
      · have hne : key p ≠ key e.1 := by
          intro hk
          have hf := hc.asked_filed e he
          rw [← hk, hfind] at hf
          exact absurd hf (by simp)
        exact (StdMap.find?_assign_of_ne _ _ hne).trans (hc.asked_filed e he)
    · intro d hd e he hde
      rcases List.mem_cons.mp hd with rfl | hd
      · rcases List.mem_cons.mp he with rfl | he
        · rfl
        · exact (hold e he hde.symm).symm
      · rcases List.mem_cons.mp he with rfl | he
        · exact hold d hd hde
        · exact hc.answers d hd e he hde

end KeyedCache
