import Mathlib

/-!
# Reliable channels that may break

One party sends, the network carries, and the other party gets the items in the order in
which they were sent, each of them once.  The channel may break: then what is on its way is
lost, and whatever is sent later.

* `Channel` — the items sent, on their way and delivered; a channel carries the proof that
  what has been delivered, and is on its way, is the beginning of what was sent.
* `send`, `next?`, `cut` — what can happen to a channel.
* `Channel.delivered_first` — **nothing is reordered, duplicated or made up**.
* `Channel.delivered_of_up` — **nothing is lost**, as long as the channel is up.
-/

/-- A channel.  `sent` and `delivered` are all the items so far, `wire` those on their way. -/
structure Channel (α : Type*) where
  sent : List α
  wire : List α
  delivered : List α
  up : Bool
  kept : delivered ++ wire <+: sent
  whole : up = true → delivered ++ wire = sent

namespace Channel

variable {α : Type*} {c : Channel α} {a : α} {rest : List α}

/-- Nothing has been sent. -/
def empty : Channel α := ⟨[], [], [], true, List.nil_prefix, fun _ => rfl⟩

/-- An item is sent; it gets nowhere when the channel is broken. -/
def send (c : Channel α) (a : α) : Channel α where
  sent := c.sent ++ [a]
  wire := if c.up then c.wire ++ [a] else c.wire
  delivered := c.delivered
  up := c.up
  kept := by
    cases hup : c.up with
    | true =>
      rw [if_pos rfl, ← List.append_assoc, c.whole hup]
    | false => exact c.kept.trans (List.prefix_append _ _)
  whole := by
    intro hup
    rw [hup, if_pos rfl, ← List.append_assoc, c.whole hup]

/-- The item that was sent first is delivered. -/
def deliver (c : Channel α) (a : α) (rest : List α) (h : c.wire = a :: rest) : Channel α where
  sent := c.sent
  wire := rest
  delivered := c.delivered ++ [a]
  up := c.up
  kept := by
    rw [List.append_assoc, List.singleton_append, ← h]
    exact c.kept
  whole := by
    intro hup
    rw [List.append_assoc, List.singleton_append, ← h]
    exact c.whole hup

/-- The next item and what the channel is then, if one is on its way. -/
def next? (c : Channel α) : Option (α × Channel α) :=
  match h : c.wire with
  | [] => none
  | a :: rest => some (a, c.deliver a rest h)

/-- The channel breaks. -/
def cut (c : Channel α) : Channel α where
  sent := c.sent
  wire := []
  delivered := c.delivered
  up := false
  kept := by
    rw [List.append_nil]
    exact (List.prefix_append _ _).trans c.kept
  whole := fun hup => absurd hup (by simp)

@[simp] theorem sent_empty : (empty : Channel α).sent = [] := rfl
@[simp] theorem wire_empty : (empty : Channel α).wire = [] := rfl
@[simp] theorem delivered_empty : (empty : Channel α).delivered = [] := rfl
@[simp] theorem sent_send (c : Channel α) (a : α) : (c.send a).sent = c.sent ++ [a] := rfl
@[simp] theorem delivered_send (c : Channel α) (a : α) : (c.send a).delivered = c.delivered := rfl
@[simp] theorem sent_deliver (h : c.wire = a :: rest) : (c.deliver a rest h).sent = c.sent := rfl
@[simp] theorem wire_deliver (h : c.wire = a :: rest) : (c.deliver a rest h).wire = rest := rfl
@[simp] theorem delivered_deliver (h : c.wire = a :: rest) :
    (c.deliver a rest h).delivered = c.delivered ++ [a] := rfl
@[simp] theorem sent_cut (c : Channel α) : c.cut.sent = c.sent := rfl
@[simp] theorem wire_cut (c : Channel α) : c.cut.wire = [] := rfl
@[simp] theorem delivered_cut (c : Channel α) : c.cut.delivered = c.delivered := rfl

theorem next?_eq_some {d : Channel α} (h : c.next? = some (a, d)) :
    ∃ rest, ∃ hwire : c.wire = a :: rest, d = c.deliver a rest hwire := by
  unfold next? at h
  split at h
  · cases h
  · rename_i b rest hwire
    cases h
    exact ⟨rest, hwire, rfl⟩

/-- **Nothing is reordered, duplicated or made up.** -/
theorem delivered_first (c : Channel α) : c.delivered <+: c.sent :=
  (List.prefix_append _ _).trans c.kept

/-- **Nothing is lost** on a channel that is up. -/
theorem delivered_of_up (hup : c.up = true) (hwire : c.wire = []) : c.delivered = c.sent := by
  have hwhole := c.whole hup
  rwa [hwire, List.append_nil] at hwhole

/-- What is on its way has been sent. -/
theorem mem_sent_of_mem_wire (h : a ∈ c.wire) : a ∈ c.sent :=
  c.kept.subset (List.mem_append_right _ h)

end Channel
