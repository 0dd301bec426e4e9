import Hpnl.Lib.Monotone

/-!
# The status of a connection

Other code goes by the order of the statuses: a completion thread waits while the status
is below `CONNECTED`, a shutdown does nothing once it is `DOWN`.

* `ConStatus` — the statuses, ordered as in the enumeration.
* `NativeConnection` — what the C++ service and the Java service have in common for one
  connection: its status, whether it can be found, and how it is made.
* `RecvStep.next` — how a completion thread gets to handle a receive.
-/

namespace Hpnl

/-- `ConStatus`. -/
inductive ConStatus where
  | idle
  | connectReq
  | acceptReq
  | connected
  | shutdownReq
  | down
  deriving DecidableEq, Repr

namespace ConStatus

/-- The value of the enumerator. -/
def value : ConStatus → ℕ
  | idle => 0
  | connectReq => 1
  | acceptReq => 2
  | connected => 3
  | shutdownReq => 4
  | down => 5

theorem value_injective : Function.Injective value := by
  intro a b h
  cases a <;> cases b <;> first | rfl | exact absurd h (by decide)

instance : LinearOrder ConStatus := LinearOrder.lift' value value_injective

theorem idle_le (s : ConStatus) : idle ≤ s := Nat.zero_le s.value

theorem le_down (s : ConStatus) : s ≤ down := by
  cases s <;> decide

theorem le_connected_iff {s : ConStatus} : s ≤ connected ↔ s ≠ shutdownReq ∧ s ≠ down := by
  cases s <;> decide

end ConStatus

/-- Where the thread is that makes a connection, in `MsgStack::connect` or
`MsgStack::accept` and the caller. -/
inductive MakeStep where
  /-- `con->status = CONNECT_REQ`, or `ACCEPT_REQ`. -/
  | status
  /-- `conMap.insert`. -/
  | insert
  /-- The event queue is registered, after `con->accept()` on the accepting side. -/
  | register
  | made
  deriving DecidableEq, Repr

/-- A `MsgConnection` whose `init` has succeeded: whether it is accepted or connects, its
status, whether it is in the map of the stack, and whether its event queue is read. -/
structure NativeConnection where
  accepting : Bool
  status : ConStatus
  inMap : Bool
  registered : Bool
  make : MakeStep
  deriving DecidableEq, Repr

namespace NativeConnection

/-- `status = IDLE`, in the constructor. -/
def init (accepting : Bool) : NativeConnection :=
  { accepting := accepting
    status := .idle
    inMap := false
    registered := false
    make := .status }

/-- The next step of the thread that makes the connection. -/
def advanceMake (n : NativeConnection) : Option NativeConnection :=
  match n.make with
  | .status => some { n with
      status := if n.accepting then .acceptReq else .connectReq
      make := .insert }
  | .insert => some { n with inMap := true, make := .register }
  | .register => some { n with registered := true, make := .made }
  | .made => none

/-- A connection whose status has not been written is not in the map, and its events are not
read before it is made. -/
structure Fresh (n : NativeConnection) : Prop where
  status : n.make = .status → n.status = .idle ∧ n.inMap = false
  registered : n.registered = true → n.make = .made

variable {n n' : NativeConnection}

theorem fresh_init (accepting : Bool) : (init accepting).Fresh where
  status _ := ⟨rfl, rfl⟩
  registered h := absurd h (by simp [init])

theorem fresh_advanceMake (hn : n.Fresh) (h : n.advanceMake = some n') : n'.Fresh := by
  unfold advanceMake at h
  split at h
  · rename_i hmake
    cases h
    refine ⟨fun hstatus => absurd hstatus (by simp), fun hreg => ?_⟩
    exact absurd ((hn.registered hreg).symm.trans hmake) (by simp)
  · rename_i hmake
    cases h
    refine ⟨fun hstatus => absurd hstatus (by simp), fun hreg => ?_⟩
    exact absurd ((hn.registered hreg).symm.trans hmake) (by simp)
  · cases h
    exact ⟨fun hstatus => absurd hstatus (by simp), fun _ => rfl⟩
  · cases h

theorem unmade_of_advanceMake (h : n.advanceMake = some n') : n.make ≠ .made := by
  intro hmade
  unfold advanceMake at h
  rw [hmade] at h
  cases h

theorem make_advanceMake (h : n.advanceMake = some n') : n'.make ≠ .status := by
  unfold advanceMake at h
  split at h <;> cases h <;> simp

/-- A connection is in the map before its event queue is registered. -/
theorem inMap_advanceMake (hin : n.make = .register ∨ n.make = .made → n.inMap = true)
    (h : n.advanceMake = some n') : n'.make = .register ∨ n'.make = .made → n'.inMap = true := by
  unfold advanceMake at h
  split at h
  · cases h
    exact fun hmake => absurd hmake (by simp)
  · cases h
    exact fun _ => rfl
  · rename_i hmake
    cases h
    exact fun _ => hin (Or.inl hmake)
  · cases h

/-- The status is written only when it is `IDLE`. -/
theorem le_advanceMake (hn : n.Fresh) (h : n.advanceMake = some n') : n.status ≤ n'.status := by
  unfold advanceMake at h
  split at h
  · rename_i hmake
    cases h
    rw [(hn.status hmake).1]
    exact ConStatus.idle_le _
  all_goals cases h
  · exact le_refl _
  · exact le_refl _

/-- What making a connection writes is below `CONNECTED`. -/
theorem status_advanceMake (h : n.advanceMake = some n') :
    n'.status = n.status ∨ n'.status < .connected := by
  unfold advanceMake at h
  split at h
  · cases h
    refine Or.inr ?_
    show (if n.accepting then ConStatus.acceptReq else .connectReq) < .connected
    split <;> decide
  all_goals cases h
  · exact Or.inl rfl
  · exact Or.inl rfl

theorem le_connected_advanceMake (hle : n.status ≤ .connected) (h : n.advanceMake = some n') :
    n'.status ≤ .connected := by
  rcases status_advanceMake h with heq | hlt
  · exact heq.trans_le hle
  · exact hlt.le

end NativeConnection

/-! ## The completion thread -/

/-- Where the completion thread of the connection is with a receive of it. -/
inductive RecvStep where
  | idle
  /-- `if (con->status < CONNECTED)`. -/
  | check
  /-- `con->con_cv.wait`. -/
  | wait
  /-- The receive is handled. -/
  | deliver
  deriving DecidableEq, Repr

/-- The next step of a completion thread that has read a receive: it handles it if the
status is at least `CONNECTED`, and waits for that otherwise. -/
def RecvStep.next (status : ConStatus) : RecvStep → Option RecvStep
  | .idle => none
  | .check => if status < .connected then some .wait else some .deliver
  | .wait => if .connected ≤ status then some .deliver else none
  | .deliver => some .idle

theorem RecvStep.connected_of_next {status : ConStatus} {at_ : RecvStep}
    (h : at_.next status = some .deliver) : .connected ≤ status := by
  unfold RecvStep.next at h
  split at h
  · cases h
  · split at h
    · cases h
    · exact not_lt.mp ‹_›
  · exact (Option.ite_none_right_eq_some.mp h).1
  · cases h

/-! ## Callbacks -/

/-- A callback of the application. -/
abbrev Callback := ℕ

/-- What a callback is for. -/
inductive CallbackKind where
  | connected
  | recv
  | send
  | read
  | write
  | shutdown
  deriving DecidableEq, Repr

end Hpnl
