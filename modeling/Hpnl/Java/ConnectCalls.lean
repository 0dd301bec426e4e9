import Hpnl.Chunk
import Hpnl.Lib.Transition

/-!
# The calls of `EqService.connect`

A call waits for the event thread on a latch, which it finds in `connectLatchMap` under its
event queue; the connection is passed to it in the field `curCon`.

* `ConnectWorld` — a client: its callers, one at a time, and its event thread.
* `Answer.Right` — a call that times out returns null, and every other one the connection
  of its event queue.
* `answered_iff` — **every call is answered so exactly when** the callers released by the
  event have no timeout, no event is handled before its latch is looked up, and no other
  event comes between a latch and the read of `curCon`.
* `not_answered_timeout`, `not_answered_early`, `not_answered_late` — a run for each way it
  goes wrong.
-/

namespace Hpnl

open Transition

/-- Where a thread is in `connect`, after `native_connect`. -/
inductive ConnectPhase where
  /-- `connectLatchMap.put(localEq, new CountDownLatch(1))`. -/
  | putLatch
  | addEqEvent
  /-- `connectLatchMap.get(localEq)`. -/
  | getLatch
  | await
  /-- `return curCon`. -/
  | readCurCon
  deriving DecidableEq, Repr

/-- A call in progress; `eq` is what `native_connect` has returned to it. -/
structure ConnectCall where
  eq : Addr
  timeout : ℕ
  phase : ConnectPhase
  deriving DecidableEq, Repr

/-- Where the event thread is with the CONNECTED event of an event queue. -/
inductive ConnectedPhase where
  | idle
  | establishConnection (eq : Addr)
  /-- `conMap.get(eq)` in `handleEqCallback`. -/
  | getConnection (eq : Addr)
  /-- The setters and the connected callback. -/
  | handleCallback (eq : Addr) (connection : ℕ)
  /-- `curCon = connection`. -/
  | setCurCon (eq : Addr) (connection : ℕ)
  /-- `connectLatchMap.get(eq)`. -/
  | getLatch (eq : Addr)
  | countDown (eq : Addr)
  /-- `connectLatchMap.remove(eq)`. -/
  | removeLatch (eq : Addr)
  deriving DecidableEq, Repr

/-- The event queue whose event is being handled. -/
def ConnectedPhase.eq? : ConnectedPhase → Option Addr
  | .idle => none
  | .establishConnection eq | .getConnection eq | .handleCallback eq _ | .setCurCon eq _
  | .getLatch eq | .countDown eq | .removeLatch eq => some eq

/-- What a call ends with: the `Connection` objects are numbered. -/
inductive ConnectResult where
  | null
  | connection (c : ℕ)
  /-- `latch` is null, and `latch.await` throws. -/
  | thrown
  deriving DecidableEq, Repr

/-- How the call with an event queue has ended, and whether `latch.await` timed out. -/
structure Answer where
  eq : Addr
  timedOut : Bool
  result : ConnectResult
  deriving DecidableEq, Repr

/-- A client.  `connect` is synchronized, so there is one call at a time.  Every call puts a
new latch under a new event queue: `counted` is whether it has been counted down.  `read` is
whether the CONNECTED event of an event queue has been read; the event queues there are, the
last one whose connection was written to `curCon`, and the answers are recorded. -/
structure ConnectWorld where
  localEq : Option Addr
  curCon : Option ℕ
  conMap : Addr → Option ℕ
  connectLatchMap : Addr → Bool
  counted : Addr → Bool
  registered : Addr → Bool
  read : Addr → Bool
  nextConnection : ℕ
  call : Option ConnectCall
  eqThread : ConnectedPhase
  eqs : List Addr
  lastEq : Option Addr
  answers : List Answer

/-- A step of a thread. -/
inductive ConnectOp where
  /-- A caller enters `connect`; `eq` is what `native_connect` returns, `none` for -1. -/
  | connect (timeout : ℕ) (eq : Option Addr)
  /-- It goes on. -/
  | advance
  /-- `add_eq_event` fails. -/
  | addEqEventFails
  /-- The time of `latch.await` has elapsed. -/
  | timeout
  /-- The event thread reads the CONNECTED event of an event queue. -/
  | connectedEvent (eq : Addr)
  /-- The event thread goes on with it. -/
  | advanceEq
  deriving DecidableEq, Repr

namespace ConnectWorld

/-- A new service. -/
def init : ConnectWorld :=
  { localEq := none
    curCon := none
    conMap := fun _ => none
    connectLatchMap := fun _ => false
    counted := fun _ => false
    registered := fun _ => false
    read := fun _ => false
    nextConnection := 0
    call := none
    eqThread := .idle
    eqs := []
    lastEq := none
    answers := [] }

/-- The call goes on. -/
def goTo (w : ConnectWorld) (c : ConnectCall) (p : ConnectPhase) : ConnectWorld :=
  { w with call := some { c with phase := p } }

/-- The call ends, and leaves the lock. -/
def answer (w : ConnectWorld) (c : ConnectCall) (timedOut : Bool) (result : ConnectResult) :
    ConnectWorld :=
  { w with call := none, answers := ⟨c.eq, timedOut, result⟩ :: w.answers }

/-- `connect` up to `native_connect`, which makes a new event queue. -/
def connect (w : ConnectWorld) (timeout : ℕ) : Option Addr → Option ConnectWorld
  | none => some { w with localEq := none }
  | some eq =>
      if eq ∈ w.eqs then none
      else some { w with
        localEq := some eq
        eqs := eq :: w.eqs
        call := some { eq := eq, timeout := timeout, phase := .putLatch } }

/-- The next step of a call; the event queue is read from `localEq` every time. -/
def advance (w : ConnectWorld) (c : ConnectCall) (eq : Addr) : Option ConnectWorld :=
  match c.phase with
  | .putLatch =>
      some ({ w with
        connectLatchMap := Function.update w.connectLatchMap eq true
        counted := Function.update w.counted eq false }.goTo c .addEqEvent)
  | .addEqEvent =>
      some ({ w with registered := Function.update w.registered eq true }.goTo c .getLatch)
  | .getLatch =>
      some (if w.connectLatchMap eq then w.goTo c .await else w.answer c false .thrown)
  | .await =>
      if w.counted eq then
        some (if c.timeout = 0 then w.goTo c .readCurCon else w.answer c false .null)
      else none
  | .readCurCon =>
      some (w.answer c false (match w.curCon with
        | none => .null
        | some connection => .connection connection))

/-- The next step of the event thread. -/
def advanceEq (w : ConnectWorld) : Option ConnectWorld :=
  match w.eqThread with
  | .idle => none
  | .establishConnection eq =>
      some { w with
        conMap := Function.update w.conMap eq (some w.nextConnection)
        nextConnection := w.nextConnection + 1
        eqThread := .getConnection eq }
  | .getConnection eq =>
      some { w with
        eqThread := match w.conMap eq with
          | none => .idle
          | some connection => .handleCallback eq connection }
  | .handleCallback eq connection => some { w with eqThread := .setCurCon eq connection }
  | .setCurCon eq connection =>
      some { w with curCon := some connection, lastEq := some eq, eqThread := .getLatch eq }
  | .getLatch eq =>
      some { w with eqThread := if w.connectLatchMap eq then .countDown eq else .idle }
  | .countDown eq =>
      some { w with counted := Function.update w.counted eq true, eqThread := .removeLatch eq }
  | .removeLatch eq =>
      some { w with
        connectLatchMap := Function.update w.connectLatchMap eq false
        eqThread := .idle }

/-- One step.  The event of an event queue comes once, after `add_eq_event`; `latch.await`
times out when there is a timeout and the latch has not been counted down. -/
def step (w : ConnectWorld) : ConnectOp → Option ConnectWorld
  | .connect timeout eq => if w.call = none then w.connect timeout eq else none
  | .advance =>
      match w.call, w.localEq with
      | some c, some eq => w.advance c eq
      | _, _ => none
  | .addEqEventFails =>
      match w.call with
      | some c => if c.phase = .addEqEvent then some (w.goTo c .getLatch) else none
      | none => none
  | .timeout =>
      match w.call, w.localEq with
      | some c, some eq =>
          if c.phase = .await ∧ 0 < c.timeout ∧ w.counted eq = false then
            some (w.answer c true .null)
          else none
      | _, _ => none
  | .connectedEvent eq =>
      if w.eqThread = .idle ∧ w.registered eq = true ∧ w.read eq = false then
        some { w with
          read := Function.update w.read eq true
          eqThread := .establishConnection eq }
      else none
  | .advanceEq => w.advanceEq

end ConnectWorld

/-- Null for a call that timed out, the connection of its event queue for any other. -/
def Answer.Right (a : Answer) (conMap : Addr → Option ℕ) : Prop :=
  if a.timedOut then a.result = .null
  else ∃ c, conMap a.eq = some c ∧ a.result = .connection c

namespace ConnectWorld

/-- Every answer is right, and no call waits for an event that has been handled. -/
structure Right (w : ConnectWorld) : Prop where
  answers : ∀ a ∈ w.answers, a.Right w.conMap
  released : ∀ c, w.call = some c → w.read c.eq = true → w.eqThread.eq? ≠ some c.eq →
    w.counted c.eq = true

/-- The caller finds its latch; when it is released it has no timeout, and it reads `curCon`
before another event has written it. -/
def InTime (w : ConnectWorld) : ConnectOp → Prop
  | .advance => ∀ c, w.call = some c →
      match c.phase with
      | .getLatch => w.connectLatchMap c.eq = true
      | .await => c.timeout = 0
      | .readCurCon => w.lastEq = some c.eq
      | .putLatch | .addEqEvent => True
  | .connect .. | .addEqEventFails | .timeout | .connectedEvent _ | .advanceEq => True

/-! ## What the steps keep -/

variable {w w' : ConnectWorld}

/-- What the event thread knows of the connection it is passing on. -/
def ThreadInv (w : ConnectWorld) : Prop :=
  match w.eqThread with
  | .idle | .removeLatch _ => True
  | .establishConnection eq => w.conMap eq = none
  | .getConnection eq | .getLatch eq | .countDown eq => (w.conMap eq).isSome
  | .handleCallback eq c | .setCurCon eq c => w.conMap eq = some c

/-- A call that waits has put its latch where the event thread looks for it.  Every connection
is in the map once, and `curCon` is the one under `lastEq`. -/
structure Inv (w : ConnectWorld) : Prop where
  answers : ∀ a ∈ w.answers, a.Right w.conMap
  localEq : ∀ c, w.call = some c → w.localEq = some c.eq ∧ c.eq ∈ w.eqs
  putLatch : ∀ c, w.call = some c → c.phase = .putLatch → w.registered c.eq = false
  addEqEvent : ∀ c, w.call = some c → c.phase = .addEqEvent → w.registered c.eq = false ∧
    w.connectLatchMap c.eq = true
  registered : ∀ eq, w.registered eq = true → eq ∈ w.eqs ∧
    (w.connectLatchMap eq = true ∨ w.counted eq = true)
  read : ∀ eq, w.read eq = true → w.registered eq = true
  handled : ∀ eq, w.read eq = true → w.eqThread.eq? ≠ some eq → w.counted eq = true
  handling : ∀ eq, w.eqThread.eq? = some eq → w.read eq = true
  removeLatch : ∀ eq, w.eqThread = .removeLatch eq → w.counted eq = true
  thread : w.ThreadInv
  stored : ∀ eq c, w.conMap eq = some c → w.read eq = true ∧ c < w.nextConnection
  injective : ∀ eq eq' c, w.conMap eq = some c → w.conMap eq' = some c → eq = eq'
  curCon : w.curCon = w.lastEq.bind w.conMap
  lastEq : ∀ eq, w.lastEq = some eq → (w.conMap eq).isSome

theorem inv_init : init.Inv := by
  constructor <;> simp [init, ThreadInv, ConnectedPhase.eq?]

theorem Inv.right (h : w.Inv) : w.Right :=
  ⟨h.answers, fun c _ => h.handled c.eq⟩

theorem inv_connect (h : w.Inv) (hidle : w.call = none) {timeout : ℕ} {eq : Option Addr}
    (hstep : w.connect timeout eq = some w') : w'.Inv := by
  cases eq with
  | none =>
    cases hstep
    exact { h with localEq := fun c hc => absurd (hidle.symm.trans hc) (by simp) }
  | some eq =>
    simp only [connect] at hstep
    split at hstep
    · cases hstep
    · rename_i hnew
      cases hstep
      have hreg : w.registered eq = false := by
        by_contra hreg
        exact hnew (h.registered eq (by simpa using hreg)).1
      exact { h with
        localEq := by rintro c ⟨⟩; exact ⟨rfl, List.mem_cons_self⟩
        putLatch := by rintro c ⟨⟩ _; exact hreg
        addEqEvent := by rintro c ⟨⟩ ⟨⟩
        registered := fun e he => ⟨List.mem_cons_of_mem _ (h.registered e he).1,
          (h.registered e he).2⟩ }

/-- A call that goes on to a phase after `add_eq_event`. -/
theorem inv_goTo (h : w.Inv) {c : ConnectCall} (hc : w.call = some c) {p : ConnectPhase}
    (hput : p ≠ .putLatch) (hadd : p ≠ .addEqEvent) : (w.goTo c p).Inv :=
  { h with
    localEq := by rintro _ ⟨⟩; exact h.localEq c hc
    putLatch := by rintro _ ⟨⟩ hp; exact absurd hp hput
    addEqEvent := by rintro _ ⟨⟩ hp; exact absurd hp hadd }

theorem inv_answer (h : w.Inv) {c : ConnectCall} {timedOut : Bool} {result : ConnectResult}
    (hright : (⟨c.eq, timedOut, result⟩ : Answer).Right w.conMap) :
    (w.answer c timedOut result).Inv :=
  { h with
    answers := by
      intro a ha
      rcases List.mem_cons.mp ha with rfl | ha
      · exact hright
      · exact h.answers a ha
    localEq := by rintro _ ⟨⟩
    putLatch := by rintro _ ⟨⟩
    addEqEvent := by rintro _ ⟨⟩ }

theorem inv_advance (h : w.Inv) {c : ConnectCall} (hc : w.call = some c)
    (hin : w.InTime .advance) (hstep : w.advance c c.eq = some w') : w'.Inv := by
  have hin := hin c hc
  unfold advance at hstep
  cases hp : c.phase with
  | putLatch =>
    simp only [hp] at hstep
    cases hstep
    have hreg := h.putLatch c hc hp
    have hne : ∀ eq, w.registered eq = true → eq ≠ c.eq := by
      rintro eq heq rfl
      rw [hreg] at heq
      cases heq
    exact { h with
      localEq := by rintro _ ⟨⟩; exact h.localEq c hc
      putLatch := by rintro _ ⟨⟩ ⟨⟩
      addEqEvent := by rintro _ ⟨⟩ _; exact ⟨hreg, Function.update_self ..⟩
      registered := by
        intro eq heq
        simp only [goTo, Function.update_of_ne (hne eq heq)]
        exact h.registered eq heq
      handled := by
        intro eq heq hnot
        simp only [goTo, Function.update_of_ne (hne eq (h.read eq heq))]
        exact h.handled eq heq hnot
      removeLatch := by
        intro eq heq
        have hread := h.handling eq (congrArg ConnectedPhase.eq? heq)
        simp only [goTo, Function.update_of_ne (hne eq (h.read eq hread))]
        exact h.removeLatch eq heq }
  | addEqEvent =>
    simp only [hp] at hstep
    cases hstep
    obtain ⟨hreg, hlatch⟩ := h.addEqEvent c hc hp
    exact { h with
      localEq := by rintro _ ⟨⟩; exact h.localEq c hc
      putLatch := by rintro _ ⟨⟩ ⟨⟩
      addEqEvent := by rintro _ ⟨⟩ ⟨⟩
      registered := by
        intro eq heq
        rcases of_update heq with ⟨rfl, -⟩ | ⟨-, heq⟩
        · exact ⟨(h.localEq c hc).2, Or.inl hlatch⟩
        · exact h.registered eq heq
      read := by
        intro eq heq
        by_cases he : eq = c.eq
        · rw [he]
          exact Function.update_self ..
        · exact (Function.update_of_ne he ..).trans (h.read eq heq) }
  | getLatch =>
    simp only [hp] at hstep hin
    rw [if_pos hin] at hstep
    cases hstep
    exact inv_goTo h hc (by decide) (by decide)
  | await =>
    simp only [hp] at hstep hin
    split at hstep
    · cases hstep
      exact inv_goTo h hc (by decide) (by decide)
    · cases hstep
  | readCurCon =>
    simp only [hp] at hstep hin
    cases hstep
    obtain ⟨x, hx⟩ := Option.isSome_iff_exists.mp (h.lastEq c.eq hin)
    have hcur : w.curCon = some x := by rw [h.curCon, hin, Option.bind_some, hx]
    rw [hcur]
    exact inv_answer h ⟨x, hx, rfl⟩

theorem inv_connectedEvent (h : w.Inv) {eq : Addr} (hidle : w.eqThread = .idle)
    (hreg : w.registered eq = true) (hread : w.read eq = false) :
    { w with read := Function.update w.read eq true, eqThread := .establishConnection eq }.Inv := by
  have hmono : ∀ e, w.read e = true → Function.update w.read eq true e = true := by
    intro e he
    by_cases heq : e = eq
    · rw [heq]
      exact Function.update_self ..
    · exact (Function.update_of_ne heq ..).trans he
  have hnone : w.conMap eq = none := by
    by_contra hsome
    obtain ⟨x, hx⟩ := Option.ne_none_iff_exists'.mp hsome
    have := (h.stored eq x hx).1
    rw [hread] at this
    cases this
  exact { h with
    read := by
      intro e he
      rcases of_update he with ⟨rfl, -⟩ | ⟨-, he⟩
      · exact hreg
      · exact h.read e he
    handled := by
      intro e he hnot
      rcases of_update he with ⟨rfl, -⟩ | ⟨-, he⟩
      · exact absurd rfl hnot
      · exact h.handled e he (by rw [hidle]; simp [ConnectedPhase.eq?])
    handling := by
      rintro e ⟨⟩
      exact Function.update_self ..
    removeLatch := by rintro e ⟨⟩
    thread := hnone
    stored := fun e x hx => ⟨hmono e (h.stored e x hx).1, (h.stored e x hx).2⟩ }

/-- The event thread goes on with the event it is handling. -/
theorem inv_eqThread (h : w.Inv) {p : ConnectedPhase} (heq : p.eq? = w.eqThread.eq?)
    (hremove : ∀ eq, p ≠ .removeLatch eq) (hthread : { w with eqThread := p }.ThreadInv) :
    { w with eqThread := p }.Inv :=
  { h with
    handled := fun e he hnot => h.handled e he (heq ▸ hnot)
    handling := fun e he => h.handling e (heq ▸ he)
    removeLatch := fun e he => absurd he (hremove e)
    thread := hthread }

/-- A connection is put in the map once. -/
theorem inv_establishConnection (h : w.Inv) {eq : Addr}
    (hat : w.eqThread = .establishConnection eq) :
    { w with
      conMap := Function.update w.conMap eq (some w.nextConnection)
      nextConnection := w.nextConnection + 1
      eqThread := .getConnection eq }.Inv := by
  have hnone : w.conMap eq = none := by
    have := h.thread
    rwa [ThreadInv, hat] at this
  have hread := h.handling eq (by rw [hat]; rfl)
  have hkeep : ∀ e c, w.conMap e = some c →
      Function.update w.conMap eq (some w.nextConnection) e = some c := by
    intro e c he
    rw [Function.update_of_ne, he]
    rintro rfl
    rw [hnone] at he
    cases he
  exact { h with
    answers := by
      intro a ha
      have hright := h.answers a ha
      unfold Answer.Right at hright ⊢
      split
      · rwa [if_pos ‹_›] at hright
      · rw [if_neg ‹_›] at hright
        obtain ⟨c, hc, hresult⟩ := hright
        exact ⟨c, hkeep a.eq c hc, hresult⟩
    handled := fun e he hnot => h.handled e he (by rw [hat]; exact hnot)
    handling := fun e he => h.handling e (by rw [hat]; exact he)
    removeLatch := by rintro e ⟨⟩
    thread := by
      show (Function.update w.conMap eq (some w.nextConnection) eq).isSome = true
      rw [Function.update_self]
      rfl
    stored := by
      intro e c he
      rcases of_update he with ⟨rfl, hc⟩ | ⟨-, hold⟩
      · cases hc
        exact ⟨hread, Nat.lt_succ_self _⟩
      · exact ⟨(h.stored e c hold).1, Nat.lt_succ_of_lt (h.stored e c hold).2⟩
    injective := by
      intro e e' c he he'
      rcases of_update he with ⟨hx, hc⟩ | ⟨-, hold⟩
      · rcases of_update he' with ⟨hx', -⟩ | ⟨-, hold'⟩
        · rw [hx, hx']
        · cases hc
          exact absurd (h.stored e' _ hold').2 (lt_irrefl _)
      · rcases of_update he' with ⟨-, hc'⟩ | ⟨-, hold'⟩
        · cases hc'
          exact absurd (h.stored e _ hold).2 (lt_irrefl _)
        · exact h.injective e e' c hold hold'
    curCon := by
      show w.curCon = w.lastEq.bind (Function.update w.conMap eq (some w.nextConnection))
      rw [h.curCon]
      cases hlast : w.lastEq with
      | none => rfl
      | some e =>
        obtain ⟨c, hc⟩ := Option.isSome_iff_exists.mp (h.lastEq e hlast)
        exact hc.trans (hkeep e c hc).symm
    lastEq := by
      intro e he
      obtain ⟨c, hc⟩ := Option.isSome_iff_exists.mp (h.lastEq e he)
      show (Function.update w.conMap eq (some w.nextConnection) e).isSome = true
      rw [hkeep e c hc]
      rfl }

/-- When the latch of the event that is handled has been counted down, all of them have. -/
theorem Inv.counted_of_handling (h : w.Inv) {eq : Addr} (hat : w.eqThread.eq? = some eq)
    (hcounted : w.counted eq = true) : ∀ e, w.read e = true → w.counted e = true := by
  intro e he
  by_cases heq : e = eq
  · exact heq ▸ hcounted
  · exact h.handled e he (by rw [hat]; exact fun hc => heq (Option.some.inj hc).symm)

/-- The thread finds no latch, and is done. -/
theorem inv_noLatch (h : w.Inv) {eq : Addr} (hat : w.eqThread.eq? = some eq)
    (hlatch : w.connectLatchMap eq = false) :
    ({ w with eqThread := .idle } : ConnectWorld).Inv := by
  have hreg := h.registered eq (h.read eq (h.handling eq hat))
  have hcounted := hreg.2.resolve_left (by simp [hlatch])
  exact { h with
    handled := fun e he _ => h.counted_of_handling hat hcounted e he
    handling := by rintro e ⟨⟩
    removeLatch := by rintro e ⟨⟩
    thread := trivial }

theorem inv_countDown (h : w.Inv) {eq : Addr} (hat : w.eqThread = .countDown eq) :
    ({ w with
      counted := Function.update w.counted eq true
      eqThread := .removeLatch eq } : ConnectWorld).Inv := by
  have hmono : ∀ e, w.counted e = true → Function.update w.counted eq true e = true := by
    intro e he
    by_cases heq : e = eq
    · rw [heq]
      exact Function.update_self ..
    · exact (Function.update_of_ne heq ..).trans he
  exact { h with
    registered := fun e he => ⟨(h.registered e he).1, (h.registered e he).2.imp id (hmono e)⟩
    handled := fun e he hnot => hmono e (h.handled e he (by rw [hat]; exact hnot))
    handling := fun e he => h.handling e (by rw [hat]; exact he)
    removeLatch := by rintro e ⟨⟩; exact Function.update_self ..
    thread := trivial }

/-- The latch that has been counted down is not the one of a call that has yet to register. -/
theorem inv_removeLatch (h : w.Inv) {eq : Addr} (hat : w.eqThread = .removeLatch eq) :
    ({ w with
      connectLatchMap := Function.update w.connectLatchMap eq false
      eqThread := .idle } : ConnectWorld).Inv := by
  have hat' : w.eqThread.eq? = some eq := by
    rw [hat]
    rfl
  have hcounted := h.removeLatch eq hat
  have hne : ∀ c, w.call = some c → w.registered c.eq = false → c.eq ≠ eq := by
    intro c _ hreg heq
    have hread := h.read eq (h.handling eq hat')
    rw [← heq, hreg] at hread
    cases hread
  exact { h with
    addEqEvent := by
      intro c hc hp
      obtain ⟨hreg, hlatch⟩ := h.addEqEvent c hc hp
      exact ⟨hreg, (Function.update_of_ne (hne c hc hreg) ..).trans hlatch⟩
    registered := by
      intro e he
      refine ⟨(h.registered e he).1, ?_⟩
      by_cases heq : e = eq
      · exact Or.inr (heq ▸ hcounted)
      · exact (h.registered e he).2.imp (Function.update_of_ne heq ..).trans id
    handled := fun e he _ => h.counted_of_handling hat' hcounted e he
    handling := by rintro e ⟨⟩
    removeLatch := by rintro e ⟨⟩
    thread := trivial }

theorem inv_advanceEq (h : w.Inv) (hstep : w.advanceEq = some w') : w'.Inv := by
  unfold advanceEq at hstep
  have hthread := h.thread
  unfold ThreadInv at hthread
  cases hat : w.eqThread with
  | idle =>
    simp only [hat] at hstep
    cases hstep
  | establishConnection eq =>
    simp only [hat] at hstep
    cases hstep
    exact inv_establishConnection h hat
  | getConnection eq =>
    simp only [hat] at hstep hthread
    obtain ⟨c, hc⟩ := Option.isSome_iff_exists.mp hthread
    simp only [hc] at hstep
    cases hstep
    exact inv_eqThread h (by rw [hat]; rfl) (by simp) hc
  | handleCallback eq c =>
    simp only [hat] at hstep hthread
    cases hstep
    exact inv_eqThread h (by rw [hat]; rfl) (by simp) hthread
  | setCurCon eq c =>
    simp only [hat] at hstep hthread
    cases hstep
    have hsome : (w.conMap eq).isSome := by
      rw [hthread]
      rfl
    exact { inv_eqThread h (p := .getLatch eq) (by rw [hat]; rfl) (by simp) hsome with
      curCon := hthread.symm
      lastEq := by rintro e ⟨⟩; exact hsome }
  | getLatch eq =>
    simp only [hat] at hstep hthread
    cases hlatch : w.connectLatchMap eq with
    | true =>
      simp only [hlatch, if_true] at hstep
      cases hstep
      exact inv_eqThread h (by rw [hat]; rfl) (by simp) hthread
    | false =>
      simp only [hlatch, Bool.false_eq_true, if_false] at hstep
      cases hstep
      exact inv_noLatch h (by rw [hat]; rfl) hlatch
  | countDown eq =>
    simp only [hat] at hstep
    cases hstep
    exact inv_countDown h hat
  | removeLatch eq =>
    simp only [hat] at hstep
    cases hstep
    exact inv_removeLatch h hat

/-! ## The answers -/

/-- A step that is in time keeps the invariant. -/
theorem inv_step (op : ConnectOp) (h : w.Inv) (hin : w.InTime op) (hstep : w.step op = some w') :
    w'.Inv := by
  cases op with
  | connect timeout eq =>
    simp only [step] at hstep
    split at hstep
    · exact inv_connect h ‹_› hstep
    · cases hstep
  | advance =>
    simp only [step] at hstep
    split at hstep
    · rename_i c eq hc heq
      rw [(h.localEq c hc).1] at heq
      cases heq
      exact inv_advance h hc hin hstep
    · cases hstep
  | addEqEventFails =>
    simp only [step] at hstep
    split at hstep
    · split at hstep
      · cases hstep
        exact inv_goTo h ‹_› (by decide) (by decide)
      · cases hstep
    · cases hstep
  | timeout =>
    simp only [step] at hstep
    split at hstep
    · split at hstep
      · cases hstep
        exact inv_answer h rfl
      · cases hstep
    · cases hstep
  | connectedEvent eq =>
    simp only [step] at hstep
    split at hstep
    · rename_i hreads
      cases hstep
      exact inv_connectedEvent h hreads.1 hreads.2.1 hreads.2.2
    · cases hstep
  | advanceEq => exact inv_advanceEq h hstep

/-- A call that goes on too early or too late is answered wrong. -/
theorem inTime_of_right (op : ConnectOp) (h : w.Inv) (hstep : w.step op = some w')
    (hright : w'.Right) : w.InTime op := by
  cases op with
  | advance =>
    intro c hc
    simp only [step, hc, (h.localEq c hc).1, advance] at hstep
    cases hp : c.phase with
    | putLatch | addEqEvent => trivial
    | getLatch =>
      simp only [hp, Option.some.injEq] at hstep ⊢
      by_contra hlatch
      rw [if_neg hlatch] at hstep
      subst hstep
      obtain ⟨x, -, hx⟩ := hright.answers _ List.mem_cons_self
      cases hx
    | await =>
      simp only [hp] at hstep ⊢
      split at hstep
      · by_contra htimeout
        rw [if_neg htimeout] at hstep
        cases hstep
        obtain ⟨x, -, hx⟩ := hright.answers _ List.mem_cons_self
        cases hx
      · cases hstep
    | readCurCon =>
      simp only [hp, Option.some.injEq] at hstep ⊢
      subst hstep
      obtain ⟨x, hx, hresult⟩ := hright.answers _ List.mem_cons_self
      simp only at hresult
      have hcur : w.curCon = some x := by
        cases hcon : w.curCon with
        | none =>
          rw [hcon] at hresult
          cases hresult
        | some y =>
          rw [hcon] at hresult
          cases hresult
          rfl
      rw [h.curCon] at hcur
      obtain ⟨e, he, hex⟩ := Option.bind_eq_some_iff.mp hcur
      rw [he, h.injective e c.eq x hex hx]
  | connect | addEqEventFails | timeout | connectedEvent | advanceEq => trivial

/-- **Every call of `connect` is answered right if and only if** each caller finds its latch,
has no timeout when it is released, and reads `curCon` before another event writes it. -/
theorem answered_iff (ops : List ConnectOp) :
    Always step Right init ops ↔ Meets step InTime init ops :=
  always_iff_meets (fun _ => Inv.right) (fun _ op _ h hin => inv_step op h hin)
    (fun _ op _ h => inTime_of_right op h) inv_init ops

/-! ## Runs that go wrong -/

/-- A caller up to `latch.await`. -/
def toAwait (timeout : ℕ) (eq : Addr) : List ConnectOp :=
  [.connect timeout (some eq), .advance, .advance, .advance]

/-- The event of an event queue, from its reading on. -/
def event (eq : Addr) : List ConnectOp := .connectedEvent eq :: List.replicate 7 .advanceEq

/-- A wrong answer in the state a run ends in. -/
theorem not_always_of_answer {ops : List ConnectOp} (hrun : run step init ops = some w)
    {a : Answer} (ha : a ∈ w.answers) (hwrong : ¬ a.Right w.conMap) :
    ¬ Always step Right init ops :=
  fun h => hwrong ((h.last hrun).answers a ha)

/-- A caller with a timeout of a second, whose connection is established in time, gets null. -/
theorem not_answered_timeout :
    ¬ Always step Right init (toAwait 1000 100 ++ event 100 ++ [.advance]) := by
  refine not_always_of_answer (a := ⟨100, false, .null⟩) rfl List.mem_cons_self ?_
  rintro ⟨c, -, hc⟩
  cases hc

/-- The event of a call is handled before the call looks up its latch, which is gone. -/
theorem not_answered_early :
    ¬ Always step Right init
      ([.connect 0 (some 100), .advance, .advance] ++ event 100 ++ [.advance]) := by
  refine not_always_of_answer (a := ⟨100, false, .thrown⟩) rfl List.mem_cons_self ?_
  rintro ⟨c, -, hc⟩
  cases hc

/-- The event of a call that has timed out comes between the latch of the next call and its
read of `curCon`: the second caller gets the connection of the first. -/
theorem not_answered_late :
    ¬ Always step Right init
      (toAwait 1000 100 ++ [.timeout] ++ toAwait 0 200 ++ event 200 ++ [.advance] ++ event 100 ++
        [.advance]) := by
  refine not_always_of_answer (a := ⟨200, false, .connection 1⟩) rfl List.mem_cons_self ?_
  rintro ⟨c, hmap, hc⟩
  cases hc
  exact absurd hmap (by decide)

end ConnectWorld

end Hpnl
