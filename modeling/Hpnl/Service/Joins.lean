import Hpnl.Lib.Progress
import Hpnl.Service.Threads

/-!
# What joins the threads of a service

The threads that one call of `shutdown()` waits for are in an order, and a callback that calls
`shutdown()` waits for threads before its own only.  What no thread of the service can end is the
wait of a completion thread for a connection that does not become `CONNECTED`.

* `NoneWaits` — no completion thread waits so; every other entry returns.
* `rank`, `thread_moves` — a stopped thread that has not ended, or one that it waits for, has a
  step that brings the end closer.
* `shutdown_completes` — **whatever the callbacks are doing, a call of `shutdown()` made by the
  application can be completed**.
* `shutdown_returns` — **it returns, when no callback calls a function of the service**.
-/

namespace Hpnl

open Transition

namespace ServiceThread

/-- The place of a thread in `shutdown()`. -/
def order (worker_num : ℕ) : ServiceThread → ℕ
  | .cq i => i
  | .eq => worker_num
  | .rdm => worker_num + 1

end ServiceThread

namespace ThreadFunction

theorem pairwise_order (worker_num : ℕ) (msg : Bool) :
    (threads worker_num msg .shutdown).Pairwise
      fun t u => t.order worker_num < u.order worker_num := by
  refine List.pairwise_append.mpr ⟨?_, ?_, fun t ht u hu => ?_⟩
  · exact List.pairwise_map.mpr List.pairwise_lt_range
  · simp [ServiceThread.order]
  · obtain ⟨i, hi, rfl⟩ := List.mem_map.mp ht
    have hlt : i < worker_num := List.mem_range.mp hi
    simp only [List.mem_cons, List.not_mem_nil, or_false] at hu
    rcases hu with rfl | rfl
    · exact hlt
    · exact Nat.lt_succ_of_lt hlt

end ThreadFunction

/-- What a statement of `shutdown()` has still to do. -/
def ThreadStatement.weight : ThreadStatement → ℕ
  | .shutdown _ => 4
  | .wait _ => 3
  | .join _ => 2
  | .stop _ | .pthread_join _ => 1
  | .start _ | .assign _ => 0

def FunctionCall.weight (k : FunctionCall) : ℕ := (k.rest.map ThreadStatement.weight).sum + 1

/-- How far a stopped thread is from its end. -/
def ThreadBody.weight : ThreadBody → ℕ
  | .loop | .waiting => 3
  | .inEntry => 2
  | .returned _ => 1
  | .ended => 0

namespace ServiceThreads

variable (worker_num : ℕ) (msg : Bool)

def callWeight (s : ServiceThreads) (c : Caller) : ℕ := (s.call c).elim 0 FunctionCall.weight

def bodyWeight (s : ServiceThreads) (t : ServiceThread) : ℕ :=
  (s.thread t).elim 0 fun x => x.body.weight

/-- What the threads and the calls have still to do. -/
def rank (s : ServiceThreads) : ℕ :=
  s.callWeight .app + ((ThreadFunction.threads worker_num msg .shutdown).map fun t =>
    s.bodyWeight t + s.callWeight (.thread t)).sum

variable {worker_num msg} {s s' : ServiceThreads} {c : Caller} {t : ServiceThread}
  {x y : ThreadWrapper} {k : FunctionCall}

/-- The rank falls when something falls and nothing rises. -/
theorem rank_lt (hcall : ∀ c, s'.callWeight c ≤ s.callWeight c)
    (hbody : ∀ t, s'.bodyWeight t ≤ s.bodyWeight t)
    (hlt : s'.callWeight .app < s.callWeight .app ∨
      ∃ t ∈ ThreadFunction.threads worker_num msg .shutdown,
        s'.bodyWeight t < s.bodyWeight t ∨ s'.callWeight (.thread t) < s.callWeight (.thread t)) :
    rank worker_num msg s' < rank worker_num msg s := by
  rcases hlt with hlt | ⟨t, ht, hlt⟩
  · exact Nat.add_lt_add_of_lt_of_le hlt
      (List.sum_le_sum fun t _ => Nat.add_le_add (hbody t) (hcall _))
  · refine Nat.add_lt_add_of_le_of_lt (hcall .app) (List.sum_lt_sum _ _
      (fun u _ => Nat.add_le_add (hbody u) (hcall _)) ⟨t, ht, ?_⟩)
    rcases hlt with hlt | hlt
    · exact Nat.add_lt_add_of_lt_of_le hlt (hcall _)
    · exact Nat.add_lt_add_of_le_of_lt (hbody t) hlt

@[simp] theorem callWeight_setThread (c : Caller) :
    (s.setThread t y).callWeight c = s.callWeight c := rfl

@[simp] theorem bodyWeight_setCall {k : Option FunctionCall} (u : ServiceThread) :
    (s.setCall c k).bodyWeight u = s.bodyWeight u := rfl

@[simp] theorem callWeight_setCall_self {k : Option FunctionCall} :
    (s.setCall c k).callWeight c = k.elim 0 FunctionCall.weight := by
  simp [callWeight]

@[simp] theorem bodyWeight_setThread_self :
    (s.setThread t y).bodyWeight t = y.body.weight := by
  simp [bodyWeight]

/-- A change of a call that lowers its weight lowers no other one. -/
theorem callWeight_setCall_le {j : Option FunctionCall} (hk : s.call c = some k)
    (hle : j.elim 0 FunctionCall.weight ≤ k.weight) (d : Caller) :
    (s.setCall c j).callWeight d ≤ s.callWeight d := by
  by_cases hd : d = c
  · subst hd
    simpa [callWeight, hk] using hle
  · simp [callWeight, Function.update_of_ne hd]

theorem bodyWeight_setThread_le (hx : s.thread t = some x) (hle : y.body.weight ≤ x.body.weight)
    (u : ServiceThread) : (s.setThread t y).bodyWeight u ≤ s.bodyWeight u := by
  by_cases hu : u = t
  · subst hu
    simpa [bodyWeight, hx] using hle
  · simp [bodyWeight, Function.update_of_ne hu]

/-- A statement whose call weighs less afterwards lowers the rank. -/
theorem rank_lt_of_call (h : Inv worker_num msg s) (hk : s.call c = some k)
    (hcall : ∀ d, s'.callWeight d ≤ s.callWeight d) (hbody : ∀ t, s'.bodyWeight t ≤ s.bodyWeight t)
    (hlt : s'.callWeight c < s.callWeight c) :
    rank worker_num msg s' < rank worker_num msg s := by
  refine rank_lt hcall hbody ?_
  cases c with
  | app => exact Or.inl hlt
  | thread t =>
    have hcall := h.calls _ k hk
    obtain ⟨hfun, hmem, -⟩ := hcall.own t rfl
    exact Or.inr ⟨t, h.subset (hcall.started hmem), Or.inr hlt⟩

/-- A call that goes on with less to do lowers the rank. -/
theorem rank_lt_setCall (h : Inv worker_num msg s) {j : Option FunctionCall}
    (hk : s.call c = some k) (hlt : j.elim 0 FunctionCall.weight < k.weight) :
    rank worker_num msg (s.setCall c j) < rank worker_num msg s := by
  refine rank_lt_of_call h hk (callWeight_setCall_le hk hlt.le) (fun _ => le_rfl) ?_
  simpa [callWeight, hk] using hlt

/-- So does one that changes its thread besides. -/
theorem rank_lt_setThread_setCall (h : Inv worker_num msg s) {j : Option FunctionCall}
    (hk : s.call c = some k) (hlt : j.elim 0 FunctionCall.weight < k.weight)
    (hx : s.thread t = some x) (hle : y.body.weight ≤ x.body.weight) :
    rank worker_num msg ((s.setThread t y).setCall c j) < rank worker_num msg s := by
  refine rank_lt_of_call h hk (callWeight_setCall_le hk hlt.le) (bodyWeight_setThread_le hx hle) ?_
  simpa [callWeight, hk] using hlt

theorem rank_lt_raise (h : Inv worker_num msg s) (hk : s.call c = some k) :
    rank worker_num msg (s.raise c) < rank worker_num msg s := by
  have hlt : (none : Option FunctionCall).elim 0 FunctionCall.weight < k.weight :=
    Nat.succ_pos _
  cases c with
  | app => exact rank_lt_setCall h hk hlt
  | thread t =>
    obtain ⟨-, -, hentry⟩ := (h.calls _ k hk).own t rfl
    obtain ⟨x, hx, -⟩ := Option.map_eq_some_iff.mp hentry
    rw [raise_thread hx]
    exact rank_lt_setThread_setCall h hk hlt hx (Nat.zero_le _)

/-- **A call of `shutdown()` goes on, or waits for a thread that has not ended.** -/
theorem call_moves (h : Inv worker_num msg s) (hk : s.call c = some k)
    (hfun : k.function = .shutdown) :
    (∃ s', step worker_num msg s (.exec c) = some s' ∧
      rank worker_num msg s' < rank worker_num msg s) ∨
    ∃ t rest x, k.rest = .pthread_join t :: rest ∧ s.thread t = some x ∧ x.body ≠ .ended := by
  have hcall := h.calls c k hk
  obtain ⟨ts, hsuffix, hrest, -, -⟩ := hcall.rest
  generalize hl : k.rest = l at hrest
  cases hrest with
  | test ts =>
    cases ts with
    | nil =>
      refine Or.inl ⟨_, by simp only [step, hk, hl, List.map_nil]; rfl, ?_⟩
      exact rank_lt_setCall h hk (Nat.succ_pos _)
    | cons t us =>
      have ha : k.rest = .shutdown t :: us.map k.function.test := by
        rw [hl, List.map_cons, hfun]
        rfl
      refine Or.inl ⟨_, by simp only [step, hk, ha, statement]; rfl, rank_lt_setCall h hk ?_⟩
      split <;> (simp [FunctionCall.weight, ha, ThreadStatement.weight]; try omega)
  | stop t us _ =>
    obtain ⟨x, hx⟩ := Option.ne_none_iff_exists'.mp ((h.started t).mp (hcall.present t _ hl))
    refine Or.inl ⟨_, by simp only [step, hk, hl, statement, hx]; rfl, ?_⟩
    refine rank_lt_setThread_setCall h hk ?_ hx le_rfl
    simp [FunctionCall.weight, hl, ThreadStatement.weight]
  | join t us _ =>
    obtain ⟨x, hx, hdone⟩ := hcall.stopped hfun t _ (Or.inl hl)
    by_cases hj : x.thread = .joinable
    · by_cases hraise : c = .thread t ∨ x.joiner ≠ none
      · refine Or.inl ⟨s.raise c, ?_, rank_lt_raise h hk⟩
        simp only [step, hk, hl, statement, hx, join, if_pos hj, if_pos hraise]
      · refine Or.inl ⟨_, by
          simp only [step, hk, hl, statement, hx, join, if_pos hj, if_neg hraise]; rfl, ?_⟩
        refine rank_lt_setThread_setCall h hk ?_ hx le_rfl
        simp [FunctionCall.weight, hl, ThreadStatement.weight]
    · refine Or.inl ⟨_, by
        simp only [step, hk, hl, statement, hx, join, if_neg hj, hdone, if_true]; rfl,
        rank_lt_setCall h hk ?_⟩
      simp [FunctionCall.weight, hl, ThreadStatement.weight]
  | assign t _ hf => exact absurd (hfun.symm.trans hf) (by decide)
  | pthread_join t us _ =>
    obtain ⟨x, hx, hdone⟩ := hcall.stopped hfun t _ (Or.inr hl)
    by_cases hended : x.body = .ended
    · refine Or.inl ⟨_, by
        simp only [step, hk, hl, statement, hx, if_pos hended]; rfl, ?_⟩
      refine rank_lt_setThread_setCall h hk ?_ hx le_rfl
      simp [FunctionCall.weight, hl, ThreadStatement.weight]
    · exact Or.inr ⟨t, _, x, rfl, hx, hended⟩

/-- A call of a callback is to join threads that come before its own. -/
theorem order_lt (h : Inv worker_num msg s) {u : ServiceThread} {rest : List ThreadStatement}
    (hk : s.call (.thread t) = some k) (ha : k.rest = .pthread_join u :: rest) :
    u.order worker_num < t.order worker_num := by
  have hcall := h.calls _ k hk
  obtain ⟨ts, hsuffix, hrest, -, hdown⟩ := hcall.rest
  obtain ⟨hfun, hmem, hentry⟩ := hcall.own t rfl
  obtain ⟨hstart, us, rfl, -⟩ := (ha ▸ hrest).of_pthread_join
  have hne : t ≠ u := fun htu => hcall.other u rest ha (htu ▸ rfl)
  have ht : t ∈ us := by
    have hthreads : t ∈ k.function.threads worker_num msg :=
      hfun ▸ h.subset (hcall.started hmem)
    rcases hdown hstart t hmem hthreads with hts | ⟨x, hx, hended, -⟩
    · exact (List.mem_cons.mp hts).resolve_left hne
    · simp [hx, hended] at hentry
  have hpairwise := (ThreadFunction.pairwise_order worker_num msg).sublist (hfun ▸ hsuffix.sublist)
  exact (List.pairwise_cons.mp hpairwise).1 t ht

/-- A step of a stopped thread brings it closer to its end. -/
theorem rank_lt_body (h : Inv worker_num msg s) (hx : s.thread t = some x)
    (hlt : y.body.weight < x.body.weight) :
    rank worker_num msg (s.setThread t y) < rank worker_num msg s := by
  refine rank_lt (fun _ => le_rfl) (bodyWeight_setThread_le hx hlt.le) (Or.inr ⟨t, ?_, Or.inl ?_⟩)
  · exact h.subset ((h.started t).mpr (by simp [hx]))
  · simpa [bodyWeight, hx] using hlt

/-- A step by which no call begins, and no wait for a connection. -/
def Finishing (_ : ServiceThreads) : ThreadsOp → Prop
  | .call _ _ | .body _ .wait => False
  | .exec _ | .body _ .enter | .body _ (.leave _) | .body _ .connected | .body _ .throw
  | .body _ .check => True

instance (s : ServiceThreads) : (op : ThreadsOp) → Decidable (s.Finishing op)
  | .call _ _ | .body _ .wait => isFalse id
  | .exec _ | .body _ .enter | .body _ (.leave _) | .body _ .connected | .body _ .throw
  | .body _ .check => isTrue trivial

theorem afterStart_of_finishing {op : ThreadsOp} (h : s.Finishing op) : s.AfterStart op := by
  cases op with
  | call c f => exact h.elim
  | exec c => trivial
  | body t b => trivial

/-- No completion thread waits for a connection to be `CONNECTED`. -/
def NoneWaits (s : ServiceThreads) : Prop := ∀ t x, s.thread t = some x → x.body ≠ .waiting

/-- The threads that have been started are those to look at. -/
theorem noneWaits_iff (h : Inv worker_num msg s) :
    s.NoneWaits ↔ ∀ t ∈ s.started, (s.thread t).map (·.body) ≠ some .waiting := by
  constructor
  · intro hwait t _ hbody
    obtain ⟨x, hx, hb⟩ := Option.map_eq_some_iff.mp hbody
    exact hwait t x hx hb
  · intro hstarted t x hx hb
    exact hstarted t ((h.started t).mpr (by simp [hx])) (by rw [hx, Option.map_some, hb])

theorem noneWaits_setThread (h : s.NoneWaits) (hy : y.body ≠ .waiting) :
    (s.setThread t y).NoneWaits := by
  intro u z hz
  rcases of_update hz with ⟨-, hyz⟩ | ⟨-, hz⟩
  · exact Option.some.inj hyz ▸ hy
  · exact h u z hz

theorem noneWaits_raise (h : s.NoneWaits) : (s.raise c).NoneWaits := by
  cases c with
  | app => exact h
  | thread t =>
    cases hx : s.thread t with
    | none => rwa [raise_thread_of_none hx]
    | some x =>
      rw [raise_thread hx]
      exact noneWaits_setThread (s := s.setCall (.thread t) none) h (by simp)

/-- Such a step makes no thread wait. -/
theorem noneWaits_step (h : s.NoneWaits) {op : ThreadsOp} (hf : s.Finishing op)
    (hstep : step worker_num msg s op = some s') : s'.NoneWaits := by
  cases op with
  | call c f => exact hf.elim
  | exec c =>
    cases hk : s.call c with
    | none => simp [step, hk] at hstep
    | some k =>
      cases ha : k.rest with
      | nil =>
        simp only [step, hk, ha, Option.some.injEq] at hstep
        subst hstep
        exact h
      | cons a rest =>
        simp only [step, hk, ha] at hstep
        obtain ⟨t, rfl⟩ | rfl | ⟨rest', rfl⟩ | ⟨t, x, y, rest', hx, rfl, hbody, -⟩ :=
          statement_cases hstep
        · exact noneWaits_setThread h (by decide)
        · exact noneWaits_raise h
        · exact h
        · exact noneWaits_setThread h (hbody ▸ h t x hx)
  | body t b =>
    cases hx : s.thread t with
    | none => simp [step, hx] at hstep
    | some x =>
      simp only [step, hx, Option.map_eq_some_iff] at hstep
      obtain ⟨y, hbody, rfl⟩ := hstep
      refine noneWaits_setThread h fun hwaiting => ?_
      obtain ⟨-, -, -, ⟨-, hb, -⟩ | ⟨hentry, -⟩ | ⟨hb, -⟩ | ⟨⟨ret, -, hb⟩, -⟩⟩ := body_cases hbody
      · exact absurd (hb.symm.trans hwaiting) (by simp)
      · cases b with
        | wait => exact hf
        | leave ret | throw =>
          simp only [body, Option.ite_none_right_eq_some, Option.some.injEq] at hbody
          obtain ⟨-, rfl⟩ := hbody
          exact absurd hwaiting (by simp)
        | enter | connected | check => simp [body, hentry] at hbody
      · exact h t x hx hb
      · rw [hb] at hwaiting
        split at hwaiting <;> simp at hwaiting

/-- **No thread that is stopped is stuck**: unless it has ended, it can make a step, or a thread
that it waits for can. -/
theorem thread_moves (h : Inv worker_num msg s) (hwait : s.NoneWaits) (hx : s.thread t = some x)
    (hdone : x.done = true) (hended : x.body ≠ .ended) :
    ∃ op s', s.Finishing op ∧ step worker_num msg s op = some s' ∧
      rank worker_num msg s' < rank worker_num msg s := by
  -- by induction on the place of the thread: what it waits for comes before it
  induction hn : t.order worker_num using Nat.strong_induction_on generalizing t x with
  | _ n ih =>
    cases hb : x.body with
    | loop =>
      refine ⟨.body t .enter, _, trivial, by
        simp only [step, hx, body, hb, if_true, Option.map_some]; rfl, rank_lt_body h hx ?_⟩
      simp [hb, ThreadBody.weight]
    | returned ret =>
      refine ⟨.body t .check, _, trivial, by
        simp only [step, hx, body, hb, hdone, true_or, if_true, Option.map_some]; rfl,
        rank_lt_body h hx ?_⟩
      simp [hb, ThreadBody.weight]
    | ended => exact absurd hb hended
    | waiting => exact absurd hb (hwait t x hx)
    | inEntry =>
      cases hk : s.call (.thread t) with
      | none =>
        refine ⟨.body t (.leave 0), _, trivial, by
          simp only [step, hx, body, hb, hk, Option.isSome_none, and_self, if_true,
            Option.map_some]; rfl, rank_lt_body h hx ?_⟩
        simp [hb, ThreadBody.weight]
      | some k =>
        obtain ⟨hfun, -⟩ := (h.calls _ k hk).own t rfl
        rcases call_moves h hk hfun with ⟨s', hstep, hlt⟩ | ⟨u, rest, z, ha, hz, hzne⟩
        · exact ⟨.exec (.thread t), s', trivial, hstep, hlt⟩
        · obtain ⟨z', hz', hzdone⟩ := (h.calls _ k hk).stopped hfun u rest (Or.inr ha)
          obtain rfl : z = z' := Option.some.inj (hz.symm.trans hz')
          exact ih (u.order worker_num) (hn ▸ order_lt h hk ha) hz hzdone hzne rfl

/-- As long as a call of `shutdown()` has not ended, some step brings its end closer. -/
theorem shutdown_moves (h : Inv worker_num msg s) (hwait : s.NoneWaits) (hk : s.call c = some k)
    (hfun : k.function = .shutdown) :
    ∃ op s', s.Finishing op ∧ step worker_num msg s op = some s' ∧
      rank worker_num msg s' < rank worker_num msg s := by
  rcases call_moves h hk hfun with ⟨s', hstep, hlt⟩ | ⟨t, rest, x, ha, hx, hended⟩
  · exact ⟨.exec c, s', trivial, hstep, hlt⟩
  · obtain ⟨y, hy, hdone⟩ := (h.calls _ k hk).stopped hfun t rest (Or.inr ha)
    obtain rfl : x = y := Option.some.inj (hx.symm.trans hy)
    exact thread_moves h hwait hx hdone hended

/-- A call that goes on is of the function that it was of. -/
def CallsFrom (s s' : ServiceThreads) : Prop :=
  ∀ c k', s'.call c = some k' → ∃ k, s.call c = some k ∧ k.function = k'.function

theorem callsFrom_setCall {j : Option FunctionCall} (hk : s.call c = some k)
    (hj : ∀ k' ∈ j, k'.function = k.function) (hs : s'.call = (s.setCall c j).call) :
    CallsFrom s s' := by
  intro d k' hk'
  rw [hs] at hk'
  rcases of_update hk' with ⟨rfl, hjk⟩ | ⟨-, hk'⟩
  · exact ⟨k, hk, (hj k' hjk).symm⟩
  · exact ⟨k', hk', rfl⟩

theorem callsFrom_raise (hk : s.call c = some k) : CallsFrom s (s.raise c) := by
  cases c with
  | app => exact callsFrom_setCall hk (fun _ hj => absurd hj (by simp)) rfl
  | thread t =>
    cases hx : s.thread t with
    | none =>
      rw [raise_thread_of_none hx]
      exact fun d k' hk' => ⟨k', hk', rfl⟩
    | some x =>
      exact raise_thread hx ▸ callsFrom_setCall hk (fun _ hj => absurd hj (by simp)) rfl

theorem callsFrom_step {op : ThreadsOp} (hf : s.Finishing op)
    (hstep : step worker_num msg s op = some s') : CallsFrom s s' := by
  cases op with
  | call c f => exact hf.elim
  | exec c =>
    cases hk : s.call c with
    | none => simp [step, hk] at hstep
    | some k =>
      have hgoOn : ∀ rest, ∀ k' ∈ some { k with rest := rest }, k'.function = k.function := by
        rintro rest k' ⟨⟩
        rfl
      cases ha : k.rest with
      | nil =>
        simp only [step, hk, ha, Option.some.injEq] at hstep
        exact hstep ▸ callsFrom_setCall hk (fun _ hj => absurd hj (by simp)) rfl
      | cons a rest =>
        simp only [step, hk, ha] at hstep
        obtain ⟨t, rfl⟩ | rfl | ⟨rest', rfl⟩ | ⟨t, x, y, rest', -, rfl, -⟩ := statement_cases hstep
        · exact callsFrom_setCall hk (hgoOn _) rfl
        · exact callsFrom_raise hk
        · exact callsFrom_setCall hk (hgoOn _) rfl
        · exact callsFrom_setCall hk (hgoOn _) rfl
  | body t b =>
    cases hx : s.thread t with
    | none => simp [step, hx] at hstep
    | some x =>
      simp only [step, hx, Option.map_eq_some_iff] at hstep
      obtain ⟨y, -, rfl⟩ := hstep
      exact fun d k' hk' => ⟨k', hk', rfl⟩

/-- **`shutdown()` can always be completed.**  In every run in which no callback calls it before
`start()` has returned, and every state of it in which the application is in `shutdown()` and no
completion thread waits for a connection, whatever calls of `shutdown()` the callbacks are in: the
steps of the threads and of the calls that have begun can end that call. -/
theorem shutdown_completes (worker_num : ℕ) (msg : Bool) (ops : List ThreadsOp)
    (h : Meets (step worker_num msg) AfterStart init ops) :
    Always (step worker_num msg) (fun s => ∀ k, s.call .app = some k → k.function = .shutdown →
      s.NoneWaits → Reaches (restrict (step worker_num msg) Finishing)
        (fun s' => s'.call .app = none) s) init ops := by
  refine (inv_always worker_num msg ops h).mono fun s h k hk hfun hwait => ?_
  let Going (s : ServiceThreads) : Prop :=
    Inv worker_num msg s ∧ s.NoneWaits ∧ ∀ k, s.call .app = some k → k.function = .shutdown
  have hgoing : Going s := ⟨h, hwait, fun j hj => (Option.some.inj (hk.symm.trans hj)) ▸ hfun⟩
  refine reaches_of_rank (rank worker_num msg) (fun s hs hcall => ?_) hgoing
  obtain ⟨hinv, hwait, happ⟩ := hs
  obtain ⟨k, hk⟩ := Option.ne_none_iff_exists'.mp hcall
  obtain ⟨op, s', hfin, hstep, hlt⟩ := shutdown_moves hinv hwait hk (happ k hk)
  refine ⟨op, s', restrict_eq_some.mpr ⟨hfin, hstep⟩, ⟨?_, ?_, fun j hj => ?_⟩, hlt⟩
  · exact inv_step hinv (afterStart_of_finishing hfin) hstep
  · exact noneWaits_step hwait hfin hstep
  · obtain ⟨i, hi, hfun⟩ := callsFrom_step hfin hstep .app j hj
    exact hfun ▸ happ i hi

/-- The application is in `shutdown()`, and so is a callback on the event thread. -/
def bothInShutdown : List ThreadsOp := shutdownTwice.take 12

/-- The call of the application can be completed. -/
theorem shutdown_completes_both : ∃ s, run (step 1 true) init bothInShutdown = some s ∧
    (s.call .app).map (·.function) = some .shutdown ∧
    (s.call (.thread .eq)).map (·.function) = some .shutdown ∧
    Reaches (restrict (step 1 true) Finishing) (fun s' => s'.call .app = none) s := by
  have hmeets : Meets (step 1 true) AfterStart init bothInShutdown := by decide +kernel
  have hrun : (run (step 1 true) init bothInShutdown).map (fun s => ((s.call .app).map (·.function),
      (s.call (.thread .eq)).map (·.function), s.started.map fun t => (s.thread t).map (·.body))) =
      some (some .shutdown, some .shutdown, [some .loop, some .inEntry]) := by decide +kernel
  obtain ⟨s, hs, hcalls⟩ := Option.map_eq_some_iff.mp hrun
  simp only [Prod.mk.injEq] at hcalls
  obtain ⟨happ, hthread, hbodies⟩ := hcalls
  obtain ⟨k, hk, hfun⟩ := Option.map_eq_some_iff.mp happ
  have hwait : s.NoneWaits := by
    refine (noneWaits_iff ((inv_always 1 true _ hmeets).last hs)).mpr fun t ht hb => ?_
    have hmem := List.mem_map_of_mem (f := fun t => (s.thread t).map (·.body)) ht
    simp [hbodies, hb] at hmem
  exact ⟨s, hs, happ, hthread,
    (shutdown_completes 1 true bothInShutdown hmeets).last hs k hk hfun hwait⟩

/-- No callback is in a call. -/
def Quiet (s : ServiceThreads) : Prop := ∀ t, s.call (.thread t) = none

theorem quiet_iff (h : Inv worker_num msg s) :
    s.Quiet ↔ ∀ t ∈ s.started, s.call (.thread t) = none := by
  refine ⟨fun hquiet t _ => hquiet t, fun hstarted t => ?_⟩
  by_contra hne
  obtain ⟨k, hk⟩ := Option.ne_none_iff_exists'.mp hne
  have hcall := h.calls _ k hk
  exact hne (hstarted t (hcall.started (hcall.own t rfl).2.1))

/-- Nobody else joins a thread that the application is about to join. -/
theorem Inv.joiner_eq_none (h : Inv worker_num msg s) (hquiet : s.Quiet)
    {rest : List ThreadStatement} (hk : s.call .app = some k) (ha : k.rest = .join t :: rest)
    (hx : s.thread t = some x) : x.joiner = none := by
  by_contra hne
  obtain ⟨c, hc⟩ := Option.ne_none_iff_exists'.mp hne
  obtain ⟨j, later, hj, hlater⟩ := h.joiner t x c hx hc
  cases c with
  | app =>
    obtain rfl : k = j := Option.some.inj (hk.symm.trans hj)
    exact absurd (ha.symm.trans hlater) (by simp)
  | thread u => exact absurd ((hquiet u).symm.trans hj) (by simp)

/-- A statement of the application, while no callback is in a call: its call goes on. -/
theorem app_statement (h : Inv worker_num msg s) (hquiet : s.Quiet) {rest : List ThreadStatement}
    {a : ThreadStatement} (hk : s.call .app = some k) (ha : k.rest = a :: rest)
    (hstep : s.statement .app k rest a = some s') :
    ∃ rest', s'.call = (s.setCall .app (some { k with rest := rest' })).call := by
  cases a with
  | start t => cases hstep; exact ⟨_, rfl⟩
  | shutdown t => cases hstep; exact ⟨_, rfl⟩
  | wait t => cases hstep; exact ⟨_, rfl⟩
  | assign t | stop t =>
    cases hx : s.thread t with
    | none => simp [statement, hx] at hstep
    | some x =>
      simp only [statement, hx, Option.some.injEq] at hstep
      subst hstep
      exact ⟨_, rfl⟩
  | join t =>
    cases hx : s.thread t with
    | none => simp [statement, hx] at hstep
    | some x =>
      have hjoiner : x.joiner = none := h.joiner_eq_none hquiet hk ha hx
      simp only [statement, hx, join, hjoiner, ne_eq, not_true_eq_false, or_false, reduceCtorEq,
        if_false] at hstep
      split at hstep
      · cases hstep; exact ⟨_, rfl⟩
      · split at hstep
        · cases hstep; exact ⟨_, rfl⟩
        · exact absurd hstep (by simp)
  | pthread_join t =>
    cases hx : s.thread t with
    | none => simp [statement, hx] at hstep
    | some x =>
      simp only [statement, hx] at hstep
      split at hstep
      · cases hstep; exact ⟨_, rfl⟩
      · exact absurd hstep (by simp)

/-- The application is in a call of `shutdown()`, or that call has returned. -/
def InShutdown (ids : List ServiceThread) (s : ServiceThreads) : Prop :=
  (∃ k, s.call .app = some k ∧ k.function = .shutdown ∧ k.started = ids) ∨
    ⟨.app, .shutdown, ids⟩ ∈ s.returns

theorem inShutdown_step {ids : List ServiceThread} (h : Inv worker_num msg s) (hquiet : s.Quiet)
    {op : ThreadsOp} (hf : s.Finishing op) (hstep : step worker_num msg s op = some s')
    (hk : s.call .app = some k) (hfun : k.function = .shutdown) (hids : k.started = ids) :
    InShutdown ids s' := by
  cases op with
  | call c f => exact hf.elim
  | exec c =>
    cases c with
    | app =>
      cases ha : k.rest with
      | nil =>
        simp only [step, hk, ha, Option.some.injEq] at hstep
        subst hstep
        exact Or.inr (by rw [← hfun, ← hids]; exact List.mem_cons_self)
      | cons a rest =>
        simp only [step, hk, ha] at hstep
        obtain ⟨rest', hcall⟩ := app_statement h hquiet hk ha hstep
        have happ : s'.call .app = some { k with rest := rest' } := by
          rw [hcall, setCall_call, Function.update_self]
        exact Or.inl ⟨_, happ, hfun, hids⟩
    | thread t => simp [step, hquiet t] at hstep
  | body t b =>
    cases hx : s.thread t with
    | none => simp [step, hx] at hstep
    | some x =>
      simp only [step, hx, Option.map_eq_some_iff] at hstep
      obtain ⟨y, -, rfl⟩ := hstep
      exact Or.inl ⟨k, hk, hfun, hids⟩

theorem quiet_step {op : ThreadsOp} (hquiet : s.Quiet) (hf : s.Finishing op)
    (hstep : step worker_num msg s op = some s') : s'.Quiet := by
  intro t
  by_contra hne
  obtain ⟨k', hk'⟩ := Option.ne_none_iff_exists'.mp hne
  obtain ⟨k, hk, -⟩ := callsFrom_step hf hstep _ k' hk'
  exact absurd ((hquiet t).symm.trans hk) (by simp)

/-- **And it returns**, when no callback is in a call and none makes one: then every thread that
had been started has ended and is joined. -/
theorem shutdown_returns (worker_num : ℕ) (msg : Bool) (ops : List ThreadsOp)
    (h : Meets (step worker_num msg) AfterStart init ops) :
    Always (step worker_num msg) (fun s => ∀ k, s.call .app = some k → k.function = .shutdown →
      s.NoneWaits → s.Quiet → Reaches (restrict (step worker_num msg) Finishing) (fun s' =>
        ⟨.app, .shutdown, k.started⟩ ∈ s'.returns ∧ ∀ t ∈ k.started, s'.Down t) s) init ops := by
  refine (inv_always worker_num msg ops h).mono fun s h k hk hfun hwait hquiet => ?_
  let Going (s : ServiceThreads) : Prop :=
    Inv worker_num msg s ∧ s.NoneWaits ∧ s.Quiet ∧ InShutdown k.started s
  have hgoing : Going s := ⟨h, hwait, hquiet, Or.inl ⟨k, hk, hfun, rfl⟩⟩
  refine reaches_of_rank (rank worker_num msg) (fun s hs hnot => ?_) hgoing
  obtain ⟨hinv, hwait, hquiet, ⟨j, hj, hshutdown, hids⟩ | hreturned⟩ := hs
  · obtain ⟨op, s', hfin, hstep, hlt⟩ := shutdown_moves hinv hwait hj hshutdown
    exact ⟨op, s', restrict_eq_some.mpr ⟨hfin, hstep⟩,
      ⟨inv_step hinv (afterStart_of_finishing hfin) hstep, noneWaits_step hwait hfin hstep,
        quiet_step hquiet hfin hstep, inShutdown_step hinv hquiet hfin hstep hj hshutdown hids⟩,
      hlt⟩
  · obtain ⟨-, hsub, hdown⟩ := hinv.returned _ hreturned (by simp)
    exact absurd ⟨hreturned, fun t ht => hdown t ht (hinv.subset (hsub ht))⟩ hnot

/-- The application is in `shutdown()`, and no callback is in a call. -/
def inShutdown : List ThreadsOp := shutdownTwice.take 10

/-- The call returns, and the threads are down. -/
theorem shutdown_returns_one : ∃ s, run (step 1 true) init inShutdown = some s ∧
    Reaches (restrict (step 1 true) Finishing) (fun s' =>
      ⟨.app, .shutdown, [.cq 0, .eq]⟩ ∈ s'.returns ∧ ∀ t ∈ [.cq 0, .eq], s'.Down t) s := by
  have hmeets : Meets (step 1 true) AfterStart init inShutdown := by decide +kernel
  have hrun : (run (step 1 true) init inShutdown).map (fun s =>
      ((s.call .app).map fun k => (k.function, k.started), s.started.map fun t =>
        ((s.thread t).map (·.body), s.call (.thread t)))) =
      some (some (.shutdown, [.cq 0, .eq]), [(some .loop, none), (some .loop, none)]) := by
    decide +kernel
  obtain ⟨s, hs, hcalls⟩ := Option.map_eq_some_iff.mp hrun
  simp only [Prod.mk.injEq] at hcalls
  obtain ⟨happ, hthreads⟩ := hcalls
  obtain ⟨k, hk, hfun⟩ := Option.map_eq_some_iff.mp happ
  simp only [Prod.mk.injEq] at hfun
  have hinv := (inv_always 1 true _ hmeets).last hs
  have hstarted : ∀ t ∈ s.started,
      (s.thread t).map (·.body) = some .loop ∧ s.call (.thread t) = none := fun t ht => by
    have hmem := List.mem_map_of_mem
      (f := fun t => ((s.thread t).map (·.body), s.call (.thread t))) ht
    simpa [hthreads] using hmem
  have hwait : s.NoneWaits := (noneWaits_iff hinv).mpr fun t ht hb => by
    simp [(hstarted t ht).1] at hb
  have hquiet : s.Quiet := (quiet_iff hinv).mpr fun t ht => (hstarted t ht).2
  have hreaches := (shutdown_returns 1 true inShutdown hmeets).last hs k hk hfun.1 hwait hquiet
  exact ⟨s, hs, hfun.2 ▸ hreaches⟩

end ServiceThreads

end Hpnl
