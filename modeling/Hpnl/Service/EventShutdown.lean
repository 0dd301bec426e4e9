import Hpnl.Service.Joins

/-!
# `wait()` and a callback that shuts the service down

The clients of the examples start the threads, call `wait()` and delete the service when it
returns; their shutdown callback, which runs on the event thread, calls `shutdown()`
(`src/examples/ping-pong/client.cc`).  That call stops and joins the completion threads, and
ends in the exception of a thread that joins itself, which ends the event thread.

* `EventOnly` — nothing else calls `shutdown()`, and nothing else ends the event thread.
* `EventInv`, `eventInv_step` — the invariant of such runs.
* `wait_returned` — **when `wait()` has returned, every thread has ended and is joined**.
-/

namespace Hpnl

open Transition

namespace ServiceThread

/-- The thread that handles connections, or all of RDM. -/
def IsEvent (t : ServiceThread) : Prop := ∀ i, t ≠ .cq i

theorem not_isEvent_cq (i : ℕ) : ¬ (cq i).IsEvent := fun h => h i rfl

theorem isEvent_eq : eq.IsEvent := by simp [IsEvent]

theorem isEvent_rdm : rdm.IsEvent := by simp [IsEvent]

instance : (t : ServiceThread) → Decidable t.IsEvent
  | .cq i => isFalse (not_isEvent_cq i)
  | .eq => isTrue isEvent_eq
  | .rdm => isTrue isEvent_rdm

end ServiceThread

namespace ThreadFunction

variable {worker_num : ℕ} {msg : Bool} {t u : ServiceThread}

/-- A service starts one such thread. -/
theorem event_unique (ht : t ∈ threads worker_num msg .start)
    (hu : u ∈ threads worker_num msg .start) (het : t.IsEvent) (heu : u.IsEvent) : t = u := by
  cases msg
  · obtain rfl : t = .rdm := by simpa [threads] using ht
    obtain rfl : u = .rdm := by simpa [threads] using hu
    rfl
  · have hof : ∀ v : ServiceThread, v ∈ threads worker_num true .start → v.IsEvent → v = .eq := by
      intro v hv he
      simp only [threads, if_true, List.mem_cons, List.mem_map] at hv
      rcases hv with rfl | ⟨i, -, rfl⟩
      · rfl
      · exact absurd rfl (he i)
    rw [hof t ht het, hof u hu heu]

/-- Nothing that is shut down after such a thread is a completion thread. -/
theorem isEvent_of_order_lt (hu : u ∈ threads worker_num msg .shutdown) (het : t.IsEvent)
    (hlt : t.order worker_num < u.order worker_num) : u.IsEvent := by
  rintro i rfl
  have hi : i < worker_num := by simpa [threads] using hu
  have hle : worker_num ≤ t.order worker_num := by
    cases t with
    | cq j => exact absurd rfl (het j)
    | eq => exact le_rfl
    | rdm => exact Nat.le_succ _
  exact absurd (hlt.trans hi) (not_lt.mpr hle)

end ThreadFunction

namespace ServiceThreads

variable (worker_num : ℕ) (msg : Bool)

/-- The application calls `start()` and `wait()`, and after `start()` has returned, callbacks on
the event thread call `shutdown()`; `entry` does not fail there. -/
def EventOnly (s : ServiceThreads) : ThreadsOp → Prop
  | .call .app f => f ≠ .shutdown
  | .call (.thread t) _ => t.IsEvent ∧ (s.call .app).map (·.function) ≠ some .start
  | .body t (.leave ret) => t.IsEvent → ret ≠ -1
  | .body t .throw => ¬ t.IsEvent
  | .exec _ | .body _ .enter | .body _ .wait | .body _ .connected | .body _ .check => True

instance (s : ServiceThreads) : (op : ThreadsOp) → Decidable (s.EventOnly op)
  | .call .app f => inferInstanceAs (Decidable (f ≠ .shutdown))
  | .call (.thread _) _ => inferInstanceAs (Decidable (_ ∧ _ ≠ _))
  | .body t (.leave ret) => inferInstanceAs (Decidable (t.IsEvent → ret ≠ -1))
  | .body t .throw => inferInstanceAs (Decidable (¬ t.IsEvent))
  | .exec _ | .body _ .enter | .body _ .wait | .body _ .connected | .body _ .check => isTrue trivial

theorem afterStart_of_eventOnly {s : ServiceThreads} {op : ThreadsOp} (h : s.EventOnly op) :
    s.AfterStart op := by
  cases op with
  | call c f =>
    cases c with
    | app => trivial
    | thread t => exact h.2
  | exec c => trivial
  | body t b => trivial

/-- The threads have all been started. -/
def Launched (s : ServiceThreads) : Prop :=
  s.started ≠ [] ∧ (s.call .app).map (·.function) ≠ some .start

/-- Where there is a completion thread, there is the event thread. -/
def Headed (ids : List ServiceThread) : Prop := ∀ i, .cq i ∈ ids → .eq ∈ ids

/-- What holds of the event thread: it ends with all others, and it is stopped by itself. -/
structure EventOk (s : ServiceThreads) (t : ServiceThread) (x : ThreadWrapper) : Prop where
  ended : x.body = .ended → s.Launched ∧ ∀ u ∈ s.started, u ≠ t → s.Down u
  done : x.done = true → x.body = .ended ∨
    ∃ k rest, s.call (.thread t) = some k ∧ k.rest = .join t :: rest
  returned : ∀ ret, x.body = .returned ret → ret ≠ -1

/-- The invariant of the runs in which only the event thread shuts the service down. -/
structure EventInv (s : ServiceThreads) : Prop where
  kinds : s.started ⊆ ThreadFunction.threads worker_num msg .start
  headed : Headed s.started
  app : ∀ k, s.call .app = some k → k.function ≠ .shutdown ∧ Headed k.started ∧
    (k.function = .start →
      k.rest = Service.start worker_num msg ∨ .eq ∈ s.started ∨ msg = false)
  calls : ∀ t k, s.call (.thread t) = some k →
    t.IsEvent ∧ k.started = s.started ∧ s.Launched
  event : ∀ t x, t.IsEvent → s.thread t = some x → s.EventOk t x
  returns : ∀ r ∈ s.returns, Headed r.started

variable {worker_num msg} {s s' : ServiceThreads} {c : Caller} {t : ServiceThread}
  {x y : ThreadWrapper} {k : FunctionCall}

/-! ## What a step keeps -/

theorem launched_setCall {j : Option FunctionCall} (h : s.Launched) (hk : s.call c = some k)
    (hj : ∀ k' ∈ j, k'.function = k.function) : (s.setCall c j).Launched := by
  refine ⟨h.1, fun hstart => ?_⟩
  obtain ⟨k', hk', hfun⟩ := Option.map_eq_some_iff.mp hstart
  obtain ⟨i, hi, hfun'⟩ := callsFrom_setCall hk hj rfl .app k' hk'
  exact h.2 (by rw [hi, Option.map_some, hfun', hfun])

/-- The event thread goes on to be right while others make their steps. -/
theorem EventOk.of_follows (h : s.EventOk t x) (hf : Follows s s') (hs : s'.started = s.started)
    (hlaunched : s.Launched → s'.Launched)
    (hcall : x.done = true → x.body ≠ .ended → s'.call (.thread t) = s.call (.thread t)) :
    s'.EventOk t x where
  ended := fun hended => by
    obtain ⟨hl, hdown⟩ := h.ended hended
    exact ⟨hlaunched hl, fun u hu hne => hf.down (hdown u (hs ▸ hu) hne)⟩
  done := fun hdone => by
    by_cases hended : x.body = .ended
    · exact Or.inl hended
    · rw [hcall hdone hended]
      exact h.done hdone
  returned := h.returned

/-- A thread is changed. -/
theorem eventInv_setThread (h : EventInv worker_num msg s) (hx : s.thread t = some x)
    (hdone : x.done = true → y.done = true) (hdown : x.Down → y.Down)
    (hok : t.IsEvent → s.EventOk t y) : EventInv worker_num msg (s.setThread t y) := by
  have hf : Follows s (s.setThread t y) := follows_setThread hx hdone hdown
  refine ⟨h.kinds, h.headed, h.app, h.calls, fun u z he hz => ?_, h.returns⟩
  rcases of_update hz with ⟨rfl, hyz⟩ | ⟨-, hz⟩
  · obtain rfl := Option.some.inj hyz
    exact (hok he).of_follows hf rfl id fun _ _ => rfl
  · exact (h.event u z he hz).of_follows hf rfl id fun _ _ => rfl

/-- A call goes on, or ends. -/
theorem eventInv_setCall (h : EventInv worker_num msg s) {j : Option FunctionCall}
    (hk : s.call c = some k)
    (hj : ∀ k' ∈ j, k'.function = k.function ∧ k'.started = k.started ∧ k.function ≠ .start)
    (hdone : ∀ t x, c = .thread t → s.thread t = some x → x.done = true → x.body = .ended ∨
      ∃ k' rest, j = some k' ∧ k'.rest = .join t :: rest) :
    EventInv worker_num msg (s.setCall c j) := by
  have hl : s.Launched → (s.setCall c j).Launched := fun hl =>
    launched_setCall hl hk fun k' hk' => (hj k' hk').1
  refine ⟨h.kinds, h.headed, fun k' hk' => ?_, fun t k' hk' => ?_, fun t x he hx => ?_, h.returns⟩
  · rcases of_update hk' with ⟨rfl, hjk⟩ | ⟨-, hk'⟩
    · obtain ⟨hfun, hids, hstart⟩ := hj k' hjk
      obtain ⟨hno, hheaded, -⟩ := h.app k hk
      exact ⟨hfun ▸ hno, hids ▸ hheaded, fun hf => absurd (hfun.symm.trans hf) hstart⟩
    · exact h.app k' hk'
  · rcases of_update hk' with ⟨rfl, hjk⟩ | ⟨-, hk'⟩
    · obtain ⟨-, hids, -⟩ := hj k' hjk
      obtain ⟨he, hids', hlaunched⟩ := h.calls t k hk
      exact ⟨he, hids.trans hids', hl hlaunched⟩
    · obtain ⟨he, hids', hlaunched⟩ := h.calls t k' hk'
      exact ⟨he, hids', hl hlaunched⟩
  · have hok := h.event t x he hx
    refine ⟨fun hended => ?_, fun hd => ?_, hok.returned⟩
    · exact ⟨hl (hok.ended hended).1, (hok.ended hended).2⟩
    · by_cases hc : c = .thread t
      · subst hc
        rcases hdone t x rfl hx hd with hended | ⟨k', rest, rfl, hrest⟩
        · exact Or.inl hended
        · exact Or.inr ⟨k', rest, Function.update_self .., hrest⟩
      · rw [setCall_call, Function.update_of_ne (Ne.symm hc)]
        exact hok.done hd

/-- A call goes on with another statement about the same threads. -/
theorem eventInv_goOn (h : EventInv worker_num msg s) (rest : List ThreadStatement)
    (hk : s.call c = some k) (hf : k.function ≠ .start)
    (hdone : ∀ t x, c = .thread t → s.thread t = some x → x.done = true → x.body = .ended ∨
      ∃ later, rest = .join t :: later) :
    EventInv worker_num msg (s.setCall c (some { k with rest := rest })) := by
  refine eventInv_setCall h hk ?_ fun t x hc hx hd => ?_
  · rintro k' ⟨⟩
    exact ⟨rfl, rfl, hf⟩
  · rcases hdone t x hc hx hd with hended | ⟨later, hlater⟩
    · exact Or.inl hended
    · exact Or.inr ⟨_, later, rfl, hlater⟩

/-- A callback whose thread has been stopped is about to join it. -/
theorem EventInv.not_done (h : EventInv worker_num msg s) (hi : Inv worker_num msg s)
    (hk : s.call (.thread t) = some k) (hrest : ∀ rest, k.rest ≠ .join t :: rest)
    (hx : s.thread t = some x) : x.done = false := by
  by_contra hd
  have hok := h.event t x (h.calls t k hk).1 hx
  rcases hok.done (by simpa using hd) with hended | ⟨j, rest, hj, ha⟩
  · obtain ⟨-, -, hentry⟩ := (hi.calls _ k hk).own t rfl
    simp [hx, hended] at hentry
  · obtain rfl : k = j := Option.some.inj (hk.symm.trans hj)
    exact hrest rest ha

/-- Only the thread itself is about to join the event thread, or waits for another one. -/
theorem EventInv.joins_self (h : EventInv worker_num msg s) (hi : Inv worker_num msg s)
    {u : ServiceThread} {rest : List ThreadStatement} (hk : s.call (.thread t) = some k)
    (ha : k.rest = .join u :: rest) (hx : s.thread u = some x)
    (hjoin : Caller.thread t = .thread u ∨ x.joiner ≠ none) : u = t := by
  rcases hjoin with hself | hjoiner
  · injection hself with htu
    exact htu.symm
  · obtain ⟨c, hc⟩ := Option.ne_none_iff_exists'.mp hjoiner
    obtain ⟨j, later, hj, hlater⟩ := hi.joiner u x c hx hc
    obtain ⟨he, -, -⟩ := h.calls t k hk
    have ht : t ∈ s.started := (hi.calls _ k hk).started ((hi.calls _ k hk).own t rfl).2.1
    have hu : u ∈ s.started := (hi.started u).mpr (by simp [hx])
    cases c with
    | app =>
      -- `wait()` is for event threads
      obtain ⟨ts, hsuffix, hrest, -, -⟩ := (hi.calls _ j hj).rest
      obtain ⟨hstart, us, rfl, -⟩ := (hlater ▸ hrest).of_pthread_join
      have hwait : j.function = .wait := by
        cases hf : j.function with
        | start => exact absurd hf hstart
        | shutdown => exact absurd hf (h.app j hj).1
        | wait => rfl
      have hmem : u ∈ [ServiceThread.eq, .rdm] := by
        have hmem := hsuffix.subset List.mem_cons_self
        rwa [hwait] at hmem
      have heu : u.IsEvent := by
        simp only [List.mem_cons, List.not_mem_nil, or_false] at hmem
        rcases hmem with rfl | rfl
        · exact fun i => by simp
        · exact fun i => by simp
      exact ThreadFunction.event_unique (h.kinds hu) (h.kinds ht) heu he
    | thread v =>
      obtain ⟨hev, -, -⟩ := h.calls v j hj
      have hv : v ∈ s.started := (hi.calls _ j hj).started ((hi.calls _ j hj).own v rfl).2.1
      obtain rfl : v = t := ThreadFunction.event_unique (h.kinds hv) (h.kinds ht) hev he
      obtain rfl : k = j := Option.some.inj (hk.symm.trans hj)
      exact absurd (ha.symm.trans hlater) (by simp)

/-- When the event thread is about to join itself, all others are down. -/
theorem EventInv.others_down (h : EventInv worker_num msg s) (hi : Inv worker_num msg s)
    {rest : List ThreadStatement} (hk : s.call (.thread t) = some k)
    (ha : k.rest = .join t :: rest) {u : ServiceThread} (hu : u ∈ s.started) (hne : u ≠ t) :
    s.Down u := by
  obtain ⟨he, hids, -⟩ := h.calls t k hk
  have hcall := hi.calls _ k hk
  obtain ⟨hfun, hmem, -⟩ := hcall.own t rfl
  obtain ⟨ts, hsuffix, hrest, -, hdown⟩ := hcall.rest
  obtain ⟨hstart, us, rfl, -⟩ := (ha ▸ hrest).of_join
  have hthreads := hi.subset hu
  refine (hdown hstart u (hids ▸ hu) (hfun ▸ hthreads)).resolve_left fun hts => hne ?_
  have hus : u ∈ us := (List.mem_cons.mp hts).resolve_left hne
  have hlt := (List.pairwise_cons.mp ((ThreadFunction.pairwise_order worker_num msg).sublist
    (hfun ▸ hsuffix.sublist))).1 u hus
  exact ThreadFunction.event_unique (h.kinds hu) (h.kinds (hcall.started hmem))
    (ThreadFunction.isEvent_of_order_lt hthreads he hlt) he

/-- An exception ends the event thread when all others are down. -/
theorem eventInv_raise (h : EventInv worker_num msg s) (hi : Inv worker_num msg s)
    {u : ServiceThread} {rest : List ThreadStatement} (hk : s.call c = some k)
    (ha : k.rest = .join u :: rest) (hx : s.thread u = some x)
    (hjoin : c = .thread u ∨ x.joiner ≠ none) : EventInv worker_num msg (s.raise c) := by
  cases c with
  | app => exact eventInv_setCall h hk (fun _ hj => absurd hj (by simp)) fun t x hc => by simp at hc
  | thread t =>
    obtain rfl : u = t := h.joins_self hi hk ha hx hjoin
    have hok : s.EventOk u { x with body := .ended } :=
      ⟨fun _ => ⟨(h.calls u k hk).2.2, fun v hv hne => h.others_down hi hk ha hv hne⟩,
        fun _ => Or.inl rfl, fun ret hret => absurd hret (by simp)⟩
    have hended : EventInv worker_num msg (s.setThread u { x with body := .ended }) :=
      eventInv_setThread h hx id (fun hd => ⟨rfl, hd.2⟩) fun _ => hok
    rw [raise_thread hx]
    refine eventInv_setCall hended hk (fun _ hj => absurd hj (by simp)) fun t z hc hz _ => ?_
    obtain rfl : u = t := by injection hc
    rw [setThread_thread, Function.update_self] at hz
    cases hz
    exact Or.inl rfl

/-- `xThread = new XThread(…); xThread->start()`, until the thread runs. -/
theorem eventInv_start (h : EventInv worker_num msg s) (hi : Inv worker_num msg s)
    {rest : List ThreadStatement} (hk : s.call c = some k) (ha : k.rest = .start t :: rest) :
    EventInv worker_num msg { s.setThread t .started with
      call := Function.update s.call c (some { k with rest := .assign t :: rest })
      started := t :: s.started } := by
  have hcall := hi.calls c k hk
  obtain ⟨ts, hsuffix, hrest, hfresh, -⟩ := hcall.rest
  obtain ⟨hfun, us, rfl, rfl⟩ := ThreadFunction.Rest.of_test (g := .start) (ha ▸ hrest)
  obtain rfl : c = .app := hi.app_of_start hk hfun
  have ht : t ∈ ThreadFunction.threads worker_num msg .start :=
    hfun ▸ hsuffix.subset List.mem_cons_self
  have hnot : ¬ s.Launched := fun hl => hl.2 (by rw [hk, Option.map_some, hfun])
  obtain ⟨hno, hheaded, hleft⟩ := h.app k hk
  have hfirst : (∀ i, t = .cq i → .eq ∈ s.started) ∧ (.eq ∈ t :: s.started ∨ msg = false) := by
    rcases hleft hfun with hrest | hmem | rfl
    · have hhead := ha.symm.trans hrest
      cases msg
      · exact ⟨fun i ht => by simp [ht, Service.start] at hhead, Or.inr rfl⟩
      · obtain ⟨ht, -⟩ : t = .eq ∧ _ := by simpa [Service.start] using hhead
        exact ⟨fun i hti => by simp [ht] at hti, Or.inl (ht ▸ List.mem_cons_self)⟩
    · exact ⟨fun _ _ => hmem, Or.inl (List.mem_cons_of_mem t hmem)⟩
    · refine ⟨fun i hti => ?_, Or.inr rfl⟩
      simp [hti, ThreadFunction.threads] at ht
  refine ⟨List.cons_subset.mpr ⟨ht, h.kinds⟩, fun i hmem => ?_, fun k' hk' => ?_,
    fun u k' hk' => ?_, fun u x he hx => ?_, h.returns⟩
  · rcases List.mem_cons.mp hmem with hti | hmem
    · exact List.mem_cons_of_mem t (hfirst.1 i hti.symm)
    · exact List.mem_cons_of_mem t (h.headed i hmem)
  · dsimp only at hk'
    rcases of_update hk' with ⟨-, hkk⟩ | ⟨hne, -⟩
    · obtain rfl := Option.some.inj hkk
      exact ⟨hno, hheaded, fun _ => Or.inr hfirst.2⟩
    · exact absurd rfl hne
  · dsimp only at hk'
    rcases of_update hk' with ⟨hc, -⟩ | ⟨-, hk'⟩
    · exact absurd hc (by simp)
    · exact absurd (h.calls u k' hk').2.2 hnot
  · rcases of_update hx with ⟨rfl, hxy⟩ | ⟨-, hx⟩
    · obtain rfl := Option.some.inj hxy
      exact ⟨fun hb => absurd hb (by decide), fun hd => absurd hd (by decide),
        fun ret hb => absurd hb (by simp [ThreadWrapper.started])⟩
    · have hok := h.event u x he hx
      refine ⟨fun hb => absurd (hok.ended hb).1 hnot, fun hd => ?_, hok.returned⟩
      rcases hok.done hd with hb | ⟨k', later, hk', -⟩
      · exact Or.inl hb
      · exact absurd (h.calls u k' hk').2.2 hnot

/-- The thread that runs is assigned. -/
theorem eventInv_assign (h : EventInv worker_num msg s) (hi : Inv worker_num msg s)
    {rest : List ThreadStatement} (hk : s.call c = some k) (ha : k.rest = .assign t :: rest)
    (hx : s.thread t = some x) :
    EventInv worker_num msg ((s.setThread t { x with thread := .joinable }).setCall c
      (some { k with rest := rest })) := by
  have hfun : k.function = .start := (hi.calls c k hk).start_of_assign ha
  obtain rfl : c = .app := hi.app_of_start hk hfun
  have hquiet : ∀ u, s.call (.thread u) = none := hi.quiet_of_start hk hfun
  have hnot : ¬ s.Launched := fun hl => hl.2 (by rw [hk, Option.map_some, hfun])
  obtain ⟨hno, hheaded, hleft⟩ := h.app k hk
  have hfirst : .eq ∈ s.started ∨ msg = false := by
    refine (hleft hfun).resolve_left fun hrest => ?_
    have hmap : Service.start worker_num msg = _ :=
      ThreadFunction.statements_eq worker_num msg .start
    exact ThreadFunction.map_test_ne.2.2.2 (hmap.symm.trans (hrest.symm.trans ha))
  have hevent : ∀ u z, u.IsEvent → s.thread u = some z →
      (z.body = .ended → False) ∧ (z.done = true → False) ∧
        ∀ ret, z.body = .returned ret → ret ≠ -1 := fun u z he hz => by
    have hok := h.event u z he hz
    have hended : z.body = .ended → False := fun hb => hnot (hok.ended hb).1
    refine ⟨hended, fun hd => ?_, hok.returned⟩
    rcases hok.done hd with hb | ⟨k', later, hk', -⟩
    · exact hended hb
    · exact absurd ((hquiet u).symm.trans hk') (by simp)
  refine ⟨h.kinds, h.headed, fun k' hk' => ?_, fun u k' hk' => ?_, fun u z he hz => ?_, h.returns⟩
  · rw [setCall_call, Function.update_self] at hk'
    obtain rfl := Option.some.inj hk'
    exact ⟨hno, hheaded, fun _ => Or.inr hfirst⟩
  · have hku : s.call (.thread u) = some k' := by simpa using hk'
    exact absurd ((hquiet u).symm.trans hku) (by simp)
  · obtain ⟨hended, hdone, hret⟩ : (z.body = .ended → False) ∧ (z.done = true → False) ∧
        ∀ ret, z.body = .returned ret → ret ≠ -1 := by
      rcases of_update hz with ⟨rfl, hzx⟩ | ⟨-, hz⟩
      · obtain rfl := Option.some.inj hzx
        exact hevent u x he hx
      · exact hevent u z he hz
    exact ⟨fun hb => (hended hb).elim, fun hd => (hdone hd).elim, hret⟩

/-- A callback whose thread has been stopped is at the statement that joins it. -/
theorem EventInv.join_of_done (h : EventInv worker_num msg s) (hi : Inv worker_num msg s)
    {u : ServiceThread} {rest : List ThreadStatement} {a : ThreadStatement}
    (hk : s.call c = some k) (ha : k.rest = a :: rest) (hc : c = .thread u)
    (hx : s.thread u = some x) (hd : x.done = true) : a = .join u := by
  subst hc
  by_contra hne
  have hd' := h.not_done hi hk (fun later hl => hne (List.cons.inj (ha.symm.trans hl)).1) hx
  exact absurd (hd'.symm.trans hd) (by simp)

/-- `stop()`, on the event thread itself or on a completion thread. -/
theorem eventInv_stop (h : EventInv worker_num msg s) (hi : Inv worker_num msg s)
    {rest : List ThreadStatement} (hk : s.call c = some k) (ha : k.rest = .stop t :: rest)
    (hx : s.thread t = some x) :
    EventInv worker_num msg ((s.setThread t { x with done := true }).setCall c
      (some { k with rest := rest })) := by
  have hcall := hi.calls c k hk
  obtain ⟨ts, -, hrest, -⟩ := hcall.rest
  obtain ⟨hfun, us, rfl, rfl⟩ := (ha ▸ hrest).of_stop
  have hgoOn := eventInv_goOn h (.join t :: us.map k.function.test) hk (by simp [hfun])
    fun u x hc hx hd => absurd (h.join_of_done hi hk ha hc hx hd) (by simp)
  refine eventInv_setThread hgoOn hx (fun _ => rfl) id fun he => ?_
  have hok := hgoOn.event t x he hx
  refine ⟨hok.ended, fun _ => Or.inr
    ⟨{ k with rest := .join t :: us.map k.function.test }, _, ?_, rfl⟩, hok.returned⟩
  cases c with
  | app => exact absurd hfun (h.app k hk).1
  | thread u =>
    have hu : u ∈ s.started := hcall.started (hcall.own u rfl).2.1
    have ht : t ∈ s.started := (hi.started t).mpr (by simp [hx])
    obtain rfl : u = t :=
      ThreadFunction.event_unique (h.kinds hu) (h.kinds ht) (h.calls u k hk).1 he
    exact Function.update_self ..

/-- The thread that is joined: what it runs, and whether it has been stopped, stays. -/
theorem eventInv_setJoiner (h : EventInv worker_num msg s) (hx : s.thread t = some x)
    {j : StdThread} {d : Option Caller} (hdown : x.Down → j = .joined) :
    EventInv worker_num msg (s.setThread t { x with thread := j, joiner := d }) :=
  eventInv_setThread h hx id (fun hd => ⟨hd.1, hdown hd⟩) fun he =>
    ⟨(h.event t x he hx).ended, (h.event t x he hx).done, (h.event t x he hx).returned⟩

/-- `join()`, up to `thread.join()`. -/
theorem eventInv_join (h : EventInv worker_num msg s) (hi : Inv worker_num msg s)
    {rest : List ThreadStatement} (hk : s.call c = some k) (ha : k.rest = .join t :: rest)
    (hx : s.thread t = some x) (hstep : s.join c k t x rest = some s') :
    EventInv worker_num msg s' := by
  obtain ⟨ts, -, hrest, -⟩ := (hi.calls c k hk).rest
  obtain ⟨hf, -⟩ := (ha ▸ hrest).of_join
  have hself : ∀ u z, c = .thread u → s.thread u = some z → z.done = true → t = u :=
    fun u z hc hz hd => by injection h.join_of_done hi hk ha hc hz hd
  unfold join at hstep
  split at hstep
  · split at hstep
    · rename_i hjoin
      cases hstep
      exact eventInv_raise h hi hk ha hx hjoin
    · rename_i hjoin
      cases hstep
      refine eventInv_setJoiner (j := x.thread) (eventInv_goOn h (.pthread_join t :: rest) hk hf
        fun u z hc hz hd => ?_) hx fun hd => hd.2
      obtain rfl := hself u z hc hz hd
      exact absurd (Or.inl hc) hjoin
  · split at hstep
    · rename_i hnot _
      cases hstep
      refine eventInv_goOn h _ hk hf fun u z hc hz hd => Or.inl ?_
      obtain rfl := hself u z hc hz hd
      obtain rfl : x = z := Option.some.inj (hx.symm.trans hz)
      obtain ⟨y, hy, hended, -⟩ := hi.down_of_not_joinable hk hf hx hnot
      obtain rfl : x = y := Option.some.inj (hx.symm.trans hy)
      exact hended
    · exact absurd hstep (by simp)

/-- A statement of a call. -/
theorem eventInv_statement (h : EventInv worker_num msg s) (hi : Inv worker_num msg s)
    {rest : List ThreadStatement} {a : ThreadStatement} (hk : s.call c = some k)
    (ha : k.rest = a :: rest) (hstep : s.statement c k rest a = some s') :
    EventInv worker_num msg s' := by
  obtain ⟨ts, -, hrest, -⟩ := (hi.calls c k hk).rest
  rw [ha] at hrest
  cases a with
  | start t =>
    cases hstep
    exact eventInv_start h hi hk ha
  | assign t =>
    cases hx : s.thread t with
    | none => simp [statement, hx] at hstep
    | some x =>
      simp only [statement, hx, Option.some.injEq] at hstep
      exact hstep ▸ eventInv_assign h hi hk ha hx
  | shutdown t =>
    obtain ⟨hfun, -⟩ := hrest.of_test (g := .shutdown)
    cases hstep
    exact eventInv_goOn h _ hk (by simp [hfun]) fun u x hc hx hd =>
      absurd (h.join_of_done hi hk ha hc hx hd) (by simp)
  | wait t =>
    obtain ⟨hfun, -⟩ := hrest.of_test (g := .wait)
    cases hstep
    exact eventInv_goOn h _ hk (by simp [hfun]) fun u x hc hx hd =>
      absurd (h.join_of_done hi hk ha hc hx hd) (by simp)
  | stop t =>
    cases hx : s.thread t with
    | none => simp [statement, hx] at hstep
    | some x =>
      simp only [statement, hx, Option.some.injEq] at hstep
      exact hstep ▸ eventInv_stop h hi hk ha hx
  | join t =>
    cases hx : s.thread t with
    | none => simp [statement, hx] at hstep
    | some x =>
      simp only [statement, hx] at hstep
      exact eventInv_join h hi hk ha hx hstep
  | pthread_join t =>
    cases hx : s.thread t with
    | none => simp [statement, hx] at hstep
    | some x =>
      obtain ⟨hf, -⟩ := hrest.of_pthread_join
      simp only [statement, hx] at hstep
      split at hstep
      · cases hstep
        exact eventInv_setJoiner (eventInv_goOn h rest hk hf fun u z hc hz hd =>
          absurd (h.join_of_done hi hk ha hc hz hd) (by simp)) hx fun _ => rfl
      · exact absurd hstep (by simp)

/-- A call that has nothing left to do returns. -/
theorem eventInv_return (h : EventInv worker_num msg s) (hi : Inv worker_num msg s)
    (hk : s.call c = some k) (ha : k.rest = []) : EventInv worker_num msg
      { s.setCall c none with returns := ⟨c, k.function, k.started⟩ :: s.returns } := by
  have hset : EventInv worker_num msg (s.setCall c none) := by
    refine eventInv_setCall h hk (fun _ hj => absurd hj (by simp)) ?_
    rintro t x rfl hx hd
    have hd' := h.not_done hi hk (fun rest hr => absurd (ha.symm.trans hr) (by simp)) hx
    exact absurd (hd'.symm.trans hd) (by simp)
  refine ⟨hset.kinds, hset.headed, hset.app, hset.calls, fun t x he hx => ?_, fun r hr => ?_⟩
  · exact ⟨(hset.event t x he hx).ended, (hset.event t x he hx).done,
      (hset.event t x he hx).returned⟩
  · rcases List.mem_cons.mp hr with rfl | hr
    · cases c with
      | app => exact (h.app k hk).2.1
      | thread t => exact (h.calls t k hk).2.1 ▸ h.headed
    · exact h.returns r hr

/-- A call is made. -/
theorem eventInv_call (h : EventInv worker_num msg s) (hi : Inv worker_num msg s)
    {f : ThreadFunction} (hmay : s.mayCall c f) (hg : s.EventOnly (.call c f)) :
    EventInv worker_num msg
      (s.setCall c (some ⟨f, Service.statements worker_num msg f, s.started⟩)) := by
  have hnone : s.call c = none := by
    cases c with
    | app => exact hmay.1
    | thread t => exact hmay.2.1
  -- `start()` is not called a second time
  have hl : s.Launched → (s.setCall c
      (some ⟨f, Service.statements worker_num msg f, s.started⟩)).Launched := by
    refine fun hl => ⟨hl.1, ?_⟩
    cases c with
    | app =>
      rw [setCall_call, Function.update_self]
      intro hf
      exact hl.1 (hmay.2 (by simpa using hf))
    | thread t => simpa [Function.update_of_ne] using hl.2
  refine ⟨h.kinds, h.headed, fun k' hk' => ?_, fun t k' hk' => ?_, fun t x he hx => ?_, h.returns⟩
  · rcases of_update hk' with ⟨rfl, hkk⟩ | ⟨-, hk'⟩
    · obtain rfl := Option.some.inj hkk
      refine ⟨hg, h.headed, ?_⟩
      rintro rfl
      exact Or.inl rfl
    · exact h.app k' hk'
  · rcases of_update hk' with ⟨rfl, hkk⟩ | ⟨-, hk'⟩
    · obtain rfl := Option.some.inj hkk
      obtain ⟨-, -, hentry⟩ := hmay
      have hmem : t ∈ s.started := (hi.started t).mpr fun hx => by simp [hx] at hentry
      exact ⟨hg.1, rfl, hl ⟨List.ne_nil_of_mem hmem, hg.2⟩⟩
    · obtain ⟨he, hids, hlaunched⟩ := h.calls t k' hk'
      exact ⟨he, hids, hl hlaunched⟩
  · refine (h.event t x he hx).of_follows ⟨fun u z hz => ⟨z, hz, id, id⟩, List.Subset.refl _⟩ rfl
      hl fun hd hb => Function.update_of_ne ?_ ..
    rintro rfl
    rcases (h.event t x he hx).done hd with hended | ⟨k', rest, hk', -⟩
    · exact hb hended
    · exact absurd (hnone.symm.trans hk') (by simp)

/-- A thread makes a step. -/
theorem eventInv_body (h : EventInv worker_num msg s) (hi : Inv worker_num msg s) {b : BodyStep}
    (hx : s.thread t = some x) (hg : s.EventOnly (.body t b))
    (hstep : body (s.call (.thread t)).isSome x b = some y) :
    EventInv worker_num msg (s.setThread t y) := by
  obtain ⟨-, hdone, -, hcases⟩ := body_cases hstep
  have hne : x.body ≠ .ended := by
    rcases hcases with ⟨hb, -⟩ | ⟨hb, -⟩ | ⟨hb, -⟩ | ⟨⟨ret, hb, -⟩, -⟩
    all_goals simp [hb]
  refine eventInv_setThread h hx (fun hd => hdone.trans hd) (fun hd => absurd hd.1 hne) fun he => ?_
  have hok := h.event t x he hx
  have hcall : s.call (.thread t) ≠ none → x.body = .inEntry := by
    intro hcall
    obtain ⟨k, hk⟩ := Option.ne_none_iff_exists'.mp hcall
    obtain ⟨-, -, hentry⟩ := (hi.calls _ k hk).own t rfl
    simpa [hx] using hentry
  -- the thread is not in a call, so that it has not been stopped
  have hrunning : s.call (.thread t) = none → y.done = false := by
    intro hnone
    rw [hdone]
    by_contra hd
    rcases hok.done (by simpa using hd) with hended | ⟨k, rest, hk, -⟩
    · exact hne hended
    · exact absurd (hnone.symm.trans hk) (by simp)
  cases b with
  | enter =>
    simp only [body, Option.ite_none_right_eq_some, Option.some.injEq] at hstep
    obtain ⟨hloop, rfl⟩ := hstep
    have hnone : s.call (.thread t) = none := by
      by_contra hsome
      simp [hloop] at hcall
      exact hsome hcall
    exact ⟨fun hb => absurd hb (by simp),
      fun hd => absurd ((hrunning hnone).symm.trans hd) (by simp),
      fun ret hb => absurd hb (by simp)⟩
  | leave ret =>
    simp only [body, Option.ite_none_right_eq_some, Option.some.injEq] at hstep
    obtain ⟨⟨-, hcalling⟩, rfl⟩ := hstep
    have hnone : s.call (.thread t) = none := by simpa using hcalling
    refine ⟨fun hb => absurd hb (by simp),
      fun hd => absurd ((hrunning hnone).symm.trans hd) (by simp), ?_⟩
    rintro ret' ⟨⟩
    exact hg he
  | wait =>
    simp only [body, Option.ite_none_right_eq_some, Option.some.injEq] at hstep
    obtain ⟨⟨-, hcalling⟩, rfl⟩ := hstep
    have hnone : s.call (.thread t) = none := by simpa using hcalling
    exact ⟨fun hb => absurd hb (by simp),
      fun hd => absurd ((hrunning hnone).symm.trans hd) (by simp),
      fun ret hb => absurd hb (by simp)⟩
  | connected =>
    simp only [body, Option.ite_none_right_eq_some, Option.some.injEq] at hstep
    obtain ⟨hwaiting, rfl⟩ := hstep
    have hnone : s.call (.thread t) = none := by
      by_contra hsome
      exact absurd (hwaiting.symm.trans (hcall hsome)) (by simp)
    exact ⟨fun hb => absurd hb (by simp),
      fun hd => absurd ((hrunning hnone).symm.trans hd) (by simp),
      fun ret hb => absurd hb (by simp)⟩
  | throw => exact absurd he hg
  | check =>
    cases hb : x.body with
    | returned ret =>
      simp only [body, hb, Option.some.injEq] at hstep
      have hnone : s.call (.thread t) = none := by
        by_contra hsome
        exact absurd (hb.symm.trans (hcall hsome)) (by simp)
      have hret : ret ≠ -1 := hok.returned ret hb
      have hd : x.done = false := hdone ▸ hrunning hnone
      simp only [hd, hret, Bool.false_eq_true, or_self, if_false] at hstep
      subst hstep
      exact ⟨fun hb => absurd hb (by simp), fun hd' => absurd hd' (by simp),
        fun ret hb => absurd hb (by simp)⟩
    | loop => simp [body, hb] at hstep
    | inEntry => simp [body, hb] at hstep
    | waiting => simp [body, hb] at hstep
    | ended => simp [body, hb] at hstep

theorem eventInv_init : EventInv worker_num msg init where
  kinds := by simp [init]
  headed := by simp [Headed, init]
  app := by simp [init]
  calls := by simp [init]
  event := by simp [init]
  returns := by simp [init]

/-- **Every such step keeps the invariant.** -/
theorem eventInv_step (h : EventInv worker_num msg s) (hi : Inv worker_num msg s) {op : ThreadsOp}
    (hg : s.EventOnly op) (hstep : step worker_num msg s op = some s') :
    EventInv worker_num msg s' := by
  cases op with
  | call c f =>
    simp only [step, Option.ite_none_right_eq_some, Option.some.injEq] at hstep
    obtain ⟨hmay, rfl⟩ := hstep
    exact eventInv_call h hi hmay hg
  | exec c =>
    cases hk : s.call c with
    | none => simp [step, hk] at hstep
    | some k =>
      cases ha : k.rest with
      | nil =>
        simp only [step, hk, ha, Option.some.injEq] at hstep
        exact hstep ▸ eventInv_return h hi hk ha
      | cons a rest =>
        simp only [step, hk, ha] at hstep
        exact eventInv_statement h hi hk ha hstep
  | body t b =>
    cases hx : s.thread t with
    | none => simp [step, hx] at hstep
    | some x =>
      simp only [step, hx, Option.map_eq_some_iff] at hstep
      obtain ⟨y, hbody, rfl⟩ := hstep
      exact eventInv_body h hi hx hg hbody

/-- The event thread was joined, and it had ended with all others. -/
theorem EventInv.wait (h : EventInv worker_num msg s) (hi : Inv worker_num msg s)
    {r : FunctionReturn} (hr : r ∈ s.returns) (hfun : r.function = .wait) {t : ServiceThread}
    (ht : t ∈ r.started) : s.Down t := by
  obtain ⟨-, hsub, hdown⟩ := hi.returned r hr (by simp [hfun])
  have hwait : ∀ u ∈ r.started, u ∈ [ServiceThread.eq, .rdm] → s.Down u := fun u hu hmem =>
    hdown u hu (hfun ▸ hmem)
  cases t with
  | cq i =>
    have heq : .eq ∈ r.started := h.returns r hr i ht
    obtain ⟨x, hx, hended, -⟩ := hwait .eq heq (by simp)
    exact ((h.event .eq x (fun i => by simp) hx).ended hended).2 _ (hsub ht) (by simp)
  | eq => exact hwait .eq ht (by simp)
  | rdm => exact hwait .rdm ht (by simp)

/-- **What the return of `wait()` means** to a client whose callback calls `shutdown()` on the
event thread: all threads that were started have ended and are joined, so that the service may be
deleted. -/
theorem wait_returned (worker_num : ℕ) (msg : Bool) (ops : List ThreadsOp)
    (h : Meets (step worker_num msg) EventOnly init ops) :
    Always (step worker_num msg)
      (fun s => ∀ r ∈ s.returns, r.function = .wait → ∀ t ∈ r.started, s.Down t) init ops := by
  have keep : ∀ s op s', Inv worker_num msg s ∧ EventInv worker_num msg s → s.EventOnly op →
      step worker_num msg s op = some s' → Inv worker_num msg s' ∧ EventInv worker_num msg s' :=
    fun _ _ _ h hg hstep =>
      ⟨inv_step h.1 (afterStart_of_eventOnly hg) hstep, eventInv_step h.2 h.1 hg hstep⟩
  refine (always_of_meets keep ⟨inv_init, eventInv_init⟩ h).mono ?_
  rintro s ⟨hi, he⟩ r hr hfun t ht
  exact he.wait hi hr hfun ht

/-- The client of the examples, from `start()` to the return of `wait()`. -/
def pingPong : List ThreadsOp :=
  startOne ++ [.call .app .wait, .body .eq .enter, .call (.thread .eq) .shutdown,
    .body (.cq 0) .enter, .exec .app, .exec (.thread .eq), .exec (.thread .eq),
    .exec (.thread .eq), .exec .app, .body (.cq 0) (.leave 0), .body (.cq 0) .check,
    .exec (.thread .eq), .exec (.thread .eq), .exec (.thread .eq), .exec (.thread .eq),
    .exec .app, .exec .app, .exec .app]

/-- Its `wait()` returns. -/
theorem wait_returned_pingPong :
    (run (step 1 true) init pingPong).map (fun s => s.returns.map (·.function)) =
        some [.wait, .start] ∧
      Always (step 1 true)
        (fun s => ∀ r ∈ s.returns, r.function = .wait → ∀ t ∈ r.started, s.Down t) init pingPong :=
  ⟨by decide +kernel, wait_returned 1 true pingPong (by decide +kernel)⟩

end ServiceThreads

end Hpnl
