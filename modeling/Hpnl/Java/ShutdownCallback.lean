import Hpnl.Java.CloseCalls

/-!
# The shutdown callback

`Connection.shutdown()` calls the callback once it has closed the connection and notes that
the connection is closed only when the callback has returned.  The SHUTDOWN event closes a
connection without either, and so does `~MsgStack` when the event thread has ended.

* `NotifiedOnce` — no callback is called twice, and that of a connection that has ended has
  been called, or a thread is about to call it.
* `AskedFirst` — a connection is not ended before `shutdown()` has been called on it, and its
  callback is not called from within itself or after it has thrown.
* `notified_once_iff` — **the callback is called exactly once when a connection ends exactly
  when** this is so of every step.
-/

namespace Hpnl

open Transition

namespace JavaCloses

variable {j j' : JavaCloses}

/-- The callback of an established connection is called at most once, and when the connection
has ended and no thread is still in its `shutdown()`, it has been called. -/
def NotifiedOnce (j : JavaCloses) : Prop :=
  ∀ c ∈ j.established, c ∈ j.callback →
    j.calls c ≤ 1 ∧ (c ∈ j.ended → ¬ j.ShuttingDown c → j.calls c = 1)

/-- `closeConnection` ends a connection with a callback only after `shutdown()` has been
called on it; and the callback is not called while it runs, or when it has thrown. -/
def AskedFirst (j : JavaCloses) : CloseOp → Prop
  | .advance t =>
      match j.frames t with
      | .close _ (.delCon d) :: _ => d ∈ j.callback → d ∈ j.asked
      | .callback c :: rest => c ∈ j.callback → c ∉ j.threw ∧ .handle c ∉ rest
      | _ => True
  | _ => True

/-- What holds when all steps have been `AskedFirst`. -/
structure OnceInv (j : JavaCloses) : Prop extends j.Inv where
  established_ended : ∀ c ∈ j.ended, c ∈ j.established
  asked_ended : ∀ c ∈ j.ended, c ∈ j.callback → c ∈ j.asked
  once : ∀ c, j.calls c ≤ 1

/-- When the callback of a connection is about to be called, and neither runs beneath nor has
thrown, it has not been called. -/
theorem uncalled (h : j.Inv) {t : Thread} {rest : List CloseFrame} {c : ConnectionId}
    (hf : j.frames t = .callback c :: rest) (hthrew : c ∉ j.threw) (hrest : .handle c ∉ rest) :
    j.calls c = 0 := by
  have htop := frameOk_top h hf
  by_contra hne
  have hcon := htop.connected c rfl (by simp)
  obtain hthr | ⟨u, hu⟩ := h.running c hcon (Nat.one_le_iff_ne_zero.mpr hne)
  · exact hthrew hthr
  · -- it would run on this thread
    have hut : u = t :=
      Option.some.inj (((h.frames u _ hu).monitor c rfl).symm.trans (htop.monitor c rfl))
    subst hut
    rw [hf] at hu
    rcases List.mem_cons.mp hu with heq | hin
    · cases heq
    · exact hrest hin

/-- A callback that runs beneath its own call, or has thrown, has been called. -/
theorem called_before (h : j.Inv) {t : Thread} {rest : List CloseFrame} {c : ConnectionId}
    (hf : j.frames t = .callback c :: rest) (hbad : ¬ (c ∉ j.threw ∧ .handle c ∉ rest)) :
    1 ≤ j.calls c := by
  by_cases hthrew : c ∈ j.threw
  · exact h.threw c hthrew
  · have hrest : .handle c ∈ rest := by
      by_contra hin
      exact hbad ⟨hthrew, hin⟩
    exact (frameOk_rest h hf hrest).handle c rfl

theorem notifiedOnce_of_onceInv (h : j.OnceInv) : j.NotifiedOnce := by
  intro c _ hcallback
  refine ⟨h.once c, fun hended hnot => ?_⟩
  obtain hin | hpos := h.due c (h.asked_ended c hended hcallback) hcallback
  · exact absurd hin hnot
  · exact le_antisymm (h.once c) hpos

/-- The connections that are deleted with the stack have been asked to end. -/
theorem onceInv_deleteAll (h : j.OnceInv) {gone : Finset ConnectionId}
    (hgone : gone ⊆ j.established) (hasked : ∀ c ∈ gone, c ∈ j.callback → c ∈ j.asked) :
    (j.deleteAll gone).OnceInv := by
  refine ⟨inv_recorded h.toInv (j.ended ∪ gone) fun _ _ hd => hd, fun c hc => ?_,
    fun c hc hcallback => ?_, h.once⟩
  · rcases Finset.mem_union.mp hc with hc | hc
    · exact h.established_ended c hc
    · exact hgone hc
  · rcases Finset.mem_union.mp hc with hc | hc
    · exact h.asked_ended c hc hcallback
    · exact hasked c hc hcallback

theorem onceInv_move {op : CloseOp} (h : j.OnceInv) (hop : op ≠ .loop)
    (hasked : j.AskedFirst op) (hmove : JavaMove j op j') : j'.OnceInv := by
  have hinv := inv_move h.toInv hmove
  cases hmove with
  | still _ => exact h
  | @establish a d registered hnew hidle =>
    refine ⟨hinv, fun c hc => Finset.mem_insert_of_mem (h.established_ended c hc),
      fun c hc hcallback => ?_, h.once⟩
    refine h.asked_ended c hc ?_
    have hne : c ≠ d := fun heq => hnew (heq ▸ h.established_ended c hc)
    cases registered with
    | false => exact hcallback
    | true => exact (Finset.mem_insert.mp hcallback).resolve_left hne
  | event _ => exact ⟨hinv, h.established_ended, h.asked_ended, h.once⟩
  | enter _ _ _ _ =>
    exact ⟨hinv, h.established_ended,
      fun c hc hcallback => Finset.mem_insert_of_mem (h.asked_ended c hc hcallback), h.once⟩
  | goOn _ _ _ => exact ⟨hinv, h.established_ended, h.asked_ended, h.once⟩
  | absent _ => exact ⟨hinv, h.established_ended, h.asked_ended, h.once⟩
  | @delCon t rest who d hf =>
    have hd : d ∈ j.callback → d ∈ j.asked := by
      simpa only [AskedFirst, hf] using hasked
    refine ⟨hinv, fun c hc => ?_, fun c hc hcallback => ?_, h.once⟩
    · obtain rfl | hc := Finset.mem_insert.mp hc
      · exact (frameOk_top h.toInv hf).delCon who c rfl
      · exact h.established_ended c hc
    · obtain rfl | hc := Finset.mem_insert.mp hc
      · exact hd hcallback
      · exact h.asked_ended c hc hcallback
  | remove _ => exact ⟨hinv, h.established_ended, h.asked_ended, h.once⟩
  | @call t rest c hf hc =>
    have hfirst : c ∈ j.callback → c ∉ j.threw ∧ .handle c ∉ rest := by
      simpa only [AskedFirst, hf] using hasked
    have hzero := uncalled h.toInv hf (hfirst hc).1 (hfirst hc).2
    refine ⟨hinv, h.established_ended, h.asked_ended, fun d => ?_⟩
    show Function.update j.calls c (j.calls c + 1) d ≤ 1
    by_cases hd : d = c
    · subst hd
      rw [Function.update_self, hzero]
    · rw [Function.update_of_ne hd]
      exact h.once d
  | unset _ _ => exact ⟨hinv, h.established_ended, h.asked_ended, h.once⟩
  | finish _ => exact ⟨hinv, h.established_ended, h.asked_ended, h.once⟩
  | returns _ => exact ⟨hinv, h.established_ended, h.asked_ended, h.once⟩
  | begins _ => exact ⟨hinv, h.established_ended, h.asked_ended, h.once⟩
  | service _ => exact ⟨hinv, h.established_ended, h.asked_ended, h.once⟩
  | serviceEnds _ => exact ⟨hinv, h.established_ended, h.asked_ended, h.once⟩
  | frees _ => exact absurd rfl hop
  | throws _ => exact ⟨hinv, h.established_ended, h.asked_ended, h.once⟩

/-- A connection that `shutdown()` has not been called on has ended without its callback. -/
theorem asked_of_notifiedOnce (h : j.Inv) (hright : j.NotifiedOnce) {d : ConnectionId}
    (hest : d ∈ j.established) (hcallback : d ∈ j.callback) (hended : d ∈ j.ended) :
    d ∈ j.asked := by
  by_contra hasked
  have hnot : ¬ j.ShuttingDown d := by
    rintro ⟨u, f, hu, hfd⟩
    exact hasked ((h.frames u f hu).asked d hfd)
  have hone := (hright d hest hcallback).2 hended hnot
  exact hasked (h.called d hone.ge)

/-- A callback that has been called is called again. -/
theorem first_of_notifiedOnce (h : j.Inv) {t : Thread} {rest : List CloseFrame}
    {c : ConnectionId} (hf : j.frames t = .callback c :: rest) (hcallback : c ∈ j.callback)
    (hright : (j.call t rest c).NotifiedOnce) : c ∉ j.threw ∧ .handle c ∉ rest := by
  by_contra hbad
  have hest := h.asked c ((frameOk_top h hf).asked c rfl)
  have hle := (hright c hest hcallback).1
  have hcalls : (j.call t rest c).calls c = j.calls c + 1 := Function.update_self ..
  have hpos := called_before h hf hbad
  omega

end JavaCloses

namespace CloseWorld

variable {w w' : CloseWorld}

/-- No connection ends before `shutdown()` has been called on it, not with the service
either; and no callback is called a second time. -/
def AskedFirst (w : CloseWorld) : CloseOp → Prop
  | .loop => w.LoopEnds → ∀ c ∈ w.held, c ∈ w.established → c ∈ w.callback → c ∈ w.asked
  | op => w.toJavaCloses.AskedFirst op

theorem askedFirst_of_ne {op : CloseOp} (hop : op ≠ .loop) :
    w.AskedFirst op = w.toJavaCloses.AskedFirst op := by
  cases op with
  | loop => exact absurd rfl hop
  | setShutdownCallback | make | register | connectedEvent | shutdownEvent | shutdown | advance
  | throw | free | shutdownService | noEvent | pendingReap => rfl

theorem onceInv_step {op : CloseOp} (h : w.OnceInv) (hasked : w.AskedFirst op)
    (hstep : w.step op = some w') : w'.OnceInv := by
  by_cases hop : op = .loop
  · subst hop
    obtain ⟨hends, rfl⟩ | ⟨-, l, rfl⟩ := loop_cases hstep
    · refine JavaCloses.onceInv_deleteAll h Finset.inter_subset_right fun c hc => ?_
      obtain ⟨hheld, hest⟩ := Finset.mem_inter.mp hc
      exact hasked hends c hheld hest
    · exact h
  · exact JavaCloses.onceInv_move h hop (askedFirst_of_ne hop ▸ hasked) (step_move hstep)

theorem askedFirst_of_notifiedOnce {op : CloseOp} (h : w.toJavaCloses.Inv)
    (hstep : w.step op = some w') (hright : w'.NotifiedOnce) : w.AskedFirst op := by
  have hinv := inv_step h hstep
  cases op with
  | advance t =>
    unfold AskedFirst JavaCloses.AskedFirst
    simp only
    replace hstep : w.advance t = some w' := hstep
    split
    · rename_i who d rest hf
      intro hcallback
      have hest := (JavaCloses.frameOk_top h hf).delCon who d rfl
      simp only [advance, hf, CloseStage.native, Bool.false_eq_true, and_false, if_false,
        advanceClose, Option.some.injEq] at hstep
      subst hstep
      exact JavaCloses.asked_of_notifiedOnce hinv hright hest hcallback
        (Finset.mem_insert_self d _)
    · rename_i c rest hf
      intro hcallback
      simp only [advance, hf, if_pos hcallback, Option.some.injEq] at hstep
      subst hstep
      exact JavaCloses.first_of_notifiedOnce h hf hcallback hright
    · trivial
  | loop =>
    intro hends c hheld hest hcallback
    obtain ⟨-, rfl⟩ | ⟨hgoes, -⟩ := loop_cases hstep
    · exact JavaCloses.asked_of_notifiedOnce hinv hright hest hcallback
        (Finset.mem_union_right _ (Finset.mem_inter.mpr ⟨hheld, hest⟩))
    · exact absurd hends hgoes
  | setShutdownCallback | make | register | connectedEvent | shutdownEvent | shutdown | throw
  | free | shutdownService | noEvent | pendingReap => trivial

theorem onceInv_init (is_server : Bool) : (init is_server).OnceInv where
  toInv := inv_init is_server
  established_ended _ hc := absurd hc (Finset.notMem_empty _)
  asked_ended _ hc := absurd hc (Finset.notMem_empty _)
  once _ := Nat.zero_le 1

-- a connection that is established when `EqService.shutdown()` has gone through the map
-- already is deleted by `~MsgStack`
example : (run step (init false) ([.setShutdownCallback true, .make 0 8, .register 0, .loop,
    .shutdownService (.app 0)] ++ List.replicate 2 (.advance (.app 0)) ++
    [.connectedEvent 8, .advance .eq, .loop, .loop])).map (fun w => (w.ended, w.calls 0)) =
    some ({0}, 0) := by
  decide +kernel

/-- A connection of the client is established, and its peer shuts it down. -/
def peerRun : List CloseOp :=
  [.setShutdownCallback true, .make 0 8, .register 0, .loop, .connectedEvent 8, .advance .eq,
    .loop, .loop, .shutdownEvent 8] ++ List.replicate 6 (.advance .eq)

end CloseWorld

end Hpnl
