import Hpnl.Java.CloseCalls

/-!
# `shutdown()` of a connection that has been freed

The SHUTDOWN event closes a connection, and has it freed, without a word to the Java object,
so that `shutdown()` may still be called on it.  The call goes by the address of the event
queue, which may be that of another connection by then.

* `KeepsOthers`, `LeavesOthers` — a step of such a call takes nothing from the other
  connections.
* `NotReused` — the address of the event queue is in use by no other connection when the call
  begins, and is not given to one before the call has closed the connection.
* `others_kept` — **in a run that never reuses the address, `shutdown()` of a connection that
  has been freed leaves all other connections untouched**.
-/

namespace Hpnl

open Transition

/-- The connection that a stage of a close has found. -/
def CloseStage.con : CloseStage → Option ConnectionId
  | .check d | .endpoint d | .down d | .delCon d => some d
  | .find | .reap | .deleteEvent | .get | .remove => none

/-- The connection whose `shutdown()` was called after it had been freed, while the call
closes it. -/
def CloseFrame.stale : CloseFrame → Option ConnectionId
  | .close (.shutdown c true) _ => some c
  | .close (.shutdown _ false) _ | .close (.event _) _ | .callback _ | .handle _
  | .connectedCallback _ | .service _ => none

namespace CloseWorld

/-- No other connection is known by the address of its event queue. -/
def Sole (w : CloseWorld) (c : ConnectionId) : Prop :=
  w.native.OnlyAt (w.eq c) c ∧ w.fid_map.OnlyAt (w.eq c) c ∧ w.conMap.OnlyAt (w.eq c) c

instance (w : CloseWorld) (c : ConnectionId) : Decidable (w.Sole c) :=
  inferInstanceAs (Decidable (_ ∧ _ ∧ _))

/-- The thread that has the monitor of the connection is closing it, from a call that was made
after it had been freed. -/
def StaleCall (w : CloseWorld) (c : ConnectionId) : Prop :=
  ∃ t ∈ w.monitor c, ∃ f ∈ w.frames t, f.stale = some c

instance (w : CloseWorld) (c : ConnectionId) : Decidable (w.StaleCall c) :=
  inferInstanceAs (Decidable (∃ t ∈ w.monitor c, ∃ f ∈ w.frames t, f.stale = some c))

/-- When `shutdown()` is called on a connection that has been freed, no other connection uses
the address of its event queue, and none gets it before the connection is closed. -/
def NotReused (w : CloseWorld) : CloseOp → Prop
  | .make _ a => ∀ c ∈ w.freed, w.StaleCall c → w.eq c ≠ a
  | .register d => ∀ c ∈ w.freed, w.StaleCall c → w.eq c = w.eq d → d = c
  | .shutdown _ c | .pendingReap c => c ∈ w.connected → c ∈ w.freed → w.Sole c
  | _ => True

instance (w : CloseWorld) : DecidablePred w.NotReused
  | .make .. | .register _ | .shutdown .. | .pendingReap _ => by
    unfold NotReused
    infer_instance
  | .setShutdownCallback _ | .connectedEvent _ | .shutdownEvent _ | .advance _ | .throw _
  | .free _ | .shutdownService _ | .loop | .noEvent _ => isTrue trivial

/-- Nothing is taken from a connection other than this one. -/
structure KeepsOthers (c : ConnectionId) (w w' : CloseWorld) : Prop where
  native : ∀ d a, d ≠ c → w.native.find? a = some d → w'.native.find? a = some d
  fid_map : ∀ d a, d ≠ c → w.fid_map.find? a = some d → w'.fid_map.find? a = some d
  conMap : ∀ d a, d ≠ c → w.conMap.find? a = some d → w'.conMap.find? a = some d
  shut : ∀ d, d ≠ c → d ∈ w'.shut → d ∈ w.shut
  status : ∀ d, d ≠ c → w'.status d = w.status d
  ended : ∀ d, d ≠ c → d ∈ w'.ended → d ∈ w.ended

/-- A step of `shutdown()` of a connection that had been freed at the call keeps the others. -/
def LeavesOthers (w : CloseWorld) (op : CloseOp) : Prop :=
  ∀ t f rest c, op = .advance t → w.frames t = f :: rest → f.con = some c →
    (∀ k, f ≠ .close (.shutdown c false) k) → ∀ w', w.step op = some w' → KeepsOthers c w w'

variable {w w' : CloseWorld}

/-! ## The invariant -/

/-- What holds of a stage of a close that began when the connection had been freed. -/
structure CallOk (w : CloseWorld) (c : ConnectionId) (k : CloseStage) : Prop where
  freed : c ∈ w.freed
  sole : w.Sole c
  con : ∀ d, k.con = some d → d = c

/-- While a connection that has been freed is closed, no other has the address. -/
structure StaleInv (w : CloseWorld) : Prop extends w.toJavaCloses.Inv where
  native : ∀ a d, w.native.find? a = some d → d ∈ w.created
  created : ∀ c ∈ w.established, c ∈ w.created
  calls : ∀ t c k, .close (.shutdown c true) k ∈ w.frames t → w.CallOk c k

theorem staleInv_init (is_server : Bool) : (init is_server).StaleInv where
  toInv := inv_init is_server
  native a d hd := by simp [init] at hd
  created _ hc := absurd hc (Finset.notMem_empty _)
  calls _ _ _ hf := by cases hf

/-- A step after which the registries have nothing new. -/
theorem StaleInv.mono (h : w.StaleInv) (hinv : w'.toJavaCloses.Inv)
    (hcreated : w'.created = w.created) (heq : w'.eq = w.eq) (hfreed : w.freed ⊆ w'.freed)
    (hest : w'.established = w.established)
    (hnative : ∀ a d, w'.native.find? a = some d → w.native.find? a = some d)
    (hfid : ∀ a d, w'.fid_map.find? a = some d → w.fid_map.find? a = some d)
    (hcon : ∀ a d, w'.conMap.find? a = some d → w.conMap.find? a = some d)
    (hcalls : ∀ t c k, .close (.shutdown c true) k ∈ w'.frames t → w.CallOk c k) :
    w'.StaleInv where
  toInv := hinv
  native a d hd := hcreated ▸ h.native a d (hnative a d hd)
  created c hc := hcreated ▸ h.created c (hest ▸ hc)
  calls t c k hf := by
    obtain ⟨hin, ⟨hn, hm, hj⟩, hk⟩ := hcalls t c k hf
    refine ⟨hfreed hin, ?_, hk⟩
    unfold Sole
    rw [heq]
    exact ⟨hn.mono (hnative _), hm.mono (hfid _), hj.mono (hcon _)⟩

/-- A step that leaves the registries alone. -/
theorem StaleInv.congr (h : w.StaleInv) (hinv : w'.toJavaCloses.Inv)
    (hcons : w'.created = w.created ∧ w'.eq = w.eq ∧ w'.established = w.established)
    (hfreed : w'.freed = w.freed)
    (hregs : w'.native = w.native ∧ w'.fid_map = w.fid_map ∧ w'.conMap = w.conMap)
    (hcalls : ∀ t c k, .close (.shutdown c true) k ∈ w'.frames t → w.CallOk c k) :
    w'.StaleInv := by
  obtain ⟨hcreated, heq, hest⟩ := hcons
  obtain ⟨hnative, hfid, hcon⟩ := hregs
  exact h.mono hinv hcreated heq hfreed.ge hest (fun _ _ hd => hnative ▸ hd)
    (fun _ _ hd => hfid ▸ hd) (fun _ _ hd => hcon ▸ hd) hcalls

/-- A thread goes on, with frames whose calls are in order. -/
theorem calls_setFrames (h : w.StaleInv) (t : Thread) {fs : List CloseFrame}
    (hfs : ∀ c k, .close (.shutdown c true) k ∈ fs → w.CallOk c k) :
    ∀ u c k, .close (.shutdown c true) k ∈ (w.setFrames t fs).frames u → w.CallOk c k := by
  intro u c k hf
  obtain ⟨-, hnew⟩ | ⟨-, hold⟩ := JavaCloses.mem_setFrames hf
  · exact hfs c k hnew
  · exact h.calls u c k hold

theorem calls_rest (h : w.StaleInv) {t : Thread} {f : CloseFrame} {rest : List CloseFrame}
    (hf : w.frames t = f :: rest) :
    ∀ c k, .close (.shutdown c true) k ∈ rest → w.CallOk c k :=
  fun c k hin => h.calls t c k (hf ▸ List.mem_cons_of_mem f hin)

/-- A close goes on to a stage that concerns the same connection. -/
theorem calls_goOn (h : w.StaleInv) {t : Thread} {rest : List CloseFrame} {who : CloseCaller}
    {k next : CloseStage} (hf : w.frames t = .close who k :: rest)
    (hnext : ∀ c d, who = .shutdown c true → w.CallOk c k → next.con = some d → d = c) :
    ∀ u c k, .close (.shutdown c true) k ∈ (w.setFrames t (.close who next :: rest)).frames u →
      w.CallOk c k := by
  refine calls_setFrames h t fun c k' hin => ?_
  rcases List.mem_cons.mp hin with heq | hin
  · cases heq
    have hok := h.calls t c k (hf ▸ List.mem_cons_self)
    exact ⟨hok.freed, hok.sole, fun d hd => hnext c d rfl hok hd⟩
  · exact calls_rest h hf c k' hin

theorem calls_after (h : w.StaleInv) {t : Thread} {rest : List CloseFrame} {who : CloseCaller}
    {k : CloseStage} (hf : w.frames t = .close who k :: rest) :
    ∀ u c k, .close (.shutdown c true) k ∈ (w.setFrames t (who.rest ++ rest)).frames u →
      w.CallOk c k := by
  refine calls_setFrames h t fun c k' hin => ?_
  rcases List.mem_append.mp hin with hin | hin
  · cases who with
    | shutdown d stale => cases List.mem_singleton.mp hin
    | event a => cases hin
  · exact calls_rest h hf c k' hin

/-! ## One step of a close -/

/-- What a close of the event queue `a` may change, with the connection `p` in hand. -/
structure ClosesAt (a : Addr) (p : Option ConnectionId) (w w' : CloseWorld) : Prop where
  created : w'.created = w.created
  eq : w'.eq = w.eq
  freed : w'.freed = w.freed
  established : w'.established = w.established
  native : w'.native = w.native ∨ w'.native = w.native.remove a
  fid_map : w'.fid_map = w.fid_map ∨ w'.fid_map = w.fid_map.remove a
  conMap : w'.conMap = w.conMap ∨ w'.conMap = w.conMap.remove a
  shut : w'.shut = w.shut ∨ ∃ d, p = some d ∧ w'.shut = insert d w.shut
  status : w'.status = w.status ∨
    ∃ d, p = some d ∧ w'.status = Function.update w.status d .down
  ended : w'.ended = w.ended ∨ ∃ d, p = some d ∧ w'.ended = insert d w.ended

/-- A step that leaves all of it alone. -/
theorem closesAt_frames (a : Addr) (p : Option ConnectionId) (w : CloseWorld) (t : Thread)
    (fs : List CloseFrame) : ClosesAt a p w { w with toJavaCloses := w.setFrames t fs } :=
  ⟨rfl, rfl, rfl, rfl, Or.inl rfl, Or.inl rfl, Or.inl rfl, Or.inl rfl, Or.inl rfl, Or.inl rfl⟩

theorem advanceClose_closesAt {t : Thread} {rest : List CloseFrame} {who : CloseCaller}
    {k : CloseStage} (h : w.advanceClose t rest who k = some w') :
    ClosesAt (w.address who) k.con w w' := by
  cases k with
  | find =>
    simp only [advanceClose] at h
    split at h
    · cases h
      exact closesAt_frames ..
    · cases h
      exact closesAt_frames ..
  | check d =>
    cases h
    exact closesAt_frames ..
  | endpoint d =>
    cases h
    exact { closesAt_frames (w.address who) (some d) w t [] with shut := Or.inr ⟨d, rfl, rfl⟩ }
  | down d =>
    cases h
    exact { closesAt_frames (w.address who) (some d) w t [] with status := Or.inr ⟨d, rfl, rfl⟩ }
  | reap =>
    simp only [advanceClose] at h
    split at h
    · cases h
      exact { closesAt_frames (w.address who) none w t [] with native := Or.inr rfl }
    · cases h
  | deleteEvent =>
    cases h
    exact { closesAt_frames (w.address who) none w t [] with fid_map := Or.inr rfl }
  | get =>
    simp only [advanceClose] at h
    split at h
    · cases h
      exact closesAt_frames ..
    · cases h
      exact closesAt_frames ..
  | delCon d =>
    cases h
    exact { closesAt_frames (w.address who) (some d) w t [] with ended := Or.inr ⟨d, rfl, rfl⟩ }
  | remove =>
    cases h
    exact { closesAt_frames (w.address who) none w t [] with conMap := Or.inr rfl }

/-- A registry after a close has nothing that it did not have. -/
theorem find?_of_closed {m m' : StdMap Addr ConnectionId} {a b : Addr} {d : ConnectionId}
    (h : m' = m ∨ m' = m.remove a) (hd : m'.find? b = some d) : m.find? b = some d := by
  obtain rfl | rfl := h
  · exact hd
  · exact (StdMap.find?_remove_eq_some.mp hd).2

/-- It has lost nothing but the connection that the address belonged to. -/
theorem find?_closed {m m' : StdMap Addr ConnectionId} {a b : Addr} {c d : ConnectionId}
    (h : m' = m ∨ m' = m.remove a) (honly : m.OnlyAt a c) (hne : d ≠ c)
    (hd : m.find? b = some d) : m'.find? b = some d := by
  obtain rfl | rfl := h
  · exact hd
  · exact honly.find?_remove hne hd

/-- A set after a close has at most the connection in hand besides. -/
theorem mem_of_closed {s s' : Finset ConnectionId} {p : Option ConnectionId} {c d : ConnectionId}
    (h : s' = s ∨ ∃ e, p = some e ∧ s' = insert e s) (hp : ∀ e, p = some e → e = c) (hne : d ≠ c)
    (hd : d ∈ s') : d ∈ s := by
  obtain rfl | ⟨e, he, rfl⟩ := h
  · exact hd
  · obtain rfl | hd := Finset.mem_insert.mp hd
    · exact absurd (hp d he) hne
    · exact hd

/-- **One step of a close leaves the other connections alone** when the address belongs to
none of them, and the connection in hand is none of them. -/
theorem keepsOthers_of_closesAt {c : ConnectionId} {p : Option ConnectionId}
    (h : ClosesAt (w.eq c) p w w') (hsole : w.Sole c) (hp : ∀ d, p = some d → d = c) :
    KeepsOthers c w w' where
  native _ _ hne hd := find?_closed h.native hsole.1 hne hd
  fid_map _ _ hne hd := find?_closed h.fid_map hsole.2.1 hne hd
  conMap _ _ hne hd := find?_closed h.conMap hsole.2.2 hne hd
  shut _ hne hd := mem_of_closed h.shut hp hne hd
  status d hne := by
    obtain heq | ⟨e, he, heq⟩ := h.status
    · rw [heq]
    · rw [heq, Function.update_of_ne]
      rintro rfl
      exact hne (hp d he)
  ended _ hne hd := mem_of_closed h.ended hp hne hd

/-- A step of the callback. -/
theorem keepsOthers_of_eq {c : ConnectionId} {j : JavaCloses} (hconMap : j.conMap = w.conMap)
    (hended : j.ended = w.ended) : KeepsOthers c w { w with toJavaCloses := j } where
  native _ _ _ hd := hd
  fid_map _ _ _ hd := hd
  conMap _ _ _ hd := hconMap ▸ hd
  shut _ _ hd := hd
  status _ _ := rfl
  ended _ _ hd := hended ▸ hd

theorem leavesOthers_of_staleInv {op : CloseOp} (h : w.StaleInv) : w.LeavesOthers op := by
  rintro t f rest c rfl hf hcon hstale w' hstep
  replace hstep : w.advance t = some w' := hstep
  unfold advance at hstep
  cases f with
  | close who k =>
    cases who with
    | shutdown d stale =>
      cases hcon
      cases stale with
      | false => exact absurd rfl (hstale k)
      | true =>
        have hok := h.calls t c k (hf ▸ List.mem_cons_self)
        simp only [hf] at hstep
        have hclose := (Option.ite_none_left_eq_some.mp hstep).2
        exact keepsOthers_of_closesAt (advanceClose_closesAt hclose) hok.sole hok.con
    | event a => cases hcon
  | callback d =>
    simp only [hf] at hstep
    split at hstep
    · cases hstep
      exact keepsOthers_of_eq rfl rfl
    · cases hstep
      exact keepsOthers_of_eq rfl rfl
  | handle d =>
    simp only [hf] at hstep
    cases hstep
    exact keepsOthers_of_eq rfl rfl
  | connectedCallback d => cases hcon
  | service k => cases hcon

/-! ## The invariant is kept -/

theorem advanceClose_calls (h : w.StaleInv) {t : Thread} {rest : List CloseFrame}
    {who : CloseCaller} {k : CloseStage} (hf : w.frames t = .close who k :: rest)
    (hstep : w.advanceClose t rest who k = some w') :
    ∀ u c k, .close (.shutdown c true) k ∈ w'.frames u → w.CallOk c k := by
  cases k with
  | find =>
    simp only [advanceClose] at hstep
    split at hstep
    · rename_i e he
      cases hstep
      refine calls_goOn h hf fun c d hwho hok hd => ?_
      subst hwho
      cases hd
      exact hok.sole.1 e he
    · cases hstep
      refine calls_goOn h hf fun c d hwho _ hd => ?_
      subst hwho
      cases hd
  | check e =>
    cases hstep
    refine calls_goOn h hf fun c d hwho hok hd => ?_
    subst hwho
    split at hd
    · cases hd
      exact hok.con e rfl
    · cases hd
  | endpoint e =>
    cases hstep
    refine calls_goOn h hf fun c d _ hok hd => ?_
    cases hd
    exact hok.con e rfl
  | down e =>
    cases hstep
    exact calls_goOn h hf fun c d _ _ hd => by cases hd
  | reap =>
    simp only [advanceClose] at hstep
    split at hstep
    · cases hstep
      refine calls_goOn h hf fun c d hwho _ hd => ?_
      subst hwho
      cases hd
    · cases hstep
  | deleteEvent =>
    cases hstep
    exact calls_goOn h hf fun c d _ _ hd => by cases hd
  | get =>
    simp only [advanceClose] at hstep
    split at hstep
    · rename_i e he
      cases hstep
      refine calls_goOn h hf fun c d hwho hok hd => ?_
      subst hwho
      cases hd
      exact hok.sole.2.2 e he
    · cases hstep
      exact calls_after h hf
  | delCon e =>
    cases hstep
    exact calls_goOn h hf fun c d _ _ hd => by cases hd
  | remove =>
    cases hstep
    exact calls_after h hf

/-- `EqService.shutdown()` goes on: at most a registration is lost. -/
theorem staleInv_advanceService (h : w.StaleInv) {t : Thread} {k : ServiceStage}
    {rest : List CloseFrame} (hinv : (w.advanceService t rest k).toJavaCloses.Inv)
    (hf : w.frames t = .service k :: rest) : (w.advanceService t rest k).StaleInv := by
  have hnext : ∀ next c k', .close (.shutdown c true) k' ∈ .service next :: rest →
      w.CallOk c k' := by
    intro next c k' hin
    rcases List.mem_cons.mp hin with heq | hin
    · cases heq
    · exact calls_rest h hf c k' hin
  cases k with
  | reapAll =>
    exact h.congr hinv ⟨rfl, rfl, rfl⟩ rfl ⟨rfl, rfl, rfl⟩ (calls_setFrames h t (hnext .stop))
  | stop =>
    exact h.congr hinv ⟨rfl, rfl, rfl⟩ rfl ⟨rfl, rfl, rfl⟩
      (calls_setFrames h t (hnext .deleteLocal))
  | deleteLocal =>
    refine h.mono hinv rfl rfl (Finset.Subset.refl _) rfl (fun _ _ hd => hd) (fun b d hd => ?_)
      (fun _ _ hd => hd) (calls_setFrames h t (calls_rest h hf))
    simp only [advanceService] at hd
    split at hd
    · exact find?_of_closed (Or.inr rfl) hd
    · exact hd

/-- The stack is deleted: nothing is left in its map, nor in the demultiplexer. -/
theorem staleInv_freeService (h : w.StaleInv) (hinv : w.freeService.toJavaCloses.Inv) :
    w.freeService.StaleInv :=
  h.mono hinv rfl rfl Finset.subset_union_left rfl (fun _ _ hd => absurd hd StdMap.find?_empty_ne)
    (fun _ _ hd => absurd hd StdMap.find?_empty_ne) (fun _ _ hd => hd) h.calls

theorem staleInv_advance (h : w.StaleInv) {t : Thread} (hstep : w.advance t = some w') :
    w'.StaleInv := by
  have hinv : w'.toJavaCloses.Inv := JavaCloses.inv_move h.toInv (advance_move hstep)
  unfold advance at hstep
  split at hstep
  · cases hstep
  · rename_i who k rest hf
    replace hstep := (Option.ite_none_left_eq_some.mp hstep).2
    have hat := advanceClose_closesAt hstep
    exact h.mono hinv hat.created hat.eq hat.freed.ge hat.established
      (fun _ _ => find?_of_closed hat.native) (fun _ _ => find?_of_closed hat.fid_map)
      (fun _ _ => find?_of_closed hat.conMap) (advanceClose_calls h hf hstep)
  · rename_i c rest hf
    split at hstep
    · cases hstep
      refine h.congr hinv ⟨rfl, rfl, rfl⟩ rfl ⟨rfl, rfl, rfl⟩
        (calls_setFrames h t fun d k hin => ?_)
      rcases List.mem_cons.mp hin with heq | hin
      · cases heq
      · exact calls_rest h hf d k hin
    · cases hstep
      exact h.congr hinv ⟨rfl, rfl, rfl⟩ rfl ⟨rfl, rfl, rfl⟩
        (calls_setFrames h t (calls_rest h hf))
  · rename_i c rest hf
    cases hstep
    exact h.congr hinv ⟨rfl, rfl, rfl⟩ rfl ⟨rfl, rfl, rfl⟩
      (calls_setFrames h t (calls_rest h hf))
  · rename_i d rest hf
    cases hstep
    exact h.congr hinv ⟨rfl, rfl, rfl⟩ rfl ⟨rfl, rfl, rfl⟩
      (calls_setFrames h t (calls_rest h hf))
  · rename_i k rest hf
    cases hstep
    exact staleInv_advanceService h hinv hf

/-- A call in progress is what `NotReused` looks for. -/
theorem staleCall_of_mem (h : w.StaleInv) {t : Thread} {c : ConnectionId} {k : CloseStage}
    (hf : .close (.shutdown c true) k ∈ w.frames t) : w.StaleCall c :=
  ⟨t, (h.frames t _ hf).monitor c rfl, _, hf, rfl⟩

theorem created_of_mem (h : w.StaleInv) {t : Thread} {c : ConnectionId} {k : CloseStage}
    (hf : .close (.shutdown c true) k ∈ w.frames t) : c ∈ w.created :=
  h.created c (h.asked c ((h.frames t _ hf).asked c rfl))

theorem staleInv_beginShutdown (h : w.StaleInv) {t : Thread} {c : ConnectionId}
    (hinv : w'.toJavaCloses.Inv) (hsole : c ∈ w.connected → c ∈ w.freed → w.Sole c)
    (hstep : w.beginShutdown t c = some w') : w'.StaleInv := by
  unfold beginShutdown at hstep
  split at hstep
  · cases hstep
    exact h
  · rename_i hcon
    split at hstep
    · cases hstep
      refine h.congr hinv ⟨rfl, rfl, rfl⟩ rfl ⟨rfl, rfl, rfl⟩
        (calls_setFrames h t fun d k hin => ?_)
      rcases List.mem_cons.mp hin with heq | hin
      · injection heq with hwho hk
        injection hwho with hd hstale
        subst hd hk
        have hfreed : d ∈ w.freed := of_decide_eq_true hstale.symm
        exact ⟨hfreed, hsole (not_not.mp hcon) hfreed, fun e he => by cases he⟩
      · exact h.calls t d k hin
    · cases hstep

/-- A new connection does not get the address of one that is being closed. -/
theorem staleInv_make (h : w.StaleInv) {c : ConnectionId} {a : Addr}
    (hreused : w.NotReused (.make c a)) (hstep : w.step (.make c a) = some w') :
    w'.StaleInv := by
  have hinv := inv_step h.toInv hstep
  unfold step at hstep
  simp only at hstep
  split at hstep
  · rename_i hnew
    replace hnew := hnew.2
    cases hstep
    refine ⟨hinv, fun b d hd => ?_, fun d hd => Finset.mem_insert_of_mem (h.created d hd),
      fun t d k hf => ?_⟩
    · replace hd : (w.native.insertNew a c).find? b = some d := hd
      cases ha : w.native.find? a with
      | none =>
        obtain ⟨-, rfl⟩ | hd := (StdMap.find?_insertNew_eq_some ha).mp hd
        · exact Finset.mem_insert_self d _
        · exact Finset.mem_insert_of_mem (h.native b d hd)
      | some e =>
        rw [StdMap.insertNew_of_some c ha] at hd
        exact Finset.mem_insert_of_mem (h.native b d hd)
    · have hok := h.calls t d k hf
      have hdc : d ≠ c := fun heq => hnew.1 (heq ▸ created_of_mem h hf)
      have hne := hreused d hok.freed (staleCall_of_mem h hf)
      obtain ⟨hn, hm, hj⟩ := hok.sole
      refine ⟨hok.freed, ?_, hok.con⟩
      show (w.native.insertNew a c).OnlyAt (Function.update w.eq c a d) d ∧
        w.fid_map.OnlyAt (Function.update w.eq c a d) d ∧
        w.conMap.OnlyAt (Function.update w.eq c a d) d
      rw [Function.update_of_ne hdc]
      exact ⟨hn.insertNew fun ha => absurd ha.symm hne, hm, hj⟩
  · cases hstep

theorem staleInv_register (h : w.StaleInv) {c : ConnectionId}
    (hreused : w.NotReused (.register c)) (hstep : w.step (.register c) = some w') :
    w'.StaleInv := by
  have hinv := inv_step h.toInv hstep
  unfold step at hstep
  simp only at hstep
  split at hstep
  · cases hstep
    refine ⟨hinv, h.native, h.created, fun t d k hf => ?_⟩
    have hok := h.calls t d k hf
    obtain ⟨hn, hm, hj⟩ := hok.sole
    refine ⟨hok.freed, ⟨hn, hm.insertNew fun heq => ?_, hj⟩, hok.con⟩
    exact hreused d hok.freed (staleCall_of_mem h hf) heq.symm
  · cases hstep

/-- A connection that is established under the address of one that is being closed would be
in the map of the stack already. -/
theorem staleInv_connectedEvent (h : w.StaleInv) {a : Addr}
    (hstep : w.step (.connectedEvent a) = some w') : w'.StaleInv := by
  have hinv := inv_step h.toInv hstep
  unfold step at hstep
  simp only at hstep
  split at hstep
  · rename_i e he
    split at hstep
    · cases hstep
      refine ⟨hinv, h.native, fun d hd => ?_, fun t d k hf => ?_⟩
      · obtain rfl | hd := Finset.mem_insert.mp hd
        · exact h.native a d he
        · exact h.created d hd
      · have hold : .close (.shutdown d true) k ∈ w.frames t := by
          obtain ⟨-, hin⟩ | ⟨-, hin⟩ := JavaCloses.mem_setFrames hf
          · cases List.mem_singleton.mp hin
          · exact hin
        have hok := h.calls t d k hold
        obtain ⟨hn, hm, hj⟩ := hok.sole
        refine ⟨hok.freed, ⟨hn, hm, hj.assign fun heq => ?_⟩, hok.con⟩
        exact hn e (heq ▸ he)
    · cases hstep
  · cases hstep

theorem staleInv_step {op : CloseOp} (h : w.StaleInv) (hreused : w.NotReused op)
    (hstep : w.step op = some w') : w'.StaleInv := by
  have hinv := inv_step h.toInv hstep
  cases op with
  | setShutdownCallback registered =>
    cases hstep
    exact h.congr hinv ⟨rfl, rfl, rfl⟩ rfl ⟨rfl, rfl, rfl⟩ h.calls
  | make c a => exact staleInv_make h hreused hstep
  | register c => exact staleInv_register h hreused hstep
  | connectedEvent a => exact staleInv_connectedEvent h hstep
  | shutdownEvent a =>
    simp only [step] at hstep
    split at hstep
    · cases hstep
      refine h.mono hinv rfl rfl (Finset.Subset.refl _) rfl (fun _ _ hd => hd)
        (fun _ _ => find?_of_closed (Or.inr rfl)) (fun _ _ hd => hd)
        (calls_setFrames h .eq fun c k hin => ?_)
      cases List.mem_singleton.mp hin
    · cases hstep
  | shutdown t c =>
    simp only [step] at hstep
    split at hstep
    · exact staleInv_beginShutdown h hinv hreused hstep
    · cases hstep
  | advance t => exact staleInv_advance h hstep
  | throw t =>
    simp only [step] at hstep
    split at hstep
    · rename_i c rest hf
      cases hstep
      exact h.congr hinv ⟨rfl, rfl, rfl⟩ rfl ⟨rfl, rfl, rfl⟩
        (calls_setFrames h t (calls_rest h hf))
    · rename_i d rest hf
      cases hstep
      exact h.congr hinv ⟨rfl, rfl, rfl⟩ rfl ⟨rfl, rfl, rfl⟩
        (calls_setFrames h t (calls_rest h hf))
    · cases hstep
  | free c =>
    simp only [step] at hstep
    split at hstep
    · cases hstep
      exact h.mono hinv rfl rfl (Finset.subset_insert c _) rfl (fun _ _ hd => hd)
        (fun _ _ hd => hd) (fun _ _ hd => hd) h.calls
    · cases hstep
  | shutdownService t =>
    simp only [step] at hstep
    split at hstep
    · cases hstep
      refine h.congr hinv ⟨rfl, rfl, rfl⟩ rfl ⟨rfl, rfl, rfl⟩
        (calls_setFrames h t fun c k hin => ?_)
      rcases List.mem_cons.mp hin with heq | hin
      · cases heq
      · exact h.calls t c k hin
    · cases hstep
  | loop =>
    obtain ⟨-, rfl⟩ | ⟨-, l, rfl⟩ := loop_cases hstep
    · exact staleInv_freeService h hinv
    · exact h.congr hinv ⟨rfl, rfl, rfl⟩ rfl ⟨rfl, rfl, rfl⟩ h.calls
  | noEvent failed =>
    simp only [step] at hstep
    split at hstep
    · cases hstep
      exact h.congr hinv ⟨rfl, rfl, rfl⟩ rfl ⟨rfl, rfl, rfl⟩ h.calls
    · cases hstep
  | pendingReap c =>
    simp only [step] at hstep
    split at hstep
    · have hreap : { w with reapCons := w.reapCons.erase c }.StaleInv :=
        h.congr h.toInv ⟨rfl, rfl, rfl⟩ rfl ⟨rfl, rfl, rfl⟩ h.calls
      exact staleInv_beginShutdown hreap hinv hreused hstep
    · cases hstep

/-- **In a run in which no other connection has, or gets, the address** of the event queue of
a connection on which `shutdown()` is called after it has been freed, the call leaves every
other connection untouched. -/
theorem others_kept (is_server : Bool) (ops : List CloseOp)
    (h : Meets step NotReused (init is_server) ops) :
    Meets step LeavesOthers (init is_server) ops :=
  meets_of_meets (fun _ _ _ hi hreused hstep => staleInv_step hi hreused hstep)
    (fun _ _ _ hi _ _ => leavesOthers_of_staleInv hi) (staleInv_init is_server) ops h

/-- A connection whose peer shuts it down, and that is freed. -/
def peerClosed : List CloseOp :=
  [[.make 0 8, .register 0, .loop, .connectedEvent 8, .advance .eq, .loop, .loop,
    .shutdownEvent 8], List.replicate 6 (.advance .eq), [.free 0, .loop, .loop]].flatten

/-- Another connection, on an event queue at this address. -/
def another (a : Addr) : List CloseOp :=
  [.make 1 a, .register 1, .connectedEvent a, .advance .eq]

/-- `shutdown()` on the connection that has been freed, when the other has an address of its
own. -/
theorem others_kept_apart : Meets step LeavesOthers (init false)
    (peerClosed ++ another 16 ++ .shutdown (.app 0) 0 :: List.replicate 4 (.advance (.app 0))) :=
  others_kept false _ (by decide +kernel)

/-- With the address of the event queue that was closed, the other is shut down. -/
theorem not_others_kept_reused : ¬ Meets step LeavesOthers (init false)
    ((peerClosed ++ another 8 ++ .shutdown (.app 0) 0 :: List.replicate 2 (.advance (.app 0))) ++
      [.advance (.app 0)]) := by
  intro h
  have hrun : (run step (init false) (peerClosed ++ another 8 ++
      .shutdown (.app 0) 0 :: List.replicate 2 (.advance (.app 0)))).map (fun w =>
        (w.frames (.app 0), w.shut, (w.step (.advance (.app 0))).map (·.shut))) =
      some ([.close (.shutdown 0 true) (.endpoint 1)], ∅, some {1}) := by
    decide +kernel
  obtain ⟨w, hw, heq⟩ := Option.map_eq_some_iff.mp hrun
  injection heq with hf heq
  injection heq with hshut hnext
  obtain ⟨w', hstep, hshut'⟩ := Option.map_eq_some_iff.mp hnext
  have hkeeps := h.at_step hw hstep (.app 0) _ [] 0 rfl hf rfl (by simp) w' hstep
  have hin := hkeeps.shut 1 (by decide) (by rw [hshut']; exact Finset.mem_singleton_self 1)
  rw [hshut] at hin
  exact Finset.notMem_empty 1 hin

end CloseWorld

end Hpnl
