import Hpnl.Java.Closing

/-!
# Calls of `Connection.shutdown()` in progress

The body of `Connection.shutdown()` is synchronized, and a thread that is in it may enter it
again from the callback.

* `JavaCloses.Inv`, `inv_step` — a thread in `shutdown()` of a connection has its monitor and
  finds it connected; a connection that `shutdown()` was called on is being shut down, or its
  callback has been called.
* `inv_setFrames`, `inv_leave` — what a thread may do without, and at, the end of a call.
-/

namespace Hpnl

open Transition

namespace JavaCloses

variable {j j' : JavaCloses}

/-- What holds of a call that a thread is in. -/
structure FrameOk (j : JavaCloses) (t : Thread) (f : CloseFrame) : Prop where
  monitor : ∀ c, f.con = some c → j.monitor c = some t
  asked : ∀ c, f.con = some c → c ∈ j.asked
  connected : ∀ c, f.con = some c → f ≠ .handle c → c ∈ j.connected
  handle : ∀ c, f = .handle c → 1 ≤ j.calls c
  delCon : ∀ who d, f = .close who (.delCon d) → d ∈ j.established

/-- A thread is inside `shutdown()` of the connection. -/
def ShuttingDown (j : JavaCloses) (c : ConnectionId) : Prop :=
  ∃ t, ∃ f ∈ j.frames t, f.con = some c

/-- A thread in `shutdown()` of a connection has the monitor and finds it connected; beneath
the call it is in are callbacks only.  A connection whose callback has been called is
connected only while the callback runs, or when it has thrown. -/
structure Inv (j : JavaCloses) : Prop where
  frames : ∀ t, ∀ f ∈ j.frames t, j.FrameOk t f
  stacked : ∀ t, ∀ f ∈ (j.frames t).tail, f.callsOut = true
  connected : ∀ c ∈ j.connected, c ∈ j.established
  asked : ∀ c ∈ j.asked, c ∈ j.established
  conMap : ∀ a d, j.conMap.find? a = some d → d ∈ j.established
  called : ∀ c, 1 ≤ j.calls c → c ∈ j.asked
  running : ∀ c ∈ j.connected, 1 ≤ j.calls c → c ∈ j.threw ∨ ∃ t, .handle c ∈ j.frames t
  threw : ∀ c ∈ j.threw, 1 ≤ j.calls c
  due : ∀ c ∈ j.asked, c ∈ j.callback → j.ShuttingDown c ∨ 1 ≤ j.calls c

/-- What is on the stack of a thread, after another has been given to one. -/
theorem mem_setFrames {t u : Thread} {fs : List CloseFrame} {f : CloseFrame}
    (h : f ∈ (j.setFrames t fs).frames u) : u = t ∧ f ∈ fs ∨ u ≠ t ∧ f ∈ j.frames u := by
  by_cases hu : u = t
  · subst hu
    rw [frames_setFrames_self] at h
    exact Or.inl ⟨rfl, h⟩
  · rw [frames_setFrames_of_ne j fs hu] at h
    exact Or.inr ⟨hu, h⟩

theorem mem_setFrames_self {t : Thread} {fs : List CloseFrame} {f : CloseFrame} (h : f ∈ fs) :
    f ∈ (j.setFrames t fs).frames t := by
  rw [frames_setFrames_self]
  exact h

theorem mem_setFrames_of_ne {t u : Thread} {fs : List CloseFrame} {f : CloseFrame} (hu : u ≠ t)
    (h : f ∈ j.frames u) : f ∈ (j.setFrames t fs).frames u := by
  rw [frames_setFrames_of_ne j fs hu]
  exact h

theorem FrameOk.mono {t : Thread} {f : CloseFrame} (h : j.FrameOk t f)
    (hmonitor : ∀ c, f.con = some c → j'.monitor c = j.monitor c) (hasked : j.asked ⊆ j'.asked)
    (hconnected : ∀ c, f.con = some c → f ≠ .handle c → c ∈ j.connected → c ∈ j'.connected)
    (hcalls : ∀ c, j.calls c ≤ j'.calls c) (hest : j.established ⊆ j'.established) :
    j'.FrameOk t f where
  monitor c hc := (hmonitor c hc).trans (h.monitor c hc)
  asked c hc := hasked (h.asked c hc)
  connected c hc hf := hconnected c hc hf (h.connected c hc hf)
  handle c hc := (h.handle c hc).trans (hcalls c)
  delCon who d hf := hest (h.delCon who d hf)

theorem frameOk_setFrames {t u : Thread} {f : CloseFrame} (fs : List CloseFrame)
    (h : j.FrameOk u f) : (j.setFrames t fs).FrameOk u f :=
  h.mono (fun _ _ => rfl) (Finset.Subset.refl _) (fun _ _ _ hc => hc) (fun _ => le_rfl)
    (Finset.Subset.refl _)

theorem stacked_setFrames (h : ∀ t, ∀ f ∈ (j.frames t).tail, f.callsOut = true) (t : Thread)
    {fs : List CloseFrame} (hfs : ∀ f ∈ fs.tail, f.callsOut = true) :
    ∀ u, ∀ f ∈ ((j.setFrames t fs).frames u).tail, f.callsOut = true := by
  intro u f hf
  by_cases hu : u = t
  · subst hu
    rw [frames_setFrames_self] at hf
    exact hfs f hf
  · rw [frames_setFrames_of_ne j fs hu] at hf
    exact h u f hf

/-- Frames that stand for the old ones, with respect to the connections that are being shut
down and the callbacks that run. -/
structure StandsFor (new old : List CloseFrame) : Prop where
  con : ∀ f ∈ old, ∀ c, f.con = some c → ∃ g ∈ new, g.con = some c
  handle : ∀ c, CloseFrame.handle c ∈ old → CloseFrame.handle c ∈ new

/-- The frame on top is replaced. -/
theorem standsFor_cons {f : CloseFrame} (top : List CloseFrame) {rest : List CloseFrame}
    (hcon : ∀ c, f.con = some c → ∃ g ∈ top, g.con = some c) (hhandle : ∀ c, f ≠ .handle c) :
    StandsFor (top ++ rest) (f :: rest) where
  con g hg c hc := by
    rcases List.mem_cons.mp hg with rfl | hg
    · obtain ⟨g', hg', hc'⟩ := hcon c hc
      exact ⟨g', List.mem_append_left _ hg', hc'⟩
    · exact ⟨g, List.mem_append_right _ hg, hc⟩
  handle c hc := by
    rcases List.mem_cons.mp hc with heq | hc
    · exact absurd heq.symm (hhandle c)
    · exact List.mem_append_right _ hc

theorem shuttingDown_setFrames {t : Thread} {fs : List CloseFrame} {c : ConnectionId}
    (hfs : StandsFor fs (j.frames t)) (h : j.ShuttingDown c) :
    (j.setFrames t fs).ShuttingDown c := by
  obtain ⟨u, f, hf, hc⟩ := h
  by_cases hu : u = t
  · subst hu
    obtain ⟨g, hg, hgc⟩ := hfs.con f hf c hc
    exact ⟨u, g, mem_setFrames_self hg, hgc⟩
  · exact ⟨u, f, mem_setFrames_of_ne hu hf, hc⟩

theorem handles_setFrames {t : Thread} {fs : List CloseFrame} {c : ConnectionId}
    (hfs : StandsFor fs (j.frames t)) (h : ∃ u, .handle c ∈ j.frames u) :
    ∃ u, .handle c ∈ (j.setFrames t fs).frames u := by
  obtain ⟨u, hu⟩ := h
  by_cases hut : u = t
  · subst hut
    exact ⟨u, mem_setFrames_self (hfs.handle c hu)⟩
  · exact ⟨u, mem_setFrames_of_ne hut hu⟩

/-- A thread goes on, without a call of a callback and without the end of one. -/
theorem inv_setFrames (h : j.Inv) {t : Thread} {fs : List CloseFrame}
    (hok : ∀ f ∈ fs, j.FrameOk t f) (hstacked : ∀ f ∈ fs.tail, f.callsOut = true)
    (hfs : StandsFor fs (j.frames t)) : (j.setFrames t fs).Inv where
  frames u f hf := by
    obtain ⟨rfl, hnew⟩ | ⟨-, hold⟩ := mem_setFrames hf
    · exact frameOk_setFrames fs (hok f hnew)
    · exact frameOk_setFrames fs (h.frames u f hold)
  stacked := stacked_setFrames h.stacked t hstacked
  connected := h.connected
  asked := h.asked
  conMap := h.conMap
  called := h.called
  running c hc hcalls := (h.running c hc hcalls).imp id (handles_setFrames hfs)
  threw := h.threw
  due c hc hcallback := (h.due c hc hcallback).imp (shuttingDown_setFrames hfs) id

/-- The frames beneath the one on top. -/
theorem callsOut_rest (h : j.Inv) {t : Thread} {f : CloseFrame} {rest : List CloseFrame}
    (hf : j.frames t = f :: rest) : ∀ g ∈ rest, g.callsOut = true := by
  intro g hg
  refine h.stacked t g ?_
  rw [hf]
  exact hg

/-- The application calls only out of a callback. -/
theorem callsOut_of_head (h : j.Inv) {t : Thread}
    (htop : ∀ f ∈ (j.frames t).head?, f.callsOut = true) {f : CloseFrame}
    (hf : f ∈ j.frames t) : f.callsOut = true := by
  cases hfs : j.frames t with
  | nil => rw [hfs] at hf; cases hf
  | cons g rest =>
    rw [hfs] at hf
    rcases List.mem_cons.mp hf with rfl | hrest
    · exact htop f (by rw [hfs]; rfl)
    · exact callsOut_rest h hfs f hrest

theorem frameOk_top (h : j.Inv) {t : Thread} {f : CloseFrame} {rest : List CloseFrame}
    (hf : j.frames t = f :: rest) : j.FrameOk t f :=
  h.frames t f (hf ▸ List.mem_cons_self)

theorem frameOk_rest (h : j.Inv) {t : Thread} {f g : CloseFrame} {rest : List CloseFrame}
    (hf : j.frames t = f :: rest) (hg : g ∈ rest) : j.FrameOk t g :=
  h.frames t g (hf ▸ List.mem_cons_of_mem f hg)

/-- A frame that is in no `shutdown()`, and has found no connection to end. -/
theorem frameOk_of_none {t : Thread} {f : CloseFrame} (hcon : f.con = none)
    (hdel : ∀ who d, f ≠ .close who (.delCon d)) : j.FrameOk t f where
  monitor c hc := absurd (hcon.symm.trans hc) (by simp)
  asked c hc := absurd (hcon.symm.trans hc) (by simp)
  connected c hc := absurd (hcon.symm.trans hc) (by simp)
  handle c hc := absurd (hcon.symm.trans (congrArg CloseFrame.con hc)) (by simp [CloseFrame.con])
  delCon who d hf := absurd hf (hdel who d)

/-- A frame for the same connection, with what it needs besides. -/
theorem FrameOk.next {t : Thread} {f g : CloseFrame} (h : j.FrameOk t f) (hcon : g.con = f.con)
    (hf : ∀ c, f ≠ .handle c) (hg : ∀ c, g ≠ .handle c)
    (hdel : ∀ who d, g = .close who (.delCon d) → d ∈ j.established) : j.FrameOk t g where
  monitor c hc := h.monitor c (hcon ▸ hc)
  asked c hc := h.asked c (hcon ▸ hc)
  connected c hc _ := h.connected c (hcon ▸ hc) (hf c)
  handle c hc := absurd hc (hg c)
  delCon := hdel

/-- A close goes on to its next stage. -/
theorem inv_goOn (h : j.Inv) {t : Thread} {rest : List CloseFrame} {who : CloseCaller}
    {k next : CloseStage} (hf : j.frames t = .close who k :: rest)
    (hdel : ∀ d, next = .delCon d → d ∈ j.established) :
    (j.setFrames t (.close who next :: rest)).Inv := by
  refine inv_setFrames h (fun f hmem => ?_) (callsOut_rest h hf) ?_
  · rcases List.mem_cons.mp hmem with rfl | hmem
    · refine (frameOk_top h hf).next (by cases who <;> rfl) (by simp) (by simp) fun _ d hd => ?_
      cases hd
      exact hdel d rfl
    · exact frameOk_rest h hf hmem
  · rw [hf]
    refine standsFor_cons [.close who next] (fun c hc => ?_) (by simp)
    exact ⟨_, List.mem_singleton_self _, by rw [← hc]; cases who <;> rfl⟩

/-- `closeConnection` returns. -/
theorem inv_rest (h : j.Inv) {t : Thread} {rest : List CloseFrame} {who : CloseCaller}
    {k : CloseStage} (hf : j.frames t = .close who k :: rest) :
    (j.setFrames t (who.rest ++ rest)).Inv := by
  have htop := frameOk_top h hf
  have hbeneath := callsOut_rest h hf
  refine inv_setFrames h (fun f hmem => ?_) (fun f hmem => ?_) ?_
  · rcases List.mem_append.mp hmem with hmem | hmem
    · cases who with
      | shutdown c stale =>
        cases List.mem_singleton.mp hmem
        exact htop.next rfl (by simp) (by simp) (by simp)
      | event a => cases hmem
    · exact frameOk_rest h hf hmem
  · cases who with
    | shutdown c stale => exact hbeneath f hmem
    | event a => exact hbeneath f (List.mem_of_mem_tail hmem)
  · rw [hf]
    refine standsFor_cons who.rest (fun c hc => ?_) (by simp)
    cases who with
    | shutdown d stale => exact ⟨_, List.mem_singleton_self _, hc⟩
    | event a => cases hc

/-- A call that is no `shutdown()` of a connection ends. -/
theorem inv_ends (h : j.Inv) {t : Thread} {f : CloseFrame} {rest : List CloseFrame}
    (hf : j.frames t = f :: rest) (hcon : f.con = none) (hhandle : ∀ c, f ≠ .handle c) :
    (j.setFrames t rest).Inv := by
  refine inv_setFrames h (fun g hmem => frameOk_rest h hf hmem)
    (fun g hmem => callsOut_rest h hf g (List.mem_of_mem_tail hmem)) ?_
  rw [hf]
  exact standsFor_cons [] (fun c hc => absurd (hcon.symm.trans hc) (by simp)) hhandle

theorem inv_establish (h : j.Inv) {a : Addr} {d : ConnectionId} {registered : Bool}
    (hnew : d ∉ j.established) (hidle : j.frames .eq = []) :
    (j.establish a d registered).Inv := by
  have hest : j.established ⊆ insert d j.established := Finset.subset_insert d _
  -- nothing has been recorded of the connection
  have hbase : { j with
      established := insert d j.established
      connected := insert d j.connected
      callback := if registered then insert d j.callback else j.callback
      conMap := j.conMap.assign a d }.Inv := by
    refine ⟨fun t f hf => ?_, h.stacked, fun c hc => ?_, fun c hc => hest (h.asked c hc),
      fun b e he => ?_, h.called, fun c hc hcalls => ?_, h.threw, fun c hc hcallback => ?_⟩
    · exact (h.frames t f hf).mono (fun _ _ => rfl) (Finset.Subset.refl _)
        (fun c _ _ hc => Finset.mem_insert_of_mem hc) (fun _ => le_rfl) hest
    · exact Finset.insert_subset_insert d (fun c hc => h.connected c hc) hc
    · replace he : (j.conMap.assign a d).find? b = some e := he
      rw [StdMap.find?_assign] at he
      split at he
      · cases he
        exact Finset.mem_insert_self d _
      · exact hest (h.conMap b e he)
    · obtain rfl | hc := Finset.mem_insert.mp hc
      · exact absurd (h.asked c (h.called c hcalls)) hnew
      · exact h.running c hc hcalls
    · refine h.due c hc ?_
      have hne : c ≠ d := fun heq => hnew (heq ▸ h.asked c hc)
      cases registered with
      | false => exact hcallback
      | true => exact (Finset.mem_insert.mp hcallback).resolve_left hne
  refine inv_setFrames hbase (fun f hf => ?_) (by simp) ?_
  · obtain rfl := List.mem_singleton.mp hf
    exact frameOk_of_none rfl (by simp)
  · show StandsFor _ (j.frames .eq)
    rw [hidle]
    exact ⟨by simp, by simp⟩

theorem inv_enter (h : j.Inv) {t : Thread} {c : ConnectionId} (stale : Bool)
    (hcon : c ∈ j.connected) (hfree : j.monitor c = none ∨ j.monitor c = some t)
    (htop : ∀ f ∈ (j.frames t).head?, f.callsOut = true) : (j.enter t c stale).Inv := by
  have hold : ∀ u, ∀ f ∈ j.frames u, (j.enter t c stale).FrameOk u f := by
    intro u f hf
    refine (h.frames u f hf).mono (fun e he => ?_) (Finset.subset_insert c _)
      (fun _ _ _ he => he) (fun _ => le_rfl) (Finset.Subset.refl _)
    -- no other thread has the monitor
    by_cases hec : e = c
    · subst hec
      have hmonitor := (h.frames u f hf).monitor e he
      have hut : j.monitor e = some t := hfree.resolve_left (by simp [hmonitor])
      exact (Function.update_self ..).trans hut.symm
    · exact Function.update_of_ne hec ..
  have hsub : ∀ u, ∀ f ∈ j.frames u, f ∈ (j.enter t c stale).frames u := by
    intro u f hf
    by_cases hu : u = t
    · subst hu
      exact mem_setFrames_self (List.mem_cons_of_mem _ hf)
    · exact mem_setFrames_of_ne hu hf
  refine ⟨fun u f hf => ?_, stacked_setFrames h.stacked t fun f hf => ?_, h.connected,
    fun d hd => ?_, h.conMap, fun d hd => Finset.mem_insert_of_mem (h.called d hd),
    fun d hd hcalls => ?_, h.threw, fun d hd hcallback => ?_⟩
  · obtain ⟨rfl, hnew⟩ | ⟨-, hin⟩ := mem_setFrames hf
    · rcases List.mem_cons.mp hnew with rfl | hin
      · refine ⟨fun d hd => ?_, fun d hd => ?_, fun d hd _ => ?_, by simp, by simp⟩
        · cases hd
          exact Function.update_self ..
        · cases hd
          exact Finset.mem_insert_self c _
        · cases hd
          exact hcon
      · exact hold _ f hin
    · exact hold u f hin
  · exact callsOut_of_head h htop hf
  · obtain rfl | hd := Finset.mem_insert.mp hd
    · exact h.connected d hcon
    · exact h.asked d hd
  · obtain hthrew | ⟨u, hu⟩ := h.running d hd hcalls
    · exact Or.inl hthrew
    · exact Or.inr ⟨u, hsub u _ hu⟩
  · obtain rfl | hd := Finset.mem_insert.mp hd
    · exact Or.inl ⟨t, _, mem_setFrames_self List.mem_cons_self, rfl⟩
    · obtain ⟨u, f, hf, hfd⟩ | hcalls := h.due d hd hcallback
      · exact Or.inl ⟨u, f, hsub u f hf, hfd⟩
      · exact Or.inr hcalls

/-- What has ended is not in the invariant, and the map may lose entries. -/
theorem inv_recorded (h : j.Inv) (ended : Finset ConnectionId) {m : StdMap Addr ConnectionId}
    (hm : ∀ a d, m.find? a = some d → j.conMap.find? a = some d) :
    { j with ended := ended, conMap := m }.Inv where
  frames u f hf := (h.frames u f hf).mono (fun _ _ => rfl) (Finset.Subset.refl _)
    (fun _ _ _ hc => hc) (fun _ => le_rfl) (Finset.Subset.refl _)
  stacked := h.stacked
  connected := h.connected
  asked := h.asked
  conMap a d hd := h.conMap a d (hm a d hd)
  called := h.called
  running := h.running
  threw := h.threw
  due := h.due

theorem inv_delCon (h : j.Inv) {t : Thread} {rest : List CloseFrame} {who : CloseCaller}
    {d : ConnectionId} (hf : j.frames t = .close who (.delCon d) :: rest) :
    (j.delCon t rest who d).Inv := by
  have hbase := inv_recorded h (insert d j.ended) fun _ _ he => he
  exact inv_goOn hbase hf (by simp)

theorem inv_remove (h : j.Inv) {t : Thread} {rest : List CloseFrame} {who : CloseCaller}
    (a : Addr) (hf : j.frames t = .close who .remove :: rest) :
    (j.remove t rest who a).Inv := by
  have hbase : { j with conMap := j.conMap.remove a }.Inv :=
    inv_recorded h j.ended fun _ _ hd => (StdMap.find?_remove_eq_some.mp hd).2
  exact inv_rest hbase hf

theorem inv_call (h : j.Inv) {t : Thread} {rest : List CloseFrame} {c : ConnectionId}
    (hf : j.frames t = .callback c :: rest) : (j.call t rest c).Inv := by
  have htop := frameOk_top h hf
  have hcalls : ∀ d, j.calls d ≤ (j.call t rest c).calls d := by
    intro d
    show j.calls d ≤ Function.update j.calls c (j.calls c + 1) d
    by_cases hd : d = c
    · subst hd
      rw [Function.update_self]
      exact Nat.le_succ _
    · rw [Function.update_of_ne hd]
  have hself : 1 ≤ (j.call t rest c).calls c := by
    show 1 ≤ Function.update j.calls c (j.calls c + 1) c
    rw [Function.update_self]
    exact Nat.le_add_left 1 _
  have hof : ∀ d, 1 ≤ (j.call t rest c).calls d → d = c ∨ 1 ≤ j.calls d := by
    intro d hd
    by_cases hdc : d = c
    · exact Or.inl hdc
    · replace hd : 1 ≤ Function.update j.calls c (j.calls c + 1) d := hd
      rw [Function.update_of_ne hdc] at hd
      exact Or.inr hd
  have hold : ∀ u, ∀ f ∈ j.frames u, (j.call t rest c).FrameOk u f := fun u f hu =>
    (h.frames u f hu).mono (fun _ _ => rfl) (Finset.Subset.refl _) (fun _ _ _ hd => hd) hcalls
      (Finset.Subset.refl _)
  have hfs : StandsFor (.handle c :: rest) (j.frames t) := by
    rw [hf]
    exact standsFor_cons [.handle c] (fun d hd => ⟨_, List.mem_singleton_self _, hd⟩)
      (by simp)
  refine ⟨fun u f hu => ?_, stacked_setFrames h.stacked t (callsOut_rest h hf), h.connected,
    h.asked, h.conMap, fun d hd => ?_, fun d hd hpos => ?_, fun d hd => (h.threw d hd).trans
    (hcalls d), fun d hd hcallback => ?_⟩
  · obtain ⟨rfl, hnew⟩ | ⟨-, hin⟩ := mem_setFrames hu
    · rcases List.mem_cons.mp hnew with rfl | hin
      · refine ⟨fun d hd => htop.monitor d hd, fun d hd => htop.asked d hd, fun d hd hne => ?_,
          fun d hd => ?_, by simp⟩
        · cases hd
          exact absurd rfl hne
        · cases hd
          exact hself
      · exact hold _ f (hf ▸ List.mem_cons_of_mem _ hin)
    · exact hold u f hin
  · obtain rfl | hd := hof d hd
    · exact htop.asked d rfl
    · exact h.called d hd
  · obtain rfl | hpos := hof d hpos
    · exact Or.inr ⟨t, mem_setFrames_self List.mem_cons_self⟩
    · exact (h.running d hd hpos).imp id (handles_setFrames (j := { j with
        calls := Function.update j.calls c (j.calls c + 1) }) hfs)
  · obtain hin | hpos := h.due d hd hcallback
    · exact Or.inl (shuttingDown_setFrames (j := { j with
        calls := Function.update j.calls c (j.calls c + 1) }) hfs hin)
    · exact Or.inr (hpos.trans (hcalls d))

/-- A thread leaves `shutdown()`: of the connection nothing is left to be done. -/
theorem inv_leave (h : j.Inv) {t : Thread} {f : CloseFrame} {rest : List CloseFrame}
    {c : ConnectionId} (hf : j.frames t = f :: rest) (hc : f.con = some c)
    {connected threw : Finset ConnectionId}
    (hconnected : ∀ d, d ∈ connected → d ∈ j.connected)
    (hkept : ∀ d ∈ j.connected, d ≠ c → d ∈ connected)
    (hthrew : ∀ d ∈ j.threw, d ∈ threw) (hnew : ∀ d ∈ threw, d ∈ j.threw ∨ d = c)
    (hdone : c ∈ connected → c ∈ threw) (hcalled : c ∈ j.callback ∨ c ∈ threw → 1 ≤ j.calls c) :
    ({ j with connected := connected, threw := threw }.leave t rest c).Inv := by
  have htop := frameOk_top h hf
  have hrest := callsOut_rest h hf
  -- the frames of the connection that are left are beneath this one
  have hbeneath : ∀ u, ∀ g ∈ ({ j with connected := connected, threw := threw }.leave t rest
      c).frames u, g.con = some c → u = t ∧ g ∈ rest := by
    intro u g hg hgc
    obtain ⟨rfl, hin⟩ | ⟨hu, hin⟩ := mem_setFrames hg
    · exact ⟨rfl, hin⟩
    · have hmonitor := (h.frames u g hin).monitor c hgc
      exact absurd (Option.some.inj (hmonitor.symm.trans (htop.monitor c hc))) hu
  have hmem : ∀ u, ∀ g ∈ j.frames u, ∀ d, g.con = some d → d ≠ c →
      g ∈ ({ j with connected := connected, threw := threw }.leave t rest c).frames u := by
    intro u g hg d hgd hd
    by_cases hu : u = t
    · subst hu
      rw [hf] at hg
      rcases List.mem_cons.mp hg with rfl | hg
      · exact absurd (Option.some.inj (hgd.symm.trans hc)) hd
      · exact mem_setFrames_self hg
    · exact mem_setFrames_of_ne hu hg
  have hframe : ∀ u, ∀ g ∈ ({ j with connected := connected, threw := threw }.leave t rest
      c).frames u, j.FrameOk u g := by
    intro u g hg
    obtain ⟨rfl, hin⟩ | ⟨-, hin⟩ := mem_setFrames hg
    · exact frameOk_rest h hf hin
    · exact h.frames u g hin
  refine ⟨fun u g hg => ?_, stacked_setFrames h.stacked t fun g hg => hrest g
    (List.mem_of_mem_tail hg), fun d hd => h.connected d (hconnected d hd), h.asked, h.conMap,
    h.called, fun d hd hpos => ?_, fun d hd => ?_, fun d hd hcallback => ?_⟩
  · refine (hframe u g hg).mono (fun d hd => ?_) (Finset.Subset.refl _) (fun d hd hne hin => ?_)
      (fun _ => le_rfl) (Finset.Subset.refl _)
    · by_cases hdc : d = c
      · subst hdc
        obtain ⟨-, hin⟩ := hbeneath u g hg hd
        have hany : rest.any (·.con = some d) = true :=
          List.any_eq_true.mpr ⟨g, hin, decide_eq_true hd⟩
        show Function.update j.monitor d _ d = j.monitor d
        rw [Function.update_self, if_pos hany, htop.monitor d hc]
      · exact Function.update_of_ne hdc ..
    · refine hkept d hin fun hdc => hne ?_
      subst hdc
      obtain ⟨-, hrestg⟩ := hbeneath u g hg hd
      have hout := hrest g hrestg
      cases g with
      | handle e => cases hd; rfl
      | close _ _ => cases hout
      | callback _ => cases hout
      | connectedCallback _ => cases hd
      | service _ => cases hd
  · by_cases hdc : d = c
    · subst hdc
      exact Or.inl (hdone hd)
    · obtain hthr | ⟨u, hu⟩ := h.running d (hconnected d hd) hpos
      · exact Or.inl (hthrew d hthr)
      · exact Or.inr ⟨u, hmem u _ hu d rfl hdc⟩
  · obtain hd | rfl := hnew d hd
    · exact h.threw d hd
    · exact hcalled (Or.inr hd)
  · by_cases hdc : d = c
    · subst hdc
      exact Or.inr (hcalled (Or.inl hcallback))
    · obtain ⟨u, g, hg, hgd⟩ | hpos := h.due d hd hcallback
      · exact Or.inl ⟨u, g, hmem u g hg d hgd hdc, hgd⟩
      · exact Or.inr hpos

theorem inv_finish (h : j.Inv) {t : Thread} {f : CloseFrame} {rest : List CloseFrame}
    {c : ConnectionId} (hf : j.frames t = f :: rest) (hc : f.con = some c)
    (hcalled : c ∈ j.callback → 1 ≤ j.calls c) : (j.finish t rest c).Inv := by
  refine inv_leave h hf hc (fun d hd => Finset.mem_of_mem_erase hd)
    (fun d hd hne => Finset.mem_erase.mpr ⟨hne, hd⟩) (fun d hd => hd) (fun d hd => Or.inl hd)
    (fun hin => absurd hin (Finset.notMem_erase c _)) ?_
  rintro (hcallback | hthrew)
  · exact hcalled hcallback
  · exact h.threw c hthrew

theorem inv_throws (h : j.Inv) {t : Thread} {rest : List CloseFrame} {c : ConnectionId}
    (hf : j.frames t = .handle c :: rest) : (j.throws t rest c).Inv :=
  inv_leave h hf rfl (fun _ hd => hd) (fun _ hd _ => hd)
    (fun _ hd => Finset.mem_insert_of_mem hd)
    (fun _ hd => (Finset.mem_insert.mp hd).symm) (fun _ => Finset.mem_insert_self c _)
    fun _ => (frameOk_top h hf).handle c rfl

theorem inv_move {op : CloseOp} (h : j.Inv) (hmove : JavaMove j op j') : j'.Inv := by
  cases hmove with
  | still _ => exact h
  | establish hnew hidle => exact inv_establish h hnew hidle
  | @event a hidle =>
    refine inv_setFrames h (fun f hf => ?_) (by simp) (by rw [hidle]; exact ⟨by simp, by simp⟩)
    obtain rfl := List.mem_singleton.mp hf
    exact frameOk_of_none rfl (by simp)
  | enter _ hcon hfree htop => exact inv_enter h _ hcon hfree htop
  | goOn hf _ hnext =>
    refine inv_goOn h hf fun d hd => ?_
    obtain ⟨a, ha⟩ := hnext d hd
    exact h.conMap a d ha
  | absent hf => exact inv_rest h hf
  | delCon hf => exact inv_delCon h hf
  | remove hf => exact inv_remove h _ hf
  | call hf _ => exact inv_call h hf
  | unset hf hc => exact inv_finish h hf rfl fun hcallback => absurd hcallback hc
  | finish hf => exact inv_finish h hf rfl fun _ => (frameOk_top h hf).handle _ rfl
  | returns hf => exact inv_ends h hf rfl (by simp)
  | @begins t htop =>
    refine inv_setFrames h (fun f hmem => ?_) (fun f hmem => ?_)
      ⟨fun f hmem c hc => ⟨f, List.mem_cons_of_mem _ hmem, hc⟩,
        fun c hmem => List.mem_cons_of_mem _ hmem⟩
    · rcases List.mem_cons.mp hmem with rfl | hmem
      · exact frameOk_of_none rfl (by simp)
      · exact h.frames t f hmem
    · exact callsOut_of_head h htop hmem
  | @service t rest k next hf =>
    refine inv_setFrames h (fun f hmem => ?_) (callsOut_rest h hf) ?_
    · rcases List.mem_cons.mp hmem with rfl | hmem
      · exact frameOk_of_none rfl (by simp)
      · exact frameOk_rest h hf hmem
    · rw [hf]
      exact standsFor_cons [.service next] (by simp [CloseFrame.con]) (by simp)
  | serviceEnds hf => exact inv_ends h hf rfl (by simp)
  | @frees gone _ => exact inv_recorded h (j.ended ∪ gone) fun _ _ hd => hd
  | throws hf => exact inv_throws h hf

end JavaCloses

namespace CloseWorld

variable {w w' : CloseWorld}

theorem inv_init (is_server : Bool) : (init is_server).toJavaCloses.Inv where
  frames _ _ hf := by cases hf
  stacked _ _ hf := by cases hf
  connected _ hc := absurd hc (Finset.notMem_empty _)
  asked _ hc := absurd hc (Finset.notMem_empty _)
  conMap a d hd := by simp [init] at hd
  called _ hc := absurd hc (by simp [init])
  running _ hc := absurd hc (Finset.notMem_empty _)
  threw _ hc := absurd hc (Finset.notMem_empty _)
  due _ hc := absurd hc (Finset.notMem_empty _)

theorem inv_step {op : CloseOp} (h : w.toJavaCloses.Inv) (hstep : w.step op = some w') :
    w'.toJavaCloses.Inv :=
  JavaCloses.inv_move h (step_move hstep)

end CloseWorld

end Hpnl
