import Hpnl.RdmConnection.Init
import Hpnl.Lib.OpenObjects
import Hpnl.Lib.Transition

/-!
# What an RDM stack opens, and what becomes of it

`RdmStack::init` opens a fabric, a domain and a completion queue.  `bind` and `get_con` make a
connection each, which opens an endpoint and an address vector of its own; a client's connection
also gets an `fi_info` of its own, a server's is lent the stack's `server_info`.  A call that
fails leaves what has been opened to the destructors (`src/src/core/RdmStack.cc`,
`src/src/core/RdmConnection.cc`).

* `RdmCon.init`, `RdmCon.destroy`, `RdmStackWorld.init`, `bind`, `get_con`, `destroy` — the
  members, with every way to fail.
* `init_flags` — a connection has the objects that `RdmInit` says it has.
* `Good`, `step_good` — what is open is what the pointers lead to, in the order of the destructor.
* `Damaged`, `step_lost`, `step_damaged` — something is open that no pointer leads to; a call that
  breaks the condition leads there, and no call leads back.
* `Good.destroy`, `Damaged.destroy` — the destructors close everything exactly once, and after all
  that was opened on it, from the one, and do not from the other.
-/

namespace Hpnl

open Transition OpenObjects

/-- What `fi_getinfo` does; when it fails, it may have set the pointer to null. -/
inductive GetInfo where
  | ok
  | failed (cleared : Bool)
  deriving DecidableEq, Repr

/-- The objects of an `RdmConnection`. -/
structure RdmCon where
  is_server : Bool
  info : Option ℕ := none
  ep : Option ℕ := none
  av : Option ℕ := none

/-- Which calls of `RdmStack::init` succeed; `hints` is whether `fi_allocinfo()` has memory. -/
structure StackReply where
  hints : Bool
  getinfo : GetInfo
  fabric : Bool
  domain : Bool
  cq_open : Bool

/-- An `RdmStack` with what has been opened so far. -/
structure RdmStackWorld where
  is_server : Bool
  initialized : Bool
  info : Option ℕ
  fabric : Option ℕ
  domain : Option ℕ
  cq : Option ℕ
  server_info : Option ℕ
  cons : List RdmCon
  objects : OpenObjects

/-- A call; `args` is whether `ip`, `port` and `buf_mgr` are not null, and `hints` whether
`fi_allocinfo()` of `bind` has memory. -/
inductive RdmStackOp where
  | init (r : StackReply)
  | bind (args hints : Bool) (getinfo : GetInfo) (con : RdmInit.InitReply)
  | get_con (args : Bool) (con : RdmInit.InitReply)

/-! ## The code -/

/-- `fi_getinfo` into a pointer, between `fi_allocinfo` and `fi_freeinfo` of its hints. -/
def getinfo (o : OpenObjects) (p : Option ℕ) : GetInfo → OpenObjects × Option ℕ
  | .ok => (((o.opened []).opened []).close o.made, some (o.made + 1))
  | .failed cleared => ((o.opened []).close o.made, if cleared then none else p)

namespace RdmCon

/-- `init` from `fi_endpoint` on.  The rounds of the loop open nothing; `none` is the assertion
on `fi_av_insert`. -/
def openEndpoint (c : RdmCon) (o : OpenObjects) (domain cq : ℕ) (r : RdmInit.InitReply) :
    Option (OpenObjects × RdmCon) :=
  if r.endpoint = false then some (o, c)
  else
    let ep := o.made
    let o := o.opened [domain]
    let c := { c with ep := some ep }
    if r.av_open = false then some (o, c)
    else
      let av := o.made
      let o := o.opened [domain]
      let c := { c with av := some av }
      if r.bind_cq = false then some (o, c)
      else
        let o := o.attach ep cq
        if r.bind_av = false then some (o, c)
        else
          let o := o.attach ep av
          if r.enable = true ∧ c.is_server = false ∧ r.inserted = false then none
          else some (o, c)

/-- `RdmConnection::init`; a client writes to its hints without a test. -/
def init (c : RdmCon) (o : OpenObjects) (domain cq : ℕ) (r : RdmInit.InitReply) :
    Option (OpenObjects × RdmCon) :=
  if c.is_server then c.openEndpoint o domain cq r
  else if r.hints = false then none
  else
    let (o, info) := getinfo o c.info (if r.getinfo then .ok else .failed false)
    let c := { c with info := info }
    if r.getinfo = false then some (o, c) else c.openEndpoint o domain cq r

/-- The `fi_info` that a connection frees itself. -/
def infos (c : RdmCon) : List ℕ := if c.is_server then [] else c.info.toList

/-- What `~RdmConnection` closes, in this order. -/
def owned (c : RdmCon) : List ℕ := c.infos ++ c.ep.toList ++ c.av.toList

/-- `~RdmConnection`, as far as its own objects go. -/
def destroy (o : OpenObjects) (c : RdmCon) : OpenObjects :=
  let o := if c.is_server then o else o.closeAll c.info.toList
  let o := o.closeAll c.ep.toList
  o.closeAll c.av.toList

end RdmCon

namespace RdmStackWorld

/-- `RdmStack::RdmStack`. -/
def construct (is_server : Bool) : RdmStackWorld :=
  ⟨is_server, false, none, none, none, none, none, [], none_opened⟩

/-- `RdmStack::init` from `fi_fabric` on. -/
def openFabric (w : RdmStackWorld) (r : StackReply) : RdmStackWorld :=
  if r.fabric = false then w
  else
    let fabric := w.objects.made
    let w := { w with fabric := some fabric, objects := w.objects.opened [] }
    if r.domain = false then w
    else
      let domain := w.objects.made
      let w := { w with domain := some domain, objects := w.objects.opened [fabric] }
      if r.cq_open = false then w
      else
        { w with
          cq := some w.objects.made
          objects := w.objects.opened [domain]
          initialized := true }

/-- `RdmStack::init` from `fi_getinfo` on. -/
def setUp (w : RdmStackWorld) (r : StackReply) : RdmStackWorld :=
  let (o, info) := getinfo w.objects w.info r.getinfo
  let w := { w with objects := o, info := info }
  if r.getinfo = .ok then w.openFabric r else w

/-- `RdmStack::init`; null hints are dereferenced. -/
def init (w : RdmStackWorld) (r : StackReply) : Option RdmStackWorld :=
  if r.hints = false then none else some (w.setUp r)

/-- A connection is made, set up and kept, whatever its `init` returns; a null domain or queue is
dereferenced. -/
def connect (w : RdmStackWorld) (c : RdmCon) (r : RdmInit.InitReply) : Option RdmStackWorld :=
  match w.domain, w.cq with
  | some domain, some cq => (c.init w.objects domain cq r).map fun x =>
      { w with objects := x.1, cons := w.cons ++ [x.2] }
  | _, _ => none

/-- `RdmStack::bind`. -/
def bind (w : RdmStackWorld) (args hints : Bool) (info : GetInfo) (r : RdmInit.InitReply) :
    Option RdmStackWorld :=
  if w.initialized = false ∨ args = false then some w
  else if hints = false then none
  else
    let (o, server_info) := getinfo w.objects w.server_info info
    let w := { w with objects := o, server_info := server_info }
    if info = .ok then w.connect { is_server := true, info := server_info } r else some w

/-- `RdmStack::get_con`. -/
def get_con (w : RdmStackWorld) (args : Bool) (r : RdmInit.InitReply) : Option RdmStackWorld :=
  if w.initialized = false ∨ args = false then some w
  else w.connect { is_server := false } r

/-- `RdmStack::~RdmStack`, once the connections have been deleted. -/
def closeOwn (w : RdmStackWorld) (o : OpenObjects) : OpenObjects :=
  let o := o.closeAll w.cq.toList
  let o := o.closeAll w.info.toList
  let o := if w.is_server then o.closeAll w.server_info.toList else o
  let o := o.closeAll w.domain.toList
  o.closeAll w.fabric.toList

/-- `RdmStack::~RdmStack`, as far as objects go. -/
def destroy (w : RdmStackWorld) : OpenObjects :=
  w.closeOwn (w.cons.foldl RdmCon.destroy w.objects)

def step (w : RdmStackWorld) : RdmStackOp → Option RdmStackWorld
  | .init r => w.init r
  | .bind args hints info r => w.bind args hints info r
  | .get_con args r => w.get_con args r

/-- A call of `fi_getinfo` leaves the pointer alone, or finds it null. -/
def Keeps (p : Option ℕ) : GetInfo → Prop
  | .ok => p = none
  | .failed cleared => cleared = true → p = none

instance (p : Option ℕ) : DecidablePred (Keeps p)
  | .ok => inferInstanceAs (Decidable (p = none))
  | .failed cleared => inferInstanceAs (Decidable (cleared = true → p = none))

/-- **The condition.**  `init` is called on a stack that has nothing, and `bind` on a server that
has no `server_info` yet. -/
def Guard (w : RdmStackWorld) : RdmStackOp → Prop
  | .init r => Keeps w.info r.getinfo
  | .bind args _ info _ => w.initialized = true → args = true →
      Keeps w.server_info info ∧ (info = .ok → w.is_server = true)
  | .get_con _ _ => True

instance (w : RdmStackWorld) : DecidablePred w.Guard
  | .init r => inferInstanceAs (Decidable (Keeps w.info r.getinfo))
  | .bind args _ info _ => inferInstanceAs (Decidable (w.initialized = true → args = true →
      Keeps w.server_info info ∧ (info = .ok → w.is_server = true)))
  | .get_con _ _ => isTrue trivial

/-! ## What the destructor closes -/

/-- What the stack's own pointers lead to, in the order in which the destructor closes it. -/
def own (w : RdmStackWorld) : List ℕ :=
  w.cq.toList ++ w.info.toList ++ (if w.is_server then w.server_info.toList else []) ++
    w.domain.toList ++ w.fabric.toList

/-- All that the destructor closes. -/
def pointers (w : RdmStackWorld) : List ℕ := w.cons.flatMap RdmCon.owned ++ w.own

theorem destroy_con (o : OpenObjects) (c : RdmCon) : c.destroy o = o.closeAll c.owned := by
  unfold RdmCon.destroy RdmCon.owned RdmCon.infos
  cases c.is_server
  · simp [closeAll_append]
  · simp [closeAll_append]

theorem destroy_cons (o : OpenObjects) (cs : List RdmCon) :
    cs.foldl RdmCon.destroy o = o.closeAll (cs.flatMap RdmCon.owned) := by
  induction cs generalizing o with
  | nil => rfl
  | cons c cs ih =>
    rw [List.foldl_cons, List.flatMap_cons, closeAll_append, destroy_con, ih]

theorem destroy_eq (w : RdmStackWorld) : w.destroy = w.objects.closeAll w.pointers := by
  unfold destroy closeOwn pointers own
  rw [destroy_cons]
  cases w.is_server
  · simp [closeAll_append]
  · simp [closeAll_append]

end RdmStackWorld

/-! ## What the calls open -/

section

variable {o : OpenObjects} {is js : List ℕ} {p : Option ℕ} {domain cq : ℕ}
  {r : RdmInit.InitReply} {x : OpenObjects × RdmCon} {c : RdmCon}

/-- The hints come and go. -/
theorem getinfo_ok (h : o.Tracks (is ++ js)) :
    (getinfo o p .ok).1.Tracks (is ++ (o.made + 1) :: js) := by
  have hhints : (o.opened []).Tracks ([] ++ o.made :: (is ++ js)) := Tracks.opened h (by simp)
  have hinfo : ((o.opened []).opened []).Tracks ((o.made :: is) ++ (o.made + 1) :: js) :=
    Tracks.opened hhints (by simp)
  exact hinfo.close

theorem getinfo_failed (h : o.Tracks is) (cleared : Bool) :
    (getinfo o p (.failed cleared)).1.Tracks is := by
  have hhints : (o.opened []).Tracks ([] ++ o.made :: is) := Tracks.opened h (by simp)
  exact hhints.close

/-- **What a connection opens**, from `fi_endpoint` on. -/
theorem openEndpoint_tracks (hep : c.ep = none) (hav : c.av = none)
    (h : o.Tracks (is ++ c.owned ++ js)) (hdomain : domain ∈ js) (hcq : cq ∈ js)
    (hopen : c.openEndpoint o domain cq r = some x) :
    x.1.Tracks (is ++ x.2.owned ++ js) := by
  have howned : c.owned = c.infos := by simp [RdmCon.owned, hep, hav]
  rw [howned] at h
  have hnodup := (List.nodup_append.mp h.nodup).2.1
  have hbehind : ∀ q ∈ js, q < o.made ∧ q ∉ is ++ c.infos := fun q hq =>
    ⟨(h.mem_iff.mp (List.mem_append_right _ hq)).1, fun hmem =>
      (List.nodup_append.mp hnodup).2.2 q hmem q hq rfl⟩
  obtain ⟨hdlt, hd⟩ := hbehind domain hdomain
  obtain ⟨hclt, hc⟩ := hbehind cq hcq
  have hmade : o.made ∉ is ++ c.infos := fun hmem =>
    absurd (h.mem_iff.mp (List.mem_append_left _ hmem)).1 (lt_irrefl _)
  have hmade' : o.made + 1 ∉ is ++ c.infos := fun hmem =>
    absurd (h.mem_iff.mp (List.mem_append_left _ hmem)).1 (by omega)
  -- the endpoint, the address vector, and the two that the endpoint is bound to
  have h₁ : (o.opened [domain]).Tracks ((is ++ c.infos) ++ o.made :: js) :=
    Tracks.opened h fun q hq => List.mem_singleton.mp hq ▸ ⟨hdlt, hd⟩
  have h₁' : (o.opened [domain]).Tracks ((is ++ c.infos ++ [o.made]) ++ js) := by
    rwa [List.append_assoc _ [o.made] js]
  have h₂ : ((o.opened [domain]).opened [domain]).Tracks
      ((is ++ c.infos ++ [o.made]) ++ (o.made + 1) :: js) := by
    refine Tracks.opened h₁' fun q hq => ?_
    obtain rfl := List.mem_singleton.mp hq
    refine ⟨Nat.lt_succ_of_lt hdlt, ?_⟩
    rw [List.mem_append, not_or, List.mem_singleton]
    exact ⟨hd, hdlt.ne⟩
  have h₂' : ((o.opened [domain]).opened [domain]).Tracks
      ((is ++ c.infos) ++ o.made :: (o.made + 1) :: js) := by
    rwa [List.append_assoc _ [o.made]] at h₂
  have h₃ := h₂'.attach (Nat.lt_succ_of_lt (Nat.lt_succ_of_lt hclt)) hc
  have h₄ := h₃.attach (Nat.lt_succ_self (o.made + 1)) hmade'
  simp only [RdmCon.openEndpoint] at hopen
  split at hopen
  · cases hopen
    rwa [howned]
  split at hopen
  · cases hopen
    simpa [RdmCon.owned, RdmCon.infos, hav] using h₁
  split at hopen
  · cases hopen
    simpa [RdmCon.owned, RdmCon.infos] using h₂'
  split at hopen
  · cases hopen
    simpa [RdmCon.owned, RdmCon.infos] using h₃
  split at hopen
  · simp at hopen
  · cases hopen
    simpa [RdmCon.owned, RdmCon.infos] using h₄

theorem owned_eq_nil (hinfo : c.is_server = false → c.info = none) (hep : c.ep = none)
    (hav : c.av = none) : c.owned = [] := by
  rw [RdmCon.owned, RdmCon.infos, hep, hav]
  cases hserver : c.is_server with
  | true => rfl
  | false => simp [hinfo hserver]

/-- **What a connection opens** in all of its `init`. -/
theorem init_tracks (hinfo : c.is_server = false → c.info = none) (hep : c.ep = none)
    (hav : c.av = none) (h : o.Tracks (is ++ js)) (hdomain : domain ∈ js) (hcq : cq ∈ js)
    (hinit : c.init o domain cq r = some x) : x.1.Tracks (is ++ x.2.owned ++ js) := by
  have howned : c.owned = [] := owned_eq_nil hinfo hep hav
  unfold RdmCon.init at hinit
  split at hinit
  · refine openEndpoint_tracks hep hav ?_ hdomain hcq hinit
    rwa [howned, List.append_nil]
  rename_i hclient
  rw [Bool.not_eq_true] at hclient
  replace hinit := (Option.ite_none_left_eq_some.mp hinit).2
  cases hr : r.getinfo with
  | false =>
    simp only [hr, getinfo, if_true, Bool.false_eq_true, if_false, Option.some.injEq] at hinit
    subst hinit
    have hfailed : ((o.opened []).close o.made).Tracks (is ++ js) :=
      getinfo_failed (p := none) h false
    simpa [RdmCon.owned, RdmCon.infos, hclient, hinfo hclient, hep, hav] using hfailed
  | true =>
    simp only [hr, getinfo, if_true, Bool.true_eq_false, if_false] at hinit
    have hok : (((o.opened []).opened []).close o.made).Tracks (is ++ (o.made + 1) :: js) :=
      getinfo_ok (p := none) h
    refine openEndpoint_tracks (c := { c with info := some (o.made + 1) }) hep hav ?_ hdomain hcq
      hinit
    simpa [RdmCon.owned, RdmCon.infos, hclient, hep, hav] using hok

/-! ## What stays open -/

/-- Whatever is open stays open, and no pointer comes to lead to it. -/
def Spares (o : OpenObjects) (is : List ℕ) (o' : OpenObjects) (js : List ℕ) : Prop :=
  ∀ i, o.IsOpen i → o'.IsOpen i ∧ (i ∈ js → i ∈ is)

theorem Spares.trans {o' o'' : OpenObjects} {ks : List ℕ} (h : Spares o is o' js)
    (h' : Spares o' js o'' ks) : Spares o is o'' ks := by
  intro i hi
  obtain ⟨hopen, hmem⟩ := h i hi
  obtain ⟨hopen', hmem'⟩ := h' i hopen
  exact ⟨hopen', fun hk => hmem (hmem' hk)⟩

theorem Spares.lost {o' : OpenObjects} (h : Spares o is o' js) (hlost : o.Lost is) :
    o'.Lost js := by
  obtain ⟨i, hopen, hnot⟩ := hlost
  obtain ⟨hopen', hmem⟩ := h i hopen
  exact ⟨i, hopen', fun hi => hnot (hmem hi)⟩

theorem getinfo_spares (o : OpenObjects) (p : Option ℕ) (g : GetInfo) :
    Spares o p.toList (getinfo o p g).1 (getinfo o p g).2.toList := by
  intro i hi
  have hne : i ≠ o.made := hi.1.ne
  cases g with
  | ok =>
    refine ⟨((hi.opened []).opened []).close hne, fun hmem => ?_⟩
    have heq : i = o.made + 1 := by simpa [getinfo] using hmem
    exact absurd hi.1 (by omega)
  | failed cleared =>
    refine ⟨(hi.opened []).close hne, fun hmem => ?_⟩
    cases cleared
    · exact hmem
    · simp [getinfo] at hmem

/-- A new endpoint and a new address vector are all that a connection gets. -/
theorem mem_owned_of {i : ℕ} {ep av : Option ℕ} (hep : ep ≠ some i) (hav : av ≠ some i)
    (h : i ∈ ({ c with ep := ep, av := av } : RdmCon).owned) : i ∈ c.owned := by
  rw [RdmCon.owned, List.mem_append, List.mem_append, Option.mem_toList, Option.mem_toList] at h
  rcases h with (h | h) | h
  · exact List.mem_append_left _ (List.mem_append_left _ h)
  · exact absurd h hep
  · exact absurd h hav

theorem openEndpoint_spares (hav : c.av = none)
    (hopen : c.openEndpoint o domain cq r = some x) : Spares o c.owned x.1 x.2.owned := by
  intro i hi
  have hep : some o.made ≠ some i := by
    have := hi.1
    simp
    omega
  have hav' : some (o.made + 1) ≠ some i := by
    have := hi.1
    simp
    omega
  simp only [RdmCon.openEndpoint] at hopen
  split at hopen
  · cases hopen
    exact ⟨hi, id⟩
  split at hopen
  · cases hopen
    exact ⟨hi.opened _, mem_owned_of hep (by simp [hav])⟩
  split at hopen
  · cases hopen
    exact ⟨(hi.opened _).opened _, mem_owned_of hep hav'⟩
  split at hopen
  · cases hopen
    exact ⟨((hi.opened _).opened _).attach _ _, mem_owned_of hep hav'⟩
  split at hopen
  · simp at hopen
  · cases hopen
    exact ⟨(((hi.opened _).opened _).attach _ _).attach _ _, mem_owned_of hep hav'⟩

theorem init_spares (hinfo : c.is_server = false → c.info = none) (hep : c.ep = none)
    (hav : c.av = none) (hinit : c.init o domain cq r = some x) :
    Spares o [] x.1 x.2.owned := by
  have howned : c.owned = [] := owned_eq_nil hinfo hep hav
  unfold RdmCon.init at hinit
  split at hinit
  · have hspares := openEndpoint_spares hav hinit
    rwa [howned] at hspares
  rename_i hclient
  rw [Bool.not_eq_true] at hclient
  replace hinit := (Option.ite_none_left_eq_some.mp hinit).2
  cases hr : r.getinfo with
  | false =>
    simp only [hr, Bool.false_eq_true, if_false, if_true, Option.some.injEq, hinfo hclient]
      at hinit
    subst hinit
    have howned' : ({ c with info := none } : RdmCon).owned = [] :=
      owned_eq_nil (fun _ => rfl) hep hav
    have hgot := getinfo_spares o none (.failed false)
    intro i hi
    exact ⟨(hgot i hi).1, fun hmem => howned' ▸ hmem⟩
  | true =>
    simp only [hr, if_true, Bool.true_eq_false, if_false] at hinit
    have howned' : ({ c with info := some (o.made + 1) } : RdmCon).owned = [o.made + 1] := by
      simp [RdmCon.owned, RdmCon.infos, hclient, hep, hav]
    have hspares := openEndpoint_spares (c := { c with info := some (o.made + 1) }) hav hinit
    rw [howned'] at hspares
    exact (getinfo_spares o none .ok).trans hspares

/-- From `fi_endpoint` on, the objects are those that `RdmInit` has. -/
theorem openEndpoint_flags {s : RdmInit.State}
    (hhints : ¬ (s.con.is_server = false ∧ r.hints = false))
    (hgot : ¬ (s.con.is_server = false ∧ r.getinfo = false))
    (hserver : s.con.is_server = c.is_server) (hinfo : c.info.isSome = true)
    (hep : s.con.ep = c.ep.isSome) (hav : s.con.av = c.av.isSome) :
    (RdmInit.openEndpoint s r).state?.map (fun t => (t.con.info, t.con.ep, t.con.av)) =
      (c.openEndpoint o domain cq r).map fun x =>
        (x.2.info.isSome, x.2.ep.isSome, x.2.av.isSome) := by
  simp only [RdmInit.openEndpoint, RdmCon.openEndpoint]
  rw [if_neg hhints, if_neg hgot]
  cases r.endpoint with
  | false => simp [RdmInit.InitEnd.state?, hinfo, hep, hav]
  | true =>
    cases r.av_open with
    | false => simp [RdmInit.InitEnd.state?, hinfo, hav]
    | true =>
      cases r.bind_cq with
      | false => simp [RdmInit.InitEnd.state?, hinfo]
      | true =>
        cases r.bind_av with
        | false => simp [RdmInit.InitEnd.state?, hinfo]
        | true =>
          cases r.enable with
          | false => simp [RdmInit.InitEnd.state?, hinfo]
          | true =>
            cases hs : c.is_server with
            | true => simp [RdmInit.InitEnd.state?, hserver, hs, hinfo]
            | false => cases r.inserted <;> simp [RdmInit.InitEnd.state?, hserver, hs, hinfo]

/-- **The objects of a connection are those that `RdmInit` has**, after all of its `init`. -/
theorem init_flags {s : RdmInit.State} (hserver : s.con.is_server = c.is_server)
    (hinfo : s.con.info = c.info.isSome) (hlent : c.is_server = true → c.info.isSome = true)
    (hep : s.con.ep = c.ep.isSome) (hav : s.con.av = c.av.isSome) :
    (RdmInit.openEndpoint s r).state?.map (fun t => (t.con.info, t.con.ep, t.con.av)) =
      (c.init o domain cq r).map fun x => (x.2.info.isSome, x.2.ep.isSome, x.2.av.isSome) := by
  cases hs : c.is_server with
  | true =>
    rw [RdmCon.init, if_pos hs]
    exact openEndpoint_flags (by simp [hserver, hs]) (by simp [hserver, hs]) hserver (hlent hs)
      hep hav
  | false =>
    rw [RdmCon.init, if_neg (by simp [hs])]
    cases hh : r.hints with
    | false => simp [RdmInit.openEndpoint, RdmInit.InitEnd.state?, hserver, hs, hh]
    | true =>
      cases hr : r.getinfo with
      | false => simp [RdmInit.openEndpoint, getinfo, RdmInit.InitEnd.state?, hserver, hs, hh, hr,
          hinfo, hep, hav]
      | true =>
        simp only [if_true, getinfo, Bool.true_eq_false, if_false]
        exact openEndpoint_flags (c := { c with info := some (o.made + 1) }) (by simp [hh])
          (by simp [hr]) hserver rfl hep hav

end

namespace RdmStackWorld

variable {w w' : RdmStackWorld}

/-! ## A stack between two calls -/

/-- What is open is what the pointers lead to; a client has no `server_info`, and a stack without
`info` has nothing. -/
structure Good (w : RdmStackWorld) : Prop where
  tracks : w.objects.Tracks w.pointers
  client : w.is_server = false → w.server_info = none
  empty : w.info = none → w.fabric = none ∧ w.domain = none ∧ w.cq = none ∧
    w.server_info = none ∧ w.cons = []

/-- Something is open that the destructor does not know of. -/
def Damaged (w : RdmStackWorld) : Prop := w.objects.Lost w.pointers

theorem good_construct (is_server : Bool) : (construct is_server).Good := by
  refine ⟨?_, fun _ => rfl, fun _ => ⟨rfl, rfl, rfl, rfl, rfl⟩⟩
  have hpointers : (construct is_server).pointers = [] := by
    cases is_server <;> rfl
  rw [hpointers]
  exact tracks_none_opened

/-- A new connection. -/
theorem connect_good {c : RdmCon} {r : RdmInit.InitReply} (hw : w.Good) (hne : w.info ≠ none)
    (hinfo : c.is_server = false → c.info = none) (hep : c.ep = none) (hav : c.av = none)
    (hcon : w.connect c r = some w') : w'.Good := by
  unfold connect at hcon
  split at hcon
  swap
  · simp at hcon
  rename_i domain cq hdomain hcq
  obtain ⟨x, hx, rfl⟩ := Option.map_eq_some_iff.mp hcon
  have htracks : x.1.Tracks (w.cons.flatMap RdmCon.owned ++ x.2.owned ++ w.own) :=
    init_tracks hinfo hep hav hw.tracks (by simp [own, hdomain]) (by simp [own, hcq]) hx
  refine ⟨?_, hw.client, fun h => absurd h hne⟩
  have hpointers : ({ w with objects := x.1, cons := w.cons ++ [x.2] } : RdmStackWorld).pointers =
      w.cons.flatMap RdmCon.owned ++ x.2.owned ++ w.own := by
    simp [pointers, own]
  rw [hpointers]
  exact htracks

/-- The fabric, the domain and the queue of a stack that has nothing else. -/
theorem openFabric_good {r : StackReply} {k : ℕ} (hw : w.objects.Tracks [k])
    (hinfo : w.info = some k) (hempty : w.fabric = none ∧ w.domain = none ∧ w.cq = none ∧
      w.server_info = none ∧ w.cons = []) : (w.openFabric r).Good := by
  obtain ⟨hfabric, hdomain, hcq, hserver, hcons⟩ := hempty
  have hk : k < w.objects.made := (hw.mem_iff.mp List.mem_cons_self).1
  have h₁ : (w.objects.opened []).Tracks ([k] ++ w.objects.made :: []) :=
    Tracks.opened hw (by simp)
  have h₂ : ((w.objects.opened []).opened [w.objects.made]).Tracks
      ([k] ++ (w.objects.made + 1) :: [w.objects.made]) := by
    refine Tracks.opened h₁ fun q hq => ?_
    obtain rfl := List.mem_singleton.mp hq
    exact ⟨Nat.lt_succ_self _, fun hmem => hk.ne' (List.mem_singleton.mp hmem)⟩
  have h₃ : (((w.objects.opened []).opened [w.objects.made]).opened [w.objects.made + 1]).Tracks
      ([] ++ (w.objects.made + 2) :: [k, w.objects.made + 1, w.objects.made]) := by
    refine Tracks.opened h₂ fun q hq => ?_
    obtain rfl := List.mem_singleton.mp hq
    exact ⟨Nat.lt_succ_self _, List.not_mem_nil⟩
  have hclient : (w.openFabric r).server_info = none := by
    unfold openFabric
    split_ifs <;> exact hserver
  have hkept : (w.openFabric r).info = some k := by
    unfold openFabric
    split_ifs <;> exact hinfo
  refine ⟨?_, fun _ => hclient, fun h => absurd (hkept.symm.trans h) (by simp)⟩
  simp only [openFabric]
  split_ifs
  · simpa [pointers, own, hinfo, hfabric, hdomain, hcq, hserver, hcons] using hw
  · simpa [pointers, own, hinfo, hdomain, hcq, hserver, hcons] using h₁
  · simpa [pointers, own, hinfo, hcq, hserver, hcons] using h₂
  · simpa [pointers, own, hinfo, hserver, hcons] using h₃

theorem setUp_good {r : StackReply} (hw : w.Good) (hguard : Keeps w.info r.getinfo) :
    (w.setUp r).Good := by
  cases hr : r.getinfo with
  | ok =>
    rw [hr] at hguard
    have hinfo : w.info = none := hguard
    obtain ⟨hfabric, hdomain, hcq, hserver, hcons⟩ := hw.empty hinfo
    have htracks := hw.tracks
    have hnil : w.pointers = [] := by
      simp [pointers, own, hinfo, hfabric, hdomain, hcq, hserver, hcons]
    rw [hnil] at htracks
    have hgot : (getinfo w.objects w.info .ok).1.Tracks ([] ++ (w.objects.made + 1) :: []) :=
      getinfo_ok htracks
    simp only [setUp, hr, if_true]
    exact openFabric_good hgot rfl ⟨hfabric, hdomain, hcq, hserver, hcons⟩
  | failed cleared =>
    rw [hr] at hguard
    have hkept : (if cleared then none else w.info) = w.info := by
      cases cleared
      · rfl
      · exact (hguard rfl).symm
    have hgot : (getinfo w.objects w.info (.failed cleared)).1.Tracks w.pointers :=
      getinfo_failed hw.tracks cleared
    simp only [setUp, hr, reduceCtorEq, if_false, getinfo, hkept]
    exact ⟨hgot, hw.client, hw.empty⟩

theorem bind_good {args hints : Bool} {g : GetInfo} {r : RdmInit.InitReply} (hw : w.Good)
    (hguard : w.Guard (.bind args hints g r)) (hbind : w.bind args hints g r = some w') :
    w'.Good := by
  unfold bind at hbind
  split at hbind
  · rw [Option.some.injEq] at hbind
    exact hbind ▸ hw
  rename_i hcalled
  rw [not_or, Bool.not_eq_false, Bool.not_eq_false] at hcalled
  obtain ⟨hkeeps, hserver⟩ := hguard hcalled.1 hcalled.2
  replace hbind := (Option.ite_none_left_eq_some.mp hbind).2
  cases g with
  | failed cleared =>
    simp only [reduceCtorEq, if_false, Option.some.injEq] at hbind
    subst hbind
    have hkept : (if cleared then none else w.server_info) = w.server_info := by
      cases cleared
      · rfl
      · exact (hkeeps rfl).symm
    have hgot : (getinfo w.objects w.server_info (.failed cleared)).1.Tracks w.pointers :=
      getinfo_failed hw.tracks cleared
    simp only [getinfo, hkept]
    exact ⟨hgot, hw.client, hw.empty⟩
  | ok =>
    simp only [if_true] at hbind
    have hnone : w.server_info = none := hkeeps
    have hinfo : w.info ≠ none := by
      intro hinfo
      obtain ⟨-, hdomain, -⟩ := hw.empty hinfo
      simp [connect, hdomain] at hbind
    refine connect_good (w := { w with
      objects := (getinfo w.objects w.server_info .ok).1
      server_info := (getinfo w.objects w.server_info .ok).2 })
      ⟨?_, fun h => ?_, fun h => absurd h hinfo⟩ hinfo (by simp) rfl rfl hbind
    · have hsplit : w.pointers = (w.cons.flatMap RdmCon.owned ++ (w.cq.toList ++ w.info.toList)) ++
          (w.domain.toList ++ w.fabric.toList) := by
        simp [pointers, own, hnone]
      have htracks := hw.tracks
      rw [hsplit] at htracks
      have hgot := getinfo_ok (p := w.server_info) htracks
      simpa [pointers, own, getinfo, hserver rfl] using hgot
    · exact absurd ((hserver rfl).symm.trans h) (by simp)

theorem get_con_good {args : Bool} {r : RdmInit.InitReply} (hw : w.Good)
    (hcon : w.get_con args r = some w') : w'.Good := by
  unfold get_con at hcon
  split at hcon
  · rw [Option.some.injEq] at hcon
    exact hcon ▸ hw
  have hinfo : w.info ≠ none := by
    intro hinfo
    obtain ⟨-, hdomain, -⟩ := hw.empty hinfo
    simp [connect, hdomain] at hcon
  exact connect_good hw hinfo (fun _ => rfl) rfl rfl hcon

/-- **A call that meets the condition** leaves the stack in order. -/
theorem step_good {op : RdmStackOp} (hw : w.Good) (hguard : w.Guard op)
    (hstep : w.step op = some w') : w'.Good := by
  cases op with
  | init r =>
    obtain ⟨-, hstep⟩ := Option.ite_none_left_eq_some.mp hstep
    rw [Option.some.injEq] at hstep
    exact hstep ▸ setUp_good hw hguard
  | bind args hints g r => exact bind_good hw hguard hstep
  | get_con args r => exact get_con_good hw hstep

/-! ## A call that does not meet the condition -/

theorem mem_pointers {i : ℕ} : i ∈ w.pointers ↔ (∃ c ∈ w.cons, i ∈ c.owned) ∨ w.cq = some i ∨
    w.info = some i ∨ (w.is_server = true ∧ w.server_info = some i) ∨ w.domain = some i ∨
      w.fabric = some i := by
  cases hserver : w.is_server
  · simp [pointers, own, hserver]
  · simp [pointers, own, hserver]

theorem connect_spares {c : RdmCon} {r : RdmInit.InitReply}
    (hinfo : c.is_server = false → c.info = none) (hep : c.ep = none) (hav : c.av = none)
    (hcon : w.connect c r = some w') : Spares w.objects w.pointers w'.objects w'.pointers := by
  unfold connect at hcon
  split at hcon
  swap
  · simp at hcon
  obtain ⟨x, hx, rfl⟩ := Option.map_eq_some_iff.mp hcon
  have hspares := init_spares hinfo hep hav hx
  intro i hi
  obtain ⟨hopen, hnot⟩ := hspares i hi
  refine ⟨hopen, fun hmem => ?_⟩
  rw [mem_pointers] at hmem ⊢
  refine hmem.imp_left fun ⟨d, hd, hid⟩ => ?_
  rcases List.mem_append.mp hd with hd | hd
  · exact ⟨d, hd, hid⟩
  · rw [List.mem_singleton] at hd
    subst hd
    exact absurd (hnot hid) List.not_mem_nil

theorem openFabric_spares (w : RdmStackWorld) (r : StackReply) :
    Spares w.objects w.pointers (w.openFabric r).objects (w.openFabric r).pointers := by
  intro i hi
  have h₀ : w.objects.made ≠ i := hi.1.ne'
  have h₁ : w.objects.made + 1 ≠ i := by
    have := hi.1
    omega
  have h₂ : w.objects.made + 2 ≠ i := by
    have := hi.1
    omega
  rw [mem_pointers, mem_pointers]
  simp only [openFabric]
  split_ifs
  · exact ⟨hi, id⟩
  · refine ⟨hi.opened _, fun hmem => ?_⟩
    simp only [Option.some.injEq, h₀, or_false] at hmem
    grind
  · refine ⟨(hi.opened _).opened _, fun hmem => ?_⟩
    simp only [made_opened, Option.some.injEq, h₀, h₁, or_false] at hmem
    grind
  · refine ⟨((hi.opened _).opened _).opened _, fun hmem => ?_⟩
    simp only [made_opened, Option.some.injEq, h₀, h₁, h₂, or_false, false_or] at hmem
    grind

/-- `fi_getinfo` into `info` or `server_info`. -/
theorem set_info_spares (w : RdmStackWorld) (g : GetInfo) :
    Spares w.objects w.pointers (getinfo w.objects w.info g).1
      ({ w with info := (getinfo w.objects w.info g).2 } : RdmStackWorld).pointers := by
  intro i hi
  obtain ⟨hopen, hmem⟩ := getinfo_spares w.objects w.info g i hi
  rw [Option.mem_toList, Option.mem_toList] at hmem
  refine ⟨hopen, fun hi' => ?_⟩
  rw [mem_pointers] at hi' ⊢
  exact hi'.imp_right fun h => h.imp_right fun h => h.imp_left hmem

theorem set_server_info_spares (w : RdmStackWorld) (g : GetInfo) :
    Spares w.objects w.pointers (getinfo w.objects w.server_info g).1
      ({ w with server_info := (getinfo w.objects w.server_info g).2 } :
        RdmStackWorld).pointers := by
  intro i hi
  obtain ⟨hopen, hmem⟩ := getinfo_spares w.objects w.server_info g i hi
  rw [Option.mem_toList, Option.mem_toList] at hmem
  refine ⟨hopen, fun hi' => ?_⟩
  rw [mem_pointers] at hi' ⊢
  exact hi'.imp_right fun h => h.imp_right fun h => h.imp_right fun h =>
    h.imp_left fun ⟨hserver, h⟩ => ⟨hserver, hmem h⟩

/-- From where `init` has its `info` on. -/
theorem setUp_after_spares (w : RdmStackWorld) (r : StackReply) :
    Spares (getinfo w.objects w.info r.getinfo).1
      ({ w with info := (getinfo w.objects w.info r.getinfo).2 } : RdmStackWorld).pointers
      (w.setUp r).objects (w.setUp r).pointers := by
  simp only [setUp]
  split
  · exact openFabric_spares { w with
      info := (getinfo w.objects w.info r.getinfo).2
      objects := (getinfo w.objects w.info r.getinfo).1 } r
  · exact fun i hi => ⟨hi, id⟩

/-- From where `bind` has its `server_info` on. -/
theorem bind_after_spares {args hints : Bool} {g : GetInfo} {r : RdmInit.InitReply}
    (hinit : w.initialized = true) (hargs : args = true) (hbind : w.bind args hints g r = some w') :
    Spares (getinfo w.objects w.server_info g).1
      ({ w with server_info := (getinfo w.objects w.server_info g).2 } : RdmStackWorld).pointers
      w'.objects w'.pointers := by
  rw [bind, if_neg (by simp [hinit, hargs])] at hbind
  replace hbind := (Option.ite_none_left_eq_some.mp hbind).2
  simp only at hbind
  split at hbind
  · exact connect_spares (w := { w with
      server_info := (getinfo w.objects w.server_info g).2
      objects := (getinfo w.objects w.server_info g).1 }) (by simp) rfl rfl hbind
  · rw [Option.some.injEq] at hbind
    subst hbind
    exact fun i hi => ⟨hi, id⟩

/-- **What is lost stays lost**, whatever is called. -/
theorem step_damaged {op : RdmStackOp} (hw : w.Damaged) (hstep : w.step op = some w') :
    w'.Damaged := by
  cases op with
  | init r =>
    obtain ⟨-, hstep⟩ := Option.ite_none_left_eq_some.mp hstep
    cases hstep
    exact ((w.set_info_spares r.getinfo).trans (w.setUp_after_spares r)).lost hw
  | bind args hints g r =>
    by_cases hcalled : w.initialized = false ∨ args = false
    · rw [step, bind, if_pos hcalled, Option.some.injEq] at hstep
      exact hstep ▸ hw
    · rw [not_or, Bool.not_eq_false, Bool.not_eq_false] at hcalled
      exact ((w.set_server_info_spares g).trans
        (bind_after_spares hcalled.1 hcalled.2 hstep)).lost hw
  | get_con args r =>
    rw [step, get_con] at hstep
    split at hstep
    · rw [Option.some.injEq] at hstep
      exact hstep ▸ hw
    · exact (connect_spares (fun _ => rfl) rfl rfl hstep).lost hw

/-- A pointer that `fi_getinfo` does not keep leads somewhere else afterwards. -/
theorem eq_some_of_not_keeps {o : OpenObjects} {p : Option ℕ} {g : GetInfo} (h : ¬ Keeps p g) :
    ∃ k, p = some k ∧ (o.IsOpen k → (getinfo o p g).2 ≠ some k) := by
  cases p with
  | none => cases g <;> simp [Keeps] at h
  | some k =>
    refine ⟨k, rfl, fun hk => ?_⟩
    cases g with
    | ok =>
      have := hk.1
      simp [getinfo]
      omega
    | failed cleared =>
      have hcleared : cleared = true := by simpa [Keeps] using h
      simp [getinfo, hcleared]

theorem pointers_info (w : RdmStackWorld) : w.pointers.Perm
    (w.info.toList ++ ({ w with info := none } : RdmStackWorld).pointers) := by
  refine List.perm_iff_count.mpr fun a => ?_
  simp only [pointers, own, List.count_append, Option.toList_none, List.count_nil]
  omega

theorem pointers_server_info (hserver : w.is_server = true) : w.pointers.Perm
    (w.server_info.toList ++ ({ w with server_info := none } : RdmStackWorld).pointers) := by
  refine List.perm_iff_count.mpr fun a => ?_
  simp only [pointers, own, hserver, if_true, List.count_append, Option.toList_none, List.count_nil]
  omega

/-- What a pointer led to is lost when `fi_getinfo` does not keep it. -/
theorem lost_of_not_keeps {o : OpenObjects} {p : Option ℕ} {g : GetInfo} {is js others : List ℕ}
    (h : o.Tracks is) (his : is.Perm (p.toList ++ others)) (hkeeps : ¬ Keeps p g)
    (hjs : js.Perm ((getinfo o p g).2.toList ++ others)) : (getinfo o p g).1.Lost js := by
  obtain ⟨k, rfl, hne⟩ := eq_some_of_not_keeps (o := o) hkeeps
  have hnodup : (k :: others).Nodup := his.nodup (List.nodup_append.mp h.nodup).2.1
  have hopen : o.IsOpen k := h.mem_iff.mp (his.mem_iff.mpr List.mem_cons_self)
  refine ⟨k, (getinfo_spares o (some k) g k hopen).1, fun hk => ?_⟩
  rcases List.mem_append.mp (hjs.mem_iff.mp hk) with hk | hk
  · exact hne hopen (Option.mem_toList.mp hk)
  · exact hnodup.notMem hk

/-- A client has no use for a `server_info`. -/
theorem lost_of_client (hw : w.Good) (hclient : w.is_server = false) :
    (getinfo w.objects w.server_info .ok).1.Lost
      ({ w with server_info := (getinfo w.objects w.server_info .ok).2 } :
        RdmStackWorld).pointers := by
  have hsame : ({ w with server_info := (getinfo w.objects w.server_info .ok).2 } :
      RdmStackWorld).pointers = w.pointers := by
    simp [pointers, own, hclient]
  have htracks : (getinfo w.objects w.server_info .ok).1.Tracks
      ([] ++ (w.objects.made + 1) :: w.pointers) := getinfo_ok hw.tracks
  rw [hsame]
  refine ⟨w.objects.made + 1, htracks.mem_iff.mp List.mem_cons_self, fun hmem => ?_⟩
  exact absurd (hw.tracks.mem_iff.mp hmem).1 (by omega)

/-- **A call that does not meet the condition** loses something. -/
theorem step_lost {op : RdmStackOp} (hw : w.Good) (hguard : ¬ w.Guard op)
    (hstep : w.step op = some w') : w'.Damaged := by
  cases op with
  | init r =>
    obtain ⟨-, hstep⟩ := Option.ite_none_left_eq_some.mp hstep
    cases hstep
    refine (w.setUp_after_spares r).lost ?_
    exact lost_of_not_keeps hw.tracks w.pointers_info hguard (pointers_info _)
  | bind args hints g r =>
    have hcalled : w.initialized = true ∧ args = true := by
      by_contra hnot
      exact hguard fun h₁ h₂ => absurd ⟨h₁, h₂⟩ hnot
    refine (bind_after_spares hcalled.1 hcalled.2 hstep).lost ?_
    by_cases hserver : w.is_server = true
    · have hkeeps : ¬ Keeps w.server_info g := fun h => hguard fun _ _ => ⟨h, fun _ => hserver⟩
      exact lost_of_not_keeps hw.tracks (pointers_server_info hserver) hkeeps
        (pointers_server_info hserver)
    · rw [Bool.not_eq_true] at hserver
      have hnone := hw.client hserver
      have hok : g = .ok := by
        by_contra hne
        refine hguard fun _ _ => ⟨?_, fun h => absurd h hne⟩
        cases g <;> simp [Keeps, hnone]
      exact hok ▸ lost_of_client hw hserver
  | get_con args r => exact absurd trivial hguard

/-- A call makes one connection at most. -/
theorem length_step {op : RdmStackOp} (hstep : w.step op = some w') :
    w'.cons.length = w.cons.length ∨ w'.cons.length = w.cons.length + 1 := by
  have hconnect : ∀ {s t : RdmStackWorld} {c : RdmCon} {r : RdmInit.InitReply},
      s.connect c r = some t → t.cons.length = s.cons.length + 1 := by
    intro s t c r hcon
    unfold connect at hcon
    split at hcon
    · obtain ⟨x, -, rfl⟩ := Option.map_eq_some_iff.mp hcon
      exact List.length_append
    · cases hcon
  cases op with
  | init r =>
    obtain ⟨-, hstep⟩ := Option.ite_none_left_eq_some.mp hstep
    cases hstep
    refine Or.inl ?_
    simp only [setUp, openFabric]
    split_ifs <;> rfl
  | bind args hints g r =>
    rw [step, bind] at hstep
    split at hstep
    · cases hstep
      exact Or.inl rfl
    · replace hstep := (Option.ite_none_left_eq_some.mp hstep).2
      simp only at hstep
      split at hstep
      · have hlength := hconnect hstep
        exact Or.inr hlength
      · cases hstep
        exact Or.inl rfl
  | get_con args r =>
    rw [step, get_con] at hstep
    split at hstep
    · cases hstep
      exact Or.inl rfl
    · exact Or.inr (hconnect hstep)

/-! ## The end -/

theorem Good.destroy (hw : w.Good) : w.destroy.ClosedOnce := by
  have htracks := hw.tracks
  rw [← List.append_nil w.pointers] at htracks
  rw [destroy_eq]
  exact htracks.closeAll.closedOnce

theorem Damaged.destroy (hw : w.Damaged) : ¬ w.destroy.ClosedOnce := by
  rw [destroy_eq]
  exact (Lost.closeAll hw).not_closedOnce

end RdmStackWorld

end Hpnl
