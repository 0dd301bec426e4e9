import Mathlib.Data.List.Basic

/-!
# Calls of member functions

A call names a member of an object of which a static class is known.  The nearest class
that declares the name hides what its bases declare under it, the types of the
arguments select one of the overloads there, and the class that the object really has
decides which body runs: that of the nearest declaration with the same parameters.

* `Classes` — classes with one base at most, and what they declare.
* `overloads`, `resolve`, `dispatch`, `call` — the stages of a call.
* `dispatch_own`, `dispatch_inherited` — a class has its own body for a signature, or
  that of its base.
* `call_inherited` — **what a class declares under other signatures does not matter**
  to a call through its base.
-/

/-- A declaration: the types of the parameters, and a body unless it is pure. -/
structure Member (τ β : Type*) where
  params : List τ
  body : Option β

/-- Classes `κ` with members named by `ν`; `lineage` is a class followed by its bases,
the nearest first, and `converts` says when an argument can be passed for a parameter. -/
structure Classes (κ ν τ β : Type*) where
  lineage : κ → List κ
  declares : κ → ν → List (Member τ β)
  converts : τ → τ → Bool

namespace Classes

variable {κ ν τ β : Type*}

/-- What is declared under a name in the nearest class that declares it. -/
def overloads (C : Classes κ ν τ β) (c : κ) (name : ν) : List (Member τ β) :=
  (((C.lineage c).map fun k => C.declares k name).find? fun ms => !ms.isEmpty).getD []

/-- The arguments can be passed to a member. -/
def viable (C : Classes κ ν τ β) (args params : List τ) : Bool :=
  args.length == params.length && (args.zip params).all fun p => C.converts p.1 p.2

/-- The parameters of the one overload that the arguments can be passed to; nothing
when there is none, or more than one. -/
def resolve (C : Classes κ ν τ β) (c : κ) (name : ν) (args : List τ) : Option (List τ) :=
  match (C.overloads c name).filter fun m => C.viable args m.params with
  | [m] => some m.params
  | _ => none

variable [DecidableEq τ]

/-- The body that an object of class `d` has for a signature. -/
def dispatch (C : Classes κ ν τ β) (d : κ) (name : ν) (params : List τ) : Option β :=
  ((C.lineage d).findSome? fun k =>
    (C.declares k name).find? fun m => m.params = params).bind Member.body

/-- The body that runs for a call through class `c` on an object of class `d`. -/
def call (C : Classes κ ν τ β) (c d : κ) (name : ν) (args : List τ) : Option β :=
  (C.resolve c name args).bind (C.dispatch d name)

variable {C : Classes κ ν τ β} {b d : κ} {name : ν} {params args : List τ} {rest : List κ}

/-- A class runs its own body where it has one. -/
theorem dispatch_own {m : Member τ β} (hline : C.lineage d = d :: rest)
    (hfind : ((C.declares d name).find? fun m => m.params = params) = some m) :
    C.dispatch d name params = m.body := by
  unfold dispatch
  rw [hline, List.findSome?_cons, hfind]
  rfl

/-- Where it has none it runs that of its base. -/
theorem dispatch_inherited (hline : C.lineage d = d :: C.lineage b)
    (hnot : ∀ m ∈ C.declares d name, m.params ≠ params) :
    C.dispatch d name params = C.dispatch b name params := by
  have hfind : ((C.declares d name).find? fun m => m.params = params) = none :=
    List.find?_eq_none.mpr fun m hm => by simpa using hnot m hm
  unfold dispatch
  rw [hline, List.findSome?_cons, hfind]

/-- A call through the base finds the body of the base when the class does not declare
the signature that is called. -/
theorem call_inherited (hline : C.lineage d = d :: C.lineage b)
    (hresolve : C.resolve b name args = some params)
    (hnot : ∀ m ∈ C.declares d name, m.params ≠ params) :
    C.call b d name args = C.call b b name args := by
  unfold call
  rw [hresolve, Option.bind_some, Option.bind_some]
  exact dispatch_inherited hline hnot

end Classes
