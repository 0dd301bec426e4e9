import Hpnl.Chunk

/-!
# The epoll set of an event queue demultiplexer

`EqDemultiplexer` and `ExternalEqDemultiplexer` share their use of epoll: the
wait descriptor of an event queue is added with the queue's fid as user data, and
one member `event` serves the calls of `epoll_ctl` and of `epoll_wait` alike.

* `StrayFd` — what the error path closes when `fi_control` has not set `fd`.
* `ctlAdd`, `ctlDel` — the body of `register_event` and `remove_event`, and of the
  epoll part of `add_event` and `delete_event`.
-/

namespace Hpnl

/-- A `fid*`. -/
abbrev Fid := Addr

/-- What the number in the uninitialized `fd` names: the wait descriptor of a queue,
the epoll descriptor, or neither. -/
inductive StrayFd where
  | wait (id : Fid)
  | epfd
  | other
  deriving DecidableEq, Repr

/-- The fids whose wait descriptors are in the set, and `event.data.ptr`. -/
structure Epoll where
  set : Finset Fid := ∅
  event : Fid := nullptr

namespace Epoll

/-- Adding a fid: `control` and `add` say whether `fi_control` and `epoll_ctl`
succeed, the latter never for a descriptor that is there (`EEXIST`).  On failure
the descriptor is closed, which takes it out of the set; when `fi_control` fails
there is none. -/
def ctlAdd (e : Epoll) (control add : Bool) (id : Fid) : Epoll × ℤ :=
  if control = false then (e, -1)
  else if id ∈ e.set ∨ add = false then ({ set := e.set.erase id, event := id }, -1)
  else ({ set := insert id e.set, event := id }, 0)

/-- Removing a fid; `epoll_ctl` fails for one that is not there (`ENOENT`). -/
def ctlDel (e : Epoll) (control del : Bool) (id : Fid) : Epoll × ℤ :=
  if control = false then (e, -1)
  else if id ∉ e.set ∨ del = false then ({ set := e.set.erase id, event := id }, -1)
  else ({ set := e.set.erase id, event := id }, 0)

theorem set_ctlAdd_subset (e : Epoll) (control add : Bool) (id : Fid) :
    (e.ctlAdd control add id).1.set ⊆ insert id e.set := by
  unfold ctlAdd
  split
  · exact Finset.subset_insert _ _
  split
  · exact (Finset.erase_subset _ _).trans (Finset.subset_insert _ _)
  · exact Finset.Subset.rfl

/-- Unless `fi_control` fails, the fid is out of the set afterwards. -/
theorem set_ctlDel (e : Epoll) (del : Bool) (id : Fid) :
    (e.ctlDel true del id).1.set = e.set.erase id := by
  unfold ctlDel
  rw [if_neg (by decide)]
  split <;> rfl

end Epoll

end Hpnl
