import Hpnl.ChunkMgr
import Hpnl.Lib.Transition

/-!
# Connections and their chunks

`MsgConnection::init` and `RdmConnection::init` post a receive chunk `buffer_num`
times and, for an external service, take a send chunk each time as well.  Traffic
takes and gives back more.  The destructor, which both classes have in common,
reclaims the chunks in `used_chunks` and, for an external service, `send_chunks`.

* `ConnectionWorld.step` — construction, the rounds of `init` one at a time with
  their failures, traffic, and the destructor.
* `freeUsed` — the range-`for` over `used_chunks`, whose body erases from the map
  it iterates over.
-/

namespace Hpnl

/-! ## Connections -/

inductive ConnectionKind where
  | msg
  | rdm
  deriving DecidableEq, Repr

/-- How far `init` has come; `rounds` is what is left of `buffer_num`. -/
inductive InitPhase where
  /-- The endpoint has not been opened. -/
  | opening (rounds : ℕ)
  /-- The next step is the receive chunk of a round. -/
  | recv (rounds : ℕ)
  /-- The next step is the send chunk of a round. -/
  | send (rounds : ℕ)
  /-- `init` has returned 0. -/
  | ready
  /-- `init` has returned -1. -/
  | failed
  deriving DecidableEq, Repr

/-- The head of the loop `while (size < buffer_num)`. -/
def InitPhase.loop : ℕ → InitPhase
  | 0 => ready
  | n + 1 => recv n

/-- A `MsgConnection` or an `RdmConnection`. -/
structure Connection extends ConnectionImpl where
  kind : ConnectionKind
  external_service : Bool
  send_chunks : List Addr := []
  phase : InitPhase

/-- A chunk manager, the memory, the connections that exist, and the ghost `holder`:
the connection that a chunk has been handed out to and not reclaimed from. -/
structure ConnectionWorld where
  mem : Mem
  chunk_mgr : ChunkMgr
  cons : ConId → Option Connection
  holder : Addr → Option ConId

/-- What libfabric answers to `fi_mr_reg`, if it is called, and to `fi_recv`. -/
structure FabricReply where
  mr : Option Addr
  recv : Bool
  deriving DecidableEq, Repr

/-- A step of some connection. -/
inductive ConnectionOp where
  /-- The constructor. -/
  | construct (con : ConId) (kind : ConnectionKind) (external_service : Bool) (buffer_num : ℤ)
  /-- `init` up to `fi_enable`; whether it gets there. -/
  | open (con : ConId) (ok : Bool)
  /-- The receive chunk of a round. -/
  | init_recv (con : ConId) (r : GetReply) (fab : FabricReply)
  /-- The send chunk of a round. -/
  | init_send (con : ConId) (r : GetReply) (fab : FabricReply)
  /-- `get(con)`, by the application or by `activate_recv_chunk`. -/
  | get (con : ConId) (r : GetReply)
  /-- A send: it writes into the header of a chunk. -/
  | send (con : ConId) (ck : Addr) (size : ℕ)
  /-- `reclaim(ck, con)` of a chunk that the connection holds. -/
  | reclaim (con : ConId) (ck : Addr) (link : ℕ)
  /-- The external manager is given a new chunk. -/
  | set_buffer (ck : Addr) (buffer : Chunk)
  /-- The destructor; the links are written into the chunks a pool takes back. -/
  | destroy (con : ConId) (links links' : ℕ → ℕ)

namespace ConnectionWorld

/-- A manager without chunks, and no connections. -/
def init (mem : Mem) (chunk_mgr : ChunkMgr) : ConnectionWorld :=
  { mem := mem
    chunk_mgr := chunk_mgr
    cons := fun _ => none
    holder := fun _ => none }

/-- The connection as it is from now on. -/
def setCon (s : ConnectionWorld) (con : ConId) (c : Connection) : ConnectionWorld :=
  { s with cons := Function.update s.cons con (some c) }

/-- `chunk_mgr->get(this)`: the chunk, or null. -/
def get (s : ConnectionWorld) (con : ConId) (c : Connection) (r : GetReply) :
    Option (ConnectionWorld × Connection × Addr) :=
  if s.chunk_mgr.Answers r then
    (s.chunk_mgr.get s.mem c.toConnectionImpl r).map fun (mgr, mem, impl, ck) =>
      ({ s with
          mem := mem
          chunk_mgr := mgr
          holder := if ck = nullptr then s.holder else Function.update s.holder ck (some con) },
        { c with toConnectionImpl := impl }, ck)
  else none

/-- `chunk_mgr->reclaim(ck, this)`. -/
def reclaim (s : ConnectionWorld) (c : Connection) (ck : Addr) (link : ℕ) :
    ConnectionWorld × Connection :=
  let (mgr, mem, impl) := s.chunk_mgr.reclaim s.mem c.toConnectionImpl ck link
  ({ s with mem := mem, chunk_mgr := mgr, holder := Function.update s.holder ck none },
    { c with toConnectionImpl := impl })

/-- `ck->con = this`, with the memory region of an external service. -/
def stamp (s : ConnectionWorld) (con : ConId) (ck : Addr) (mr : Option Addr) : ConnectionWorld :=
  { s with
    mem := Function.update s.mem ck
      { s.mem ck with con := con, mr := mr.getD (s.mem ck).mr } }

/-! ## `init` -/

/-- The receive chunk of a round of `MsgConnection::init`. -/
def msgRecv (s : ConnectionWorld) (con : ConId) (c : Connection) (n : ℕ) (r : GetReply)
    (fab : FabricReply) : Option ConnectionWorld :=
  (s.get con c r).map fun (s', c', ck) =>
    if ck = nullptr then s'.setCon con { c' with phase := .failed }
    else if c.external_service ∧ fab.mr = none then s'.setCon con { c' with phase := .failed }
    else
      let s'' := s'.stamp con ck (if c.external_service then fab.mr else none)
      if fab.recv = false then s''.setCon con { c' with phase := .failed }
      else s''.setCon con
        { c' with phase := if c.external_service then .send n else InitPhase.loop n }

/-- The send chunk of a round of `MsgConnection::init`. -/
def msgSend (s : ConnectionWorld) (con : ConId) (c : Connection) (n : ℕ) (r : GetReply)
    (fab : FabricReply) : Option ConnectionWorld :=
  (s.get con c r).map fun (s', c', ck) =>
    if ck = nullptr then s'.setCon con { c' with phase := .failed }
    else if fab.mr = none then s'.setCon con { c' with phase := .failed }
    else (s'.stamp con ck fab.mr).setCon con
      { c' with send_chunks := c'.send_chunks ++ [ck], phase := InitPhase.loop n }

/-- The receive chunk of a round of `RdmConnection::init`; a null chunk is
dereferenced. -/
def rdmRecv (s : ConnectionWorld) (con : ConId) (c : Connection) (n : ℕ) (r : GetReply)
    (fab : FabricReply) : Option ConnectionWorld :=
  let next := if c.external_service then .send n else InitPhase.loop n
  if s.chunk_mgr.free_size = 0 then some (s.setCon con { c with phase := next })
  else
    (s.get con c r).bind fun (s', c', ck) =>
      if ck = nullptr then none
      else
        let s'' := s'.stamp con ck none
        if fab.recv = false then some (s''.setCon con { c' with phase := .failed })
        else some (s''.setCon con { c' with phase := next })

/-- The send chunk of a round of `RdmConnection::init`. -/
def rdmSend (s : ConnectionWorld) (con : ConId) (c : Connection) (n : ℕ) (r : GetReply) :
    Option ConnectionWorld :=
  if s.chunk_mgr.free_size = 0 then some (s.setCon con { c with phase := InitPhase.loop n })
  else
    (s.get con c r).bind fun (s', c', ck) =>
      if ck = nullptr then none
      else some (s'.setCon con
        { c' with send_chunks := c'.send_chunks ++ [ck], phase := InitPhase.loop n })

/-! ## The destructor -/

/-- What the destructor leaves: the chunks it has given back, in order, and whether it
has never moved on from an entry that was no longer in the map. -/
structure Teardown where
  world : ConnectionWorld
  con : Connection
  given : List Addr
  valid : Bool

/-- `for (auto ck : used_chunks) chunk_mgr->reclaim(ck.second, this)`.  The list holds
the entries from the current one on as they were in the beginning; those that have
been erased meanwhile are not met.  After the body the loop moves on from the current
entry, which it cannot when that has been erased. -/
def freeUsed : List (ℤ × Addr) → (ℕ → ℕ) → ConnectionWorld → Connection → Teardown
  | [], _, s, c => ⟨s, c, [], true⟩
  | (k, ck) :: rest, links, s, c =>
      if c.used_chunks.has k then
        let (s', c') := s.reclaim c ck (links 0)
        if c'.used_chunks.has k then
          let t := freeUsed rest (fun i => links (i + 1)) s' c'
          { t with given := ck :: t.given }
        else ⟨s', c', [ck], false⟩
      else freeUsed rest links s c

/-- `for (auto ck : send_chunks) chunk_mgr->reclaim(ck, this)`. -/
def freeSend : List Addr → (ℕ → ℕ) → ConnectionWorld → Connection → ConnectionWorld
  | [], _, s, _ => s
  | ck :: rest, links, s, c =>
      let (s', c') := s.reclaim c ck (links 0)
      freeSend rest (fun i => links (i + 1)) s' c'

/-- The chunks in `send_chunks` that the destructor gives back. -/
def sendChunks (c : Connection) : List Addr := if c.external_service then c.send_chunks else []

/-- `~MsgConnection` and `~RdmConnection`, as far as chunks go. -/
def destroy (s : ConnectionWorld) (c : Connection) (links links' : ℕ → ℕ) : Teardown :=
  let t := freeUsed c.used_chunks.entries links s c
  if t.valid then
    { t with
      world := freeSend (sendChunks c) links' t.world t.con
      given := t.given ++ sendChunks c }
  else t

/-! ## Steps -/

/-- One step.  A connection is destroyed when `init` has returned. -/
def step (s : ConnectionWorld) : ConnectionOp → Option ConnectionWorld
  | .construct con kind external_service buffer_num =>
      if con ≠ nullptr ∧ (s.cons con).isNone then
        some (s.setCon con { kind, external_service, phase := .opening buffer_num.toNat })
      else none
  | .open con ok =>
      (s.cons con).bind fun c =>
        match c.phase with
        | .opening n =>
            some (s.setCon con { c with phase := if ok then InitPhase.loop n else .failed })
        | _ => none
  | .init_recv con r fab =>
      (s.cons con).bind fun c =>
        match c.phase, c.kind with
        | .recv n, .msg => s.msgRecv con c n r fab
        | .recv n, .rdm => s.rdmRecv con c n r fab
        | _, _ => none
  | .init_send con r fab =>
      (s.cons con).bind fun c =>
        match c.phase, c.kind with
        | .send n, .msg => s.msgSend con c n r fab
        | .send n, .rdm => s.rdmSend con c n r
        | _, _ => none
  | .get con r =>
      (s.cons con).bind fun c => (s.get con c r).map fun (s', c', _) => s'.setCon con c'
  | .send con ck size =>
      if s.holder ck = some con then
        some { s with mem := Function.update s.mem ck { s.mem ck with con := con, size := size } }
      else none
  | .reclaim con ck link =>
      (s.cons con).bind fun c =>
        if s.holder ck = some con then
          some ((s.reclaim c ck link).1.setCon con (s.reclaim c ck link).2)
        else none
  | .set_buffer ck buffer =>
      if ck ∉ s.chunk_mgr.free ∧ s.holder ck = none then
        (s.chunk_mgr.set_buffer (Function.update s.mem ck buffer) ck).map fun mgr =>
          { s with mem := Function.update s.mem ck buffer, chunk_mgr := mgr }
      else none
  | .destroy con links links' =>
      (s.cons con).bind fun c =>
        if c.phase = .ready ∨ c.phase = .failed then
          some { (s.destroy c links links').world with
            cons := Function.update s.cons con none }
        else none

end ConnectionWorld

end Hpnl
