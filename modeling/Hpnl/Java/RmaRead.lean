import Hpnl.Lib.VirtualCall
import Hpnl.MsgStack.RmaBuffers

/-!
# Reading from Java

`Connection.read` hands the id of an RMA buffer to its native method, which calls
`read` of a `ConnectionImpl` with it.  `ConnectionImpl` has two members of that name:
one takes a chunk and is implemented by `MsgConnection`, the other takes an id and
returns -1.

* `connectionClasses` — the members called `read`, class by class.
* `MsgConnection.read`, `Connection.read` — the two ways to read.
* `read_by_id` — which body a call with an id comes to.
* `read_never_same` — **the call from Java never does what the other does**: it returns
  -1, and nothing is read.
-/

namespace Hpnl

open MachineInt

/-! ## The members -/

/-- The classes of a connection. -/
inductive ConnectionClass where
  | Connection
  | ConnectionImpl
  | MsgConnection
  deriving DecidableEq, Repr

inductive ConnectionMember where
  | read
  deriving DecidableEq, Repr

/-- The types of arguments and parameters. -/
inductive CppType where
  | int
  | long
  | uint64_t
  | chunk
  deriving DecidableEq, Repr

/-- The bodies of `read`. -/
inductive ReadBody where
  /-- `return -1;` -/
  | unsupported
  /-- That of `MsgConnection::read`. -/
  | fi_read
  deriving DecidableEq, Repr

/-- `Chunk*, int, uint64_t, uint64_t, uint64_t`. -/
def readChunk : List CppType := [.chunk, .int, .uint64_t, .uint64_t, .uint64_t]

/-- `int, int, uint64_t, uint64_t, uint64_t`. -/
def readId : List CppType := [.int, .int, .uint64_t, .uint64_t, .uint64_t]

/-- What the classes declare.  Integers convert to one another, and to no pointer. -/
def connectionClasses : Classes ConnectionClass ConnectionMember CppType ReadBody where
  lineage
    | .Connection => [.Connection]
    | .ConnectionImpl => [.ConnectionImpl, .Connection]
    | .MsgConnection => [.MsgConnection, .ConnectionImpl, .Connection]
  declares
    | .Connection, .read => [⟨readChunk, none⟩]
    | .ConnectionImpl, .read => [⟨readChunk, none⟩, ⟨readId, some .unsupported⟩]
    | .MsgConnection, .read => [⟨readChunk, some .fi_read⟩]
  converts arg param := (arg = .chunk) == (param = .chunk)

/-- **An id comes to the body that returns -1**, for `MsgConnection` has none of its own
for it. -/
theorem read_by_id :
    connectionClasses.call .ConnectionImpl .MsgConnection .read
      [.int, .int, .long, .long, .long] = some .unsupported := by
  have hresolve : connectionClasses.resolve .ConnectionImpl .read
      [.int, .int, .long, .long, .long] = some readId := by decide
  rw [Classes.call_inherited rfl hresolve (by decide)]
  decide

-- through a `MsgConnection*` the member with the id is hidden, and does not compile
example : connectionClasses.call .MsgConnection .MsgConnection .read
    [.int, .int, .long, .long, .long] = none := by
  decide

/-- A chunk comes to `MsgConnection::read`. -/
theorem read_by_chunk :
    connectionClasses.call .ConnectionImpl .MsgConnection .read readChunk = some .fi_read := by
  have hresolve : connectionClasses.resolve .ConnectionImpl .read readChunk = some readChunk := by
    decide
  unfold Classes.call
  have hfind : ((connectionClasses.declares .MsgConnection .read).find? fun m =>
      m.params = readChunk) = some ⟨readChunk, some .fi_read⟩ := rfl
  rw [hresolve, Option.bind_some, Classes.dispatch_own rfl hfind]

/-! ## The connection -/

/-- The arguments of a `fi_read`, without the source address, which is 0. -/
structure FiRead where
  ep : Addr
  buf : Addr
  len : ℕ
  mr : Addr
  addr : ℕ
  key : ℕ
  context : Addr
  deriving DecidableEq, Repr

/-- An established `MsgConnection` with the registry of its stack, the memory, and the
calls of `fi_read` so far. -/
structure RmaConnection where
  self : Addr
  ep : Addr
  stack : MsgStack.Rma
  mem : Mem
  reads : List FiRead

/-- What comes of a call: the connection, the result, and the texts that are printed. -/
structure ReadOutcome where
  con : RmaConnection
  res : ℤ
  printed : List String

/-- A value that is passed. -/
inductive CppValue where
  | int (v : ℤ)
  | long (v : ℤ)
  | uint64_t (v : ℕ)
  | chunk (ck : Addr)
  deriving DecidableEq, Repr

namespace CppValue

def type : CppValue → CppType
  | int _ => .int
  | long _ => .long
  | uint64_t _ => .uint64_t
  | chunk _ => .chunk

/-- The conversion of an argument to its parameter. -/
def convert : CppType → CppValue → CppValue
  | .uint64_t, int v | .uint64_t, long v => uint64_t (toUInt64 v)
  | _, v => v

end CppValue

/-- A message is printed for a result that is neither 0 nor -11, `-FI_EAGAIN`. -/
def readError (text : String) (res : ℤ) : List String :=
  if res ≠ 0 ∧ res ≠ -11 then [text] else []

/-- `MsgConnection::read`; `res` is what `fi_read` returns. -/
def MsgConnection.read (s : RmaConnection) (ck : Addr) (local_offset : ℤ)
    (len remote_addr remote_key : ℕ) (res : ℤ) : ReadOutcome :=
  { con :=
      { s with
        mem := Function.update s.mem ck { s.mem ck with con := s.self }
        reads := s.reads ++
          [{ ep := s.ep
             buf := toUInt64 ((s.mem ck).buffer + local_offset)
             len := len
             mr := (s.mem ck).mr
             addr := remote_addr
             key := remote_key
             context := ck }] }
    res := res
    printed := readError "fi_read" res }

namespace RmaConnection

/-- A body runs. -/
def run (s : RmaConnection) (res : ℤ) : ReadBody → List CppValue → Option ReadOutcome
  | .unsupported, _ => some { con := s, res := -1, printed := [] }
  | .fi_read, [.chunk ck, .int local_offset, .uint64_t len, .uint64_t addr, .uint64_t key] =>
      some (MsgConnection.read s ck local_offset len addr key res)
  | .fi_read, _ => none

/-- `con->read(…)`, where `con` is a `ConnectionImpl*`. -/
def callRead (s : RmaConnection) (res : ℤ) (args : List CppValue) : Option ReadOutcome :=
  (connectionClasses.resolve .ConnectionImpl .read (args.map CppValue.type)).bind fun params =>
    (connectionClasses.dispatch .MsgConnection .read params).bind fun body =>
      s.run res body (List.zipWith CppValue.convert params args)

/-- `Connection.read` of Java, with its native method. -/
def javaRead (s : RmaConnection) (res : ℤ) (bufferId localOffset : Int32)
    (len remoteAddr remoteMr : Int64) : Option ReadOutcome :=
  (s.callRead res [.int bufferId.toInt, .int localOffset.toInt, .long len.toInt,
    .long remoteAddr.toInt, .long remoteMr.toInt]).map fun o =>
      { o with printed := o.printed ++ readError "message read error" o.res }

/-- The same from C++, with the chunk. -/
def cppRead (s : RmaConnection) (res : ℤ) (ck : Addr) (localOffset : Int32)
    (len remoteAddr remoteMr : Int64) : ReadOutcome :=
  MsgConnection.read s ck localOffset.toInt (toUInt64 len.toInt) (toUInt64 remoteAddr.toInt)
    (toUInt64 remoteMr.toInt) res

/-- An id under which a chunk is registered. -/
structure Buffer (s : RmaConnection) where
  id : Int32
  ck : Addr
  registered : s.stack.rmaChunkMap.find? id.toInt = some ck
  ne_nullptr : ck ≠ nullptr

/-- Reading by id from Java does what reading with the chunk does, and returns what it
returns. -/
def SameRead (s : RmaConnection) (res : ℤ) (b : s.Buffer) (localOffset : Int32)
    (len remoteAddr remoteMr : Int64) : Prop :=
  ∃ o, s.javaRead res b.id localOffset len remoteAddr remoteMr = some o ∧
    o.con = (s.cppRead res b.ck localOffset len remoteAddr remoteMr).con ∧
    o.res = (s.cppRead res b.ck localOffset len remoteAddr remoteMr).res

/-! ## What each does -/

variable (s : RmaConnection) (res : ℤ) (localOffset : Int32) (len remoteAddr remoteMr : Int64)

/-- The call from Java fails, and changes nothing. -/
theorem javaRead_eq (id : Int32) :
    s.javaRead res id localOffset len remoteAddr remoteMr =
      some { con := s, res := -1, printed := ["message read error"] } := by
  obtain ⟨params, hresolve, hdispatch⟩ := Option.bind_eq_some_iff.mp read_by_id
  have hcall : s.callRead res [.int id.toInt, .int localOffset.toInt, .long len.toInt,
      .long remoteAddr.toInt, .long remoteMr.toInt] =
        some { con := s, res := -1, printed := [] } := by
    unfold callRead
    show (connectionClasses.resolve .ConnectionImpl .read
      [.int, .int, .long, .long, .long]).bind _ = _
    rw [hresolve, Option.bind_some, hdispatch]
    rfl
  rw [javaRead, hcall]
  rfl

/-- The same call with a chunk is `MsgConnection::read`. -/
theorem callRead_chunk (ck : Addr) (local_offset : ℤ) (length addr key : ℕ) :
    s.callRead res [.chunk ck, .int local_offset, .uint64_t length, .uint64_t addr,
      .uint64_t key] = some (MsgConnection.read s ck local_offset length addr key res) := by
  obtain ⟨params, hresolve, hdispatch⟩ := Option.bind_eq_some_iff.mp read_by_chunk
  have hparams : params = readChunk := by
    have hchunk : connectionClasses.resolve .ConnectionImpl .read readChunk = some readChunk := by
      decide
    exact Option.some.inj (hresolve.symm.trans hchunk)
  unfold callRead
  show (connectionClasses.resolve .ConnectionImpl .read readChunk).bind _ = _
  rw [hresolve, Option.bind_some, hdispatch, hparams]
  rfl

/-- The other calls `fi_read` once, from the chunk and with the chunk as context. -/
theorem reads_cppRead (ck : Addr) :
    ∃ r, (s.cppRead res ck localOffset len remoteAddr remoteMr).con.reads = s.reads ++ [r] ∧
      r.ep = s.ep ∧ r.context = ck :=
  ⟨_, rfl, rfl, rfl⟩

/-- What does the same has called `fi_read`. -/
theorem reads_of_sameRead {b : s.Buffer}
    (h : s.SameRead res b localOffset len remoteAddr remoteMr) :
    ∃ o, s.javaRead res b.id localOffset len remoteAddr remoteMr = some o ∧
      o.con.reads ≠ s.reads := by
  obtain ⟨o, ho, hcon, -⟩ := h
  obtain ⟨r, hreads, -⟩ := s.reads_cppRead res localOffset len remoteAddr remoteMr b.ck
  refine ⟨o, ho, fun hsame => ?_⟩
  rw [hcon, hreads] at hsame
  exact absurd hsame (by simp)

/-- **Reading from Java is never the same**, whatever is registered and whatever
`fi_read` would return. -/
theorem read_never_same (b : s.Buffer) :
    ¬ s.SameRead res b localOffset len remoteAddr remoteMr := by
  intro h
  obtain ⟨o, ho, hreads⟩ := s.reads_of_sameRead res localOffset len remoteAddr remoteMr h
  rw [javaRead_eq] at ho
  cases ho
  exact hreads rfl

/-- A connection of a stack on which buffer 1 is registered. -/
def single : RmaConnection :=
  { self := 10
    ep := 20
    stack := { initialized := true, rmaChunkMap := (∅ : StdMap ℤ Addr).assign 1 100 }
    mem := fun _ => { buffer_id := 1, capacity := 4096 * 1024, mr := 200, buffer := 300 }
    reads := [] }

/-- That buffer. -/
def single.buffer : single.Buffer :=
  { id := 1
    ck := 100
    registered := StdMap.find?_assign_self _ _ _
    ne_nullptr := by decide }

/-- The read of the test, which is to fill the buffer, returns -1. -/
theorem read_not_same : ¬ single.SameRead 0 single.buffer 0 (4096 * 1024) 400 500 := by
  rintro ⟨o, ho, -, hres⟩
  rw [javaRead_eq] at ho
  cases ho
  exact absurd hres (by decide)

end RmaConnection

end Hpnl
