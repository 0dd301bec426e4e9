import Hpnl.Lib.MachineInt
import Hpnl.Lib.StdMap

/-!
# Chunks and the connection's record of them

`Chunk` is the header in front of every buffer (`include/HPNL/ChunkMgr.h`); the
memory that holds the headers is a function from addresses.  `ConnectionImpl`
keeps the map `used_chunks` of the chunks a connection has taken
(`src/core/ConnectionImpl.h`): `log_used_chunk` files a chunk under the
`buffer_id` it has *at that moment*, and `remove_used_chunk` erases whatever is
filed under the `buffer_id` it has then.
-/

namespace Hpnl

open MachineInt

/-- An address; `nullptr` is `0`. -/
abbrev Addr := ℕ

/-- The null pointer. -/
abbrev nullptr : Addr := 0

/-- `struct Chunk`, without the field `ptr`, which nothing reads or writes.
`peer_addr` is a `fi_addr_t`, `ctx4` is `ctx.internal[4]`. -/
structure Chunk where
  buffer_id : ℕ := 0
  capacity : ℕ := 0
  size : ℕ := 0
  con : Addr := nullptr
  mr : Addr := nullptr
  ctx4 : Addr := nullptr
  peer_addr : ℕ := 0
  buffer : Addr := nullptr
  deriving DecidableEq, Repr

/-- `sizeof(Chunk)`: fifteen words and the pointer to the data. -/
def sizeof_Chunk : ℕ := 128

/-- The memory, as far as chunk headers go. -/
abbrev Mem := Addr → Chunk

/-- The key under which the `std::map<int, Chunk*>`s file a chunk: its
`buffer_id`, cut to `int`. -/
def Chunk.key (ck : Chunk) : ℤ := toInt32 ck.buffer_id

/-- The part of a connection that the chunk managers work on. -/
structure ConnectionImpl where
  used_chunks : StdMap ℤ Addr := ∅

namespace ConnectionImpl

/-- `used_chunks[ck->buffer_id] = ck`. -/
def log_used_chunk (con : ConnectionImpl) (mem : Mem) (ck : Addr) : ConnectionImpl :=
  { con with used_chunks := con.used_chunks.assign (mem ck).key ck }

/-- `used_chunks.erase(ck->buffer_id)`. -/
def remove_used_chunk (con : ConnectionImpl) (mem : Mem) (ck : Addr) : ConnectionImpl :=
  { con with used_chunks := con.used_chunks.remove (mem ck).key }

end ConnectionImpl

end Hpnl
