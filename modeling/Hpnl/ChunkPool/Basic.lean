import Hpnl.Chunk

/-!
# The chunk pool

`ChunkPool` (`src/chunk/ChunkMgr.cc`) hands out chunks from `boost::pool`, and
`PoolAllocator::malloc`, which `boost::pool` calls for each new block, numbers
the chunks of the block in the two id maps of the pool's context.

`boost::pool` is not part of the repository.  It appears here through what the
pool relies on: it cuts a block at a stride of the requested size rounded up to
a multiple of 8, asks for 16 bytes more than the chunks need, doubles
`next_size` after each block, retries once with half of it when the allocator
returns null, and hands out chunks that are in its free list.  Which free chunk
that is, where a block lies and what the free-list links in the first word of
free chunks are, is left to the environment: it is an argument of the operation
(`pick`, `MallocReply`, `link`).

* `PoolAllocator.malloc`, `malloc_need_resize`, `ChunkPool.malloc` — growth.
* `ChunkPool.get`, `ChunkPool.get_by_id`, `ChunkPool.reclaim` — the interface.
-/

namespace Hpnl

open MachineInt

/-! ## The allocator -/

/-- `struct ChunkPoolContext`.  `numbered` is not in the source: it counts the
executions of `id++`, so that `id` is its value as an `int`. -/
structure ChunkPoolContext where
  buffer_size : ℤ
  domain : Addr
  id : ℤ
  chunk_to_id_map : StdMap Addr ℤ
  id_to_chunk_map : StdMap ℤ (Addr × Addr)
  numbered : ℕ

/-- What the system answers to one call of `PoolAllocator::malloc`: the memory
`std::malloc` returns (`nullptr` when it has none) and the memory region, if
`fi_mr_reg` succeeds. -/
structure MallocReply where
  memory : Addr
  mr : Option Addr
  deriving DecidableEq, Repr

namespace PoolAllocator

/-- One round of the numbering loop. -/
def number (ctx : ChunkPoolContext) (memory_ptr mr : Addr) : ChunkPoolContext :=
  { ctx with
    chunk_to_id_map := ctx.chunk_to_id_map.assign memory_ptr ctx.id
    id_to_chunk_map := ctx.id_to_chunk_map.assign ctx.id (memory_ptr, mr)
    id := toInt32 (ctx.id + 1)
    numbered := ctx.numbered + 1 }

/-- The numbering loop: `buffer_num` rounds, `chunk_size` bytes apart. -/
def numberAll (mr : Addr) (chunk_size : ℤ) : ℕ → ChunkPoolContext → Addr → ChunkPoolContext
  | 0, ctx, _ => ctx
  | n + 1, ctx, memory_ptr =>
      numberAll mr chunk_size n (number ctx memory_ptr mr) (memory_ptr + chunk_size).toNat

/-- `int chunk_size = chunkPoolContext->buffer_size + sizeof(Chunk)`. -/
def chunk_size (ctx : ChunkPoolContext) : ℤ := toInt32 (ctx.buffer_size + sizeof_Chunk)

/-- `int buffer_num = bytes / chunk_size`, a division of `size_t`s. -/
def buffer_num (ctx : ChunkPoolContext) (bytes : ℕ) : ℤ :=
  toInt32 (bytes / toUInt64 (chunk_size ctx))

/-- `PoolAllocator::malloc`: the block and the context afterwards.  When
`fi_mr_reg` fails the memory is not numbered (and not freed). -/
def malloc (ctx : ChunkPoolContext) (bytes : ℕ) (reply : MallocReply) : ChunkPoolContext × Addr :=
  let numbered := fun mr =>
    (numberAll mr (chunk_size ctx) (buffer_num ctx bytes).toNat ctx reply.memory, reply.memory)
  if ctx.domain ≠ nullptr then
    match reply.mr with
    | none => (ctx, nullptr)
    | some mr => numbered mr
  else numbered nullptr

end PoolAllocator

/-! ## `boost::pool` -/

/-- A `ChunkPool`.  `requested_size`, `next_size`, `store` (the free list) and
`blocks` (each block with the number of chunks cut from it) belong to its base
class `boost::pool`. -/
structure ChunkPool where
  requested_size : ℕ
  next_size : ℕ
  store : List Addr
  blocks : List (Addr × ℕ)
  chunkPoolContext : ChunkPoolContext
  buffer_size : ℕ
  used_buffers : ℕ

namespace ChunkPool

/-- The stride at which `boost::pool` cuts a block; a free chunk has to hold a
pointer. -/
def partition_size (p : ChunkPool) : ℕ := (max p.requested_size 8 + 7) / 8 * 8

/-- The bytes `boost::pool` asks its allocator for. -/
def pod_size (p : ChunkPool) : ℕ := p.next_size * p.partition_size + 16

/-- The chunks of a block. -/
def segregate (p : ChunkPool) (block : Addr) (n : ℕ) : List Addr :=
  (List.range n).map fun i => block + i * p.partition_size

/-- `ck` is a chunk that the pool has cut from one of its blocks. -/
def Cut (p : ChunkPool) (ck : Addr) : Prop := ∃ b ∈ p.blocks, ck ∈ p.segregate b.1 b.2

/-- Enter a new block and its chunks. -/
def add_block (p : ChunkPool) (block : Addr) : ChunkPool :=
  { p with
    store := p.segregate block p.next_size ++ p.store
    blocks := (block, p.next_size) :: p.blocks
    next_size := p.next_size * 2 }

/-- One call of the allocator: the pool with the context as the call left it, and
the block. -/
def callAllocator (p : ChunkPool) (reply : MallocReply) : ChunkPool × Addr :=
  let (ctx, block) := PoolAllocator.malloc p.chunkPoolContext p.pod_size reply
  ({ p with chunkPoolContext := ctx }, block)

/-- `boost::pool::malloc_need_resize`, up to the point where a chunk is taken
from the new block. -/
def malloc_need_resize (p : ChunkPool) (reply retry : MallocReply) : ChunkPool :=
  let (p₁, block) := p.callAllocator reply
  if block ≠ nullptr then p₁.add_block block
  else if 4 < p₁.next_size then
    let (p₂, block₂) := { p₁ with next_size := p₁.next_size / 2 }.callAllocator retry
    if block₂ ≠ nullptr then p₂.add_block block₂ else p₂
  else p₁

/-- `ChunkPool::malloc` before the chunk is taken: the free list is refilled
when it is empty. -/
def refill (p : ChunkPool) (reply retry : MallocReply) : ChunkPool :=
  if p.store = [] then p.malloc_need_resize reply retry else p

/-- `ChunkPool::malloc`: `pick` is the free chunk that `boost::pool` hands out,
and the result is `nullptr` when there is none. -/
def malloc (p : ChunkPool) (reply retry : MallocReply) (pick : Addr) : ChunkPool × Addr :=
  let p' := p.refill reply retry
  if p'.store = [] then (p', nullptr) else ({ p' with store := p'.store.erase pick }, pick)

/-! ## The interface -/

/-- `ChunkPool::ChunkPool`, on a service with the fabric domain `domain`
(`nullptr` for no service). -/
def new (domain : Addr) (request_buffer_size next_request_buffer_number : ℤ) : ChunkPool :=
  { requested_size := toUInt64 (request_buffer_size + sizeof_Chunk)
    next_size := toUInt64 next_request_buffer_number
    store := []
    blocks := []
    chunkPoolContext :=
      { buffer_size := toInt32 (toUInt64 request_buffer_size)
        domain := domain
        id := 0
        chunk_to_id_map := ∅
        id_to_chunk_map := ∅
        numbered := 0 }
    buffer_size := toUInt64 request_buffer_size
    used_buffers := 0 }

/-- `ChunkPool::get(int id)`. -/
def get_by_id (p : ChunkPool) (id : ℤ) : Addr :=
  match p.chunkPoolContext.id_to_chunk_map.find? id with
  | none => nullptr
  | some e => e.1

/-- What `get` writes into the header of the chunk it hands out, and into the
pool: both maps are read with `operator[]`. -/
def prepare (p : ChunkPool) (mem : Mem) (ck : Addr) : ChunkPool × Mem :=
  let ctx := p.chunkPoolContext
  let id := ctx.chunk_to_id_map.value ck 0
  let buffer_id := toUInt64 id
  let mr := (ctx.id_to_chunk_map.value (toInt32 buffer_id) (nullptr, nullptr)).2
  ({ p with
      used_buffers := toUInt64 (p.used_buffers + 1)
      chunkPoolContext := { ctx with
        chunk_to_id_map := ctx.chunk_to_id_map.index ck 0
        id_to_chunk_map := ctx.id_to_chunk_map.index (toInt32 buffer_id) (nullptr, nullptr) } },
    Function.update mem ck { mem ck with
      capacity := p.buffer_size
      buffer_id := buffer_id
      mr := mr
      buffer := ck + sizeof_Chunk
      size := 0
      ctx4 := ck })

/-- `ChunkPool::get(Connection*)`, `con` being `none` for a null connection.
The chunk is logged before its header is written.  `none` is the null
dereference when no chunk could be allocated. -/
def get (p : ChunkPool) (mem : Mem) (con : Option ConnectionImpl) (reply retry : MallocReply)
    (pick : Addr) : Option (ChunkPool × Mem × Option ConnectionImpl × Addr) :=
  let (p₁, ck) := p.malloc reply retry pick
  if ck = nullptr then none
  else
    let con' := con.map fun c => c.log_used_chunk mem ck
    let (p₂, mem') := p₁.prepare mem ck
    some (p₂, mem', con', ck)

/-- `ChunkPool::reclaim(ck, con)`; `link` is the free-list link that
`boost::pool` writes into the first word of the chunk. -/
def reclaim (p : ChunkPool) (mem : Mem) (con : ConnectionImpl) (ck : Addr) (link : ℕ) :
    ChunkPool × Mem × ConnectionImpl :=
  ({ p with store := ck :: p.store, used_buffers := toUInt64 (p.used_buffers - 1) },
    Function.update mem ck { mem ck with buffer_id := link },
    con.remove_used_chunk mem ck)

/-- `ChunkPool::free_size`: `INT_MAX`. -/
def free_size (_ : ChunkPool) : ℤ := 2 ^ 31 - 1

end ChunkPool

end Hpnl
