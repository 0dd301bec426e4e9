import Hpnl.Chunk
import Hpnl.Lib.KeyedCache
import Hpnl.Lib.Transition

/-!
# The peer addresses of an RDM connection

`RdmConnection` (`src/core/RdmConnection.cc`) enters a peer into libfabric's
address vector the first time it is addressed and keeps the handle in
`address_map`, under the string that `fi_av_straddr` renders into a local buffer
of 32 bytes: the first 31 characters of the peer's name.

The addresses and `fi_av_straddr` are parameters, `P` and `straddr`.

* `RdmConnection.init`, `sendTo`, `sendBufTo`, `encode_` — the code.
* `RdmWorld.cache` — `address_map` is a cache filed under a key of its argument.
* `peers_faithful` — **each peer is sent to under its own handle along a run if
  and only if no peer is addressed that shares its first 31 characters with
  another one**; `distinct_of_short` — peers with short names never do.
-/

namespace Hpnl

open MachineInt Transition

/-! ## The code -/

/-- What a send hands to libfabric; its return code is the function's. -/
structure FiSend where
  buffer : Addr
  len : ℤ
  addr : ℕ
  deriving DecidableEq, Repr

/-- The part of an `RdmConnection` that its sends work on.  `dest_addr` is
`info->dest_addr`. -/
structure RdmConnection (P : Type*) where
  self : Addr
  is_server : Bool
  dest_addr : P
  local_name_len : ℕ
  address_map : StdMap (List Char) ℕ
  send_chunks_map : StdMap ℤ Addr

namespace RdmConnection

variable {P : Type*} (straddr : P → List Char)

/-- `char tmp[32]` after `fi_av_straddr`, up to the terminator. -/
def tmp (peer : P) : List Char := (straddr peer).take 31

/-- The lookup that the three sends have in common, with the handle of the peer.
`inserted` is what `fi_av_insert` returns if it is called. -/
def resolve (con : RdmConnection P) (peer : P) (inserted : ℕ) : RdmConnection P × ℕ :=
  match con.address_map.find? (tmp straddr peer) with
  | none =>
      ({ con with address_map := con.address_map.insertNew (tmp straddr peer) inserted }, inserted)
  | some _ =>
      ({ con with address_map := con.address_map.index (tmp straddr peer) 0 },
        con.address_map.value (tmp straddr peer) 0)

/-- The address that `init` enters for a client. -/
def init (con : RdmConnection P) (inserted : ℕ) : RdmConnection P :=
  if con.is_server then con
  else
    { con with address_map := con.address_map.insertNew (tmp straddr con.dest_addr) inserted }

/-- `sendTo`; `none` is the null dereference when `buffer_id` names no send
chunk. -/
def sendTo (con : RdmConnection P) (mem : Mem) (buffer_size buffer_id : ℤ) (peer_name : P)
    (inserted : ℕ) : Option (RdmConnection P × Mem × FiSend) :=
  let ck := con.send_chunks_map.value buffer_id nullptr
  let con := { con with send_chunks_map := con.send_chunks_map.index buffer_id nullptr }
  let (con, addr) := con.resolve straddr peer_name inserted
  if ck = nullptr then none
  else
    let mem := Function.update mem ck { mem ck with peer_addr := addr, ctx4 := ck, con := con.self }
    some (con, mem, { buffer := (mem ck).buffer, len := buffer_size, addr := (mem ck).peer_addr })

/-- `sendBufTo`. -/
def sendBufTo (con : RdmConnection P) (buffer : Addr) (buffer_size : ℤ) (peer_name : P)
    (inserted : ℕ) : RdmConnection P × FiSend :=
  let (con, peer_addr) := con.resolve straddr peer_name inserted
  (con, { buffer := buffer, len := buffer_size, addr := peer_addr })

/-- The local name and the message fit the chunk. -/
def encodes (con : RdmConnection P) (ck : Chunk) (buffer_size : ℤ) : Prop :=
  con.local_name_len ≤ ck.capacity ∧ toUInt64 buffer_size ≤ ck.capacity - con.local_name_len

instance (con : RdmConnection P) (ck : Chunk) (buffer_size : ℤ) :
    Decidable (con.encodes ck buffer_size) :=
  inferInstanceAs (Decidable (_ ∧ _))

/-- `encode_`, as far as the chunk's header goes: nothing is resolved when the
message does not fit. -/
def encode_ (con : RdmConnection P) (mem : Mem) (ck : Addr) (buffer_size : ℤ) (peer_name : P)
    (inserted : ℕ) : RdmConnection P × Mem :=
  let mem := Function.update mem ck { mem ck with ctx4 := ck, con := con.self }
  if con.encodes (mem ck) buffer_size then
    let (con', addr) := con.resolve straddr peer_name inserted
    (con', Function.update mem ck { mem ck with
      size := toUInt64 (buffer_size + con.local_name_len)
      peer_addr := addr })
  else (con, mem)

/-- `encode_` of a message that fits looks its peer up. -/
theorem encode_of_fits {straddr : P → List Char} {con : RdmConnection P} {mem : Mem} {ck : Addr}
    {size : ℤ} (h : con.encodes (mem ck) size) (peer : P) (inserted : ℕ) :
    (con.encode_ straddr mem ck size peer inserted).1 = (con.resolve straddr peer inserted).1 ∧
      ((con.encode_ straddr mem ck size peer inserted).2 ck).peer_addr =
        (con.resolve straddr peer inserted).2 := by
  have h' : con.encodes (Function.update mem ck { mem ck with ctx4 := ck, con := con.self } ck)
      size := by
    rw [Function.update_self]
    exact h
  simp only [encode_]
  rw [if_pos h']
  refine ⟨rfl, ?_⟩
  simp only [Function.update_self]

theorem encode_of_not_fits {straddr : P → List Char} {con : RdmConnection P} {mem : Mem} {ck : Addr}
    {size : ℤ} (h : ¬ con.encodes (mem ck) size) (peer : P) (inserted : ℕ) :
    (con.encode_ straddr mem ck size peer inserted).1 = con := by
  have h' : ¬ con.encodes (Function.update mem ck { mem ck with ctx4 := ck, con := con.self } ck)
      size := by
    rw [Function.update_self]
    exact h
  simp only [encode_]
  rw [if_neg h']

end RdmConnection

/-! ## IPv4 addresses -/

/-- An IPv4 socket address. -/
structure Ipv4 where
  a : ℕ
  b : ℕ
  c : ℕ
  d : ℕ
  port : ℕ
  deriving DecidableEq, Repr

/-- `fi_sockaddr_in://a.b.c.d:port`. -/
def Ipv4.straddr (p : Ipv4) : List Char :=
  "fi_sockaddr_in://".toList ++ Nat.toDigits 10 p.a ++ '.' :: Nat.toDigits 10 p.b ++
    '.' :: Nat.toDigits 10 p.c ++ '.' :: Nat.toDigits 10 p.d ++ ':' :: Nat.toDigits 10 p.port

/-! ## Runs -/

/-- A connection, its chunks and two ghosts: the handles `fi_av_insert` returned,
and the handles the connection used, each with its peer. -/
structure RdmWorld (P : Type*) where
  con : RdmConnection P
  mem : Mem
  asked : List (P × ℕ)
  used : List (P × ℕ)

/-- A send, with what `fi_av_insert` returns if it is called. -/
inductive RdmOp (P : Type*) where
  | sendTo (buffer_size buffer_id : ℤ) (peer_name : P) (inserted : ℕ)
  | sendBufTo (buffer : Addr) (buffer_size : ℤ) (peer_name : P) (inserted : ℕ)
  | encode_ (ck : Addr) (buffer_size : ℤ) (peer_name : P) (inserted : ℕ)

namespace RdmWorld

open RdmConnection

variable {P : Type*} (straddr : P → List Char)

/-- `address_map` with the two ghosts is a cache. -/
def cache (s : RdmWorld P) : KeyedCache P (List Char) ℕ := ⟨s.con.address_map, s.asked, s.used⟩

/-- The handles returned so far, after a lookup. -/
def askedAfter (s : RdmWorld P) (peer : P) (inserted : ℕ) : List (P × ℕ) :=
  match s.con.address_map.find? (tmp straddr peer) with
  | none => (peer, inserted) :: s.asked
  | some _ => s.asked

/-- A connection after `init`; a client has entered the address of its server. -/
def start (con : RdmConnection P) (mem : Mem) (inserted : ℕ) : RdmWorld P :=
  { con := { con with address_map := ∅ }.init straddr inserted
    mem := mem
    asked := if con.is_server then [] else [(con.dest_addr, inserted)]
    used := if con.is_server then [] else [(con.dest_addr, inserted)] }

variable {straddr}

theorem resolve_cache (s : RdmWorld P) (peer : P) (inserted : ℕ) :
    s.cache.resolve (tmp straddr) peer inserted =
      ⟨(s.con.resolve straddr peer inserted).1.address_map, s.askedAfter straddr peer inserted,
        (peer, (s.con.resolve straddr peer inserted).2) :: s.used⟩ := by
  have hmap : s.cache.map = s.con.address_map := rfl
  unfold KeyedCache.resolve RdmConnection.resolve askedAfter
  rw [hmap]
  cases hfind : s.con.address_map.find? (tmp straddr peer) with
  | none => rfl
  | some h =>
    simp only [StdMap.index_of_some 0 hfind, StdMap.value_of_some 0 hfind]
    rfl

theorem inv_start (con : RdmConnection P) (mem : Mem) (inserted : ℕ) :
    (start straddr con mem inserted).cache.Inv (tmp straddr) := by
  by_cases hserver : con.is_server
  · have hstart : (start straddr con mem inserted).cache = ⟨∅, [], []⟩ := by
      simp only [start, cache, RdmConnection.init, if_pos hserver]
    rw [hstart]
    exact KeyedCache.inv_empty
  · have hstart : (start straddr con mem inserted).cache =
        KeyedCache.resolve (tmp straddr) ⟨∅, [], []⟩ con.dest_addr inserted := by
      rw [KeyedCache.resolve, StdMap.find?_empty]
      simp only [start, cache, RdmConnection.init, if_neg hserver]
    rw [hstart]
    refine KeyedCache.inv_resolve KeyedCache.inv_empty ?_ ?_
    · intro _ e he
      exact absurd he List.not_mem_nil
    · intro e he
      exact absurd he List.not_mem_nil

variable [DecidableEq P] (straddr)

instance (c : KeyedCache P (List Char) ℕ) (peer : P) (inserted : ℕ) :
    Decidable (c.Answers (tmp straddr) peer inserted) :=
  inferInstanceAs (Decidable (_ → _))

/-- One send.  `fi_av_insert` answers different peers with different handles. -/
def step (s : RdmWorld P) : RdmOp P → Option (RdmWorld P)
  | .sendTo size id peer inserted =>
      if s.cache.Answers (tmp straddr) peer inserted then
        (s.con.sendTo straddr s.mem size id peer inserted).map fun (con, mem, sent) =>
          { con := con
            mem := mem
            asked := s.askedAfter straddr peer inserted
            used := (peer, sent.addr) :: s.used }
      else none
  | .sendBufTo buffer size peer inserted =>
      if s.cache.Answers (tmp straddr) peer inserted then
        let (con, sent) := s.con.sendBufTo straddr buffer size peer inserted
        some
          { con := con
            mem := s.mem
            asked := s.askedAfter straddr peer inserted
            used := (peer, sent.addr) :: s.used }
      else none
  | .encode_ ck size peer inserted =>
      if ck ≠ nullptr ∧ s.cache.Answers (tmp straddr) peer inserted then
        let (con, mem) := s.con.encode_ straddr s.mem ck size peer inserted
        some
          (if s.con.encodes (s.mem ck) size then
            { con := con
              mem := mem
              asked := s.askedAfter straddr peer inserted
              used := (peer, (mem ck).peer_addr) :: s.used }
          else { s with con := con, mem := mem })
      else none

/-- The peer that a send looks up. -/
def addressed (s : RdmWorld P) : RdmOp P → Option P
  | .sendTo _ _ peer _ => some peer
  | .sendBufTo _ _ peer _ => some peer
  | .encode_ ck size peer _ => if s.con.encodes (s.mem ck) size then some peer else none

/-- Every handle used for a peer was returned by `fi_av_insert` for that very
peer, and two peers never share one. -/
def Faithful (s : RdmWorld P) : Prop := s.cache.Faithful

/-- The peer that is addressed agrees in its first 31 characters with no other
peer addressed before. -/
def Distinct (s : RdmWorld P) (op : RdmOp P) : Prop :=
  ∀ peer, s.addressed op = some peer → s.cache.Separated (tmp straddr) peer

variable {straddr}

/-! ### A send is a lookup of the cache -/

/-- **What a send does to the addresses**: it looks its peer up in the cache, or
nothing. -/
theorem step_cache {s t : RdmWorld P} {op : RdmOp P} (h : s.step straddr op = some t) :
    s.addressed op = none ∧ t.cache = s.cache ∨
      ∃ peer inserted, s.addressed op = some peer ∧ s.cache.Answers (tmp straddr) peer inserted ∧
        t.cache = s.cache.resolve (tmp straddr) peer inserted := by
  cases op with
  | sendTo size id peer inserted =>
    rw [step] at h
    split at h
    swap
    · exact absurd h (by simp)
    rename_i hans
    refine Or.inr ⟨peer, inserted, rfl, hans, ?_⟩
    rw [RdmConnection.sendTo] at h
    by_cases hck : s.con.send_chunks_map.value id nullptr = nullptr
    · simp only [if_pos hck, Option.map_none, reduceCtorEq] at h
    · simp only [if_neg hck, Option.map_some, Option.some.injEq, Function.update_self] at h
      have hmap : s.cache.resolve (tmp straddr) peer inserted = _ := resolve_cache s peer inserted
      rw [hmap, ← h]
      unfold cache RdmConnection.resolve
      cases s.con.address_map.find? (tmp straddr peer) <;> rfl
  | sendBufTo buffer size peer inserted =>
    rw [step] at h
    split at h
    swap
    · exact absurd h (by simp)
    rename_i hans
    refine Or.inr ⟨peer, inserted, rfl, hans, ?_⟩
    rw [Option.some.injEq] at h
    rw [resolve_cache, ← h]
    rfl
  | encode_ ck size peer inserted =>
    rw [step] at h
    split at h
    swap
    · exact absurd h (by simp)
    rename_i hans
    rw [Option.some.injEq] at h
    by_cases hfit : s.con.encodes (s.mem ck) size
    · refine Or.inr ⟨peer, inserted, if_pos hfit, hans.2, ?_⟩
      rw [if_pos hfit] at h
      obtain ⟨hcon, haddr⟩ : (s.con.encode_ straddr s.mem ck size peer inserted).1 = _ ∧ _ = _ :=
        encode_of_fits hfit peer inserted
      rw [resolve_cache, ← hcon, ← haddr, ← h]
      rfl
    · refine Or.inl ⟨if_neg hfit, ?_⟩
      rw [if_neg hfit] at h
      have hcon : (s.con.encode_ straddr s.mem ck size peer inserted).1 = s.con :=
        encode_of_not_fits hfit peer inserted
      rw [← h]
      show (⟨_, s.asked, s.used⟩ : KeyedCache P (List Char) ℕ) = ⟨_, s.asked, s.used⟩
      rw [hcon]

/-- **When peers keep their handles apart.**  Along every run of sends each peer
is sent to under a handle that `fi_av_insert` returned for it, and different peers
under different handles, if and only if every peer that is addressed agrees in its
first 31 characters with no other peer addressed before. -/
theorem peers_faithful (straddr : P → List Char) (con : RdmConnection P) (mem : Mem)
    (inserted : ℕ) (ops : List (RdmOp P)) :
    Always (step straddr) Faithful (start straddr con mem inserted) ops ↔
      Meets (step straddr) (Distinct straddr) (start straddr con mem inserted) ops := by
  refine always_iff_meets (fun (s : RdmWorld P) (h : s.cache.Inv (tmp straddr)) => h.faithful) ?_ ?_
    (inv_start con mem inserted) ops
  · intro s op t h hdist hstep
    rcases step_cache hstep with ⟨-, hcache⟩ | ⟨peer, a, haddr, hans, hcache⟩
    · exact hcache ▸ h
    · rw [hcache]
      exact KeyedCache.inv_resolve h hans (hdist peer haddr)
  · intro s op t h hstep ht peer haddr
    rcases step_cache hstep with ⟨hnone, -⟩ | ⟨peer', a, haddr', hans, hcache⟩
    · rw [hnone] at haddr
      exact absurd haddr (by simp)
    · rw [haddr', Option.some.injEq] at haddr
      subst haddr
      change t.cache.Faithful at ht
      rw [hcache] at ht
      exact KeyedCache.separated_of_faithful h ht

omit [DecidableEq P] in
/-- Peers whose names have at most 31 characters are told apart: a send among such
peers is harmless. -/
theorem distinct_of_short (hinj : Function.Injective straddr) {s : RdmWorld P} {op : RdmOp P}
    (hasked : ∀ e ∈ s.asked, (straddr e.1).length ≤ 31)
    (hpeer : ∀ peer, s.addressed op = some peer → (straddr peer).length ≤ 31) :
    s.Distinct straddr op := by
  intro peer haddr e he hkey
  have he' : e ∈ s.asked := he
  unfold tmp at hkey
  rw [List.take_of_length_le (hasked e he'), List.take_of_length_le (hpeer peer haddr)] at hkey
  exact hinj hkey

/-- `192.168.100.10:12345` and `192.168.100.10:12346` differ in the 37th
character only. -/
theorem peers_confused :
    ¬ Always (step Ipv4.straddr) Faithful
      (start Ipv4.straddr ⟨1, true, ⟨0, 0, 0, 0, 0⟩, 16, ∅, ∅⟩ (fun _ => {}) 0)
      [.sendBufTo 100 8 ⟨192, 168, 100, 10, 12345⟩ 0,
        .sendBufTo 100 8 ⟨192, 168, 100, 10, 12346⟩ 1] := by
  intro h
  have hrun : (run (step Ipv4.straddr)
      (start Ipv4.straddr ⟨1, true, ⟨0, 0, 0, 0, 0⟩, 16, ∅, ∅⟩ (fun _ => {}) 0)
      [.sendBufTo 100 8 ⟨192, 168, 100, 10, 12345⟩ 0,
        .sendBufTo 100 8 ⟨192, 168, 100, 10, 12346⟩ 1]).map (fun t => (t.asked, t.used)) =
      some ([(⟨192, 168, 100, 10, 12345⟩, 0)],
        [(⟨192, 168, 100, 10, 12346⟩, 0), (⟨192, 168, 100, 10, 12345⟩, 0)]) := by
    decide +kernel
  obtain ⟨t, ht, hfields⟩ := Option.map_eq_some_iff.mp hrun
  rw [Prod.mk.injEq] at hfields
  have hused : (⟨192, 168, 100, 10, 12346⟩, 0) ∈ t.used := by
    rw [hfields.2]
    exact List.mem_cons_self
  have hasked := (h.last ht).1 _ hused
  change _ ∈ t.asked at hasked
  rw [hfields.1] at hasked
  exact absurd hasked (by decide)

end RdmWorld

end Hpnl
