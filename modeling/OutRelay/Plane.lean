import Mathlib.Data.Vector.Basic
import OutRelay.GoMap
import OutRelay.GoString

/-!
# The forwarding plane

Package `forward` is the relay's mini-TURN data plane. An agent that owns an
*allocation* sends datagrams to the plane's UDP socket, prefixed with the
allocation id of its peer; the plane strips the prefix and writes the payload
to the address registered for that id.

An allocation is issued to a URI (`Plane.allocate`) and has no address yet.
The address is bound by a handshake with two halves that race each other: the
owner arms a nonce over its control connection (`Plane.armPending`) and sends
a UDP punch carrying the same nonce (`Plane.register`). Whichever comes first
waits for the other – an armed nonce in `pending`, an early punch in
`queued`.

The plane keeps five tables. `byAlloc` is the authority; `byURI` and `src2id`
are indexes into it, by owner and by bound address; `pending` and `queued`
are the two waiting rooms of the handshake. The operations below are the
methods of `Plane` as the source has them, each one a critical section of
`p.mu`: time is an argument, and where a method ranges over a map the order
is one too.
-/

/-- A point in time, or a duration, in nanoseconds. -/
abbrev Time := Int

/-- An IP address: `netip.Addr` other than its zero value. -/
inductive Addr
  | v4 (bits : BitVec 32)
  | v6 (bits : BitVec 128) (zone : GoString)
  deriving DecidableEq

/-- `netip.AddrPort`. The zero value, which an allocation holds until it is
bound, has no address. -/
structure AddrPort where
  ip : Option Addr
  port : UInt16
  deriving DecidableEq

/-- The zero `AddrPort`. -/
def AddrPort.zero : AddrPort := ⟨none, 0⟩

/-- `AddrPort.IsValid`. -/
def AddrPort.IsValid (a : AddrPort) : Prop := a.ip.isSome = true

instance (a : AddrPort) : Decidable a.IsValid :=
  inferInstanceAs (Decidable (_ = _))

theorem AddrPort.not_isValid_zero : ¬ AddrPort.zero.IsValid := by decide

/-- `DefaultAllocIdleTTL`: 60 s. -/
def defaultAllocIdleTTL : Time := 60000000000

/-- `DefaultPendingTTL`: 5 s. -/
def defaultPendingTTL : Time := 5000000000

/-- `PunchNonceSize`. -/
def punchNonceSize : ℕ := 16

/-- The nonce of a registration, `[PunchNonceSize]byte`. -/
abbrev Nonce := List.Vector UInt8 punchNonceSize

/-- `allocEntry`: who owns an allocation, where it is registered, when it was
last seen alive. -/
structure AllocEntry where
  uri : GoString
  src : AddrPort
  lastSeen : Time
  deriving DecidableEq

/-- `pendingEntry`: a nonce armed over the control plane. -/
structure PendingEntry where
  uri : GoString
  nonce : Nonce
  expires : Time
  deriving DecidableEq

/-- `queuedPunch`: a punch that arrived before its nonce was armed. -/
structure QueuedPunch where
  src : AddrPort
  nonce : Nonce
  expires : Time
  deriving DecidableEq

/-- **The tables of the forwarding plane**, with its allocation counter and
its two timeouts. -/
structure Plane where
  byAlloc : GoMap UInt32 AllocEntry
  byURI : GoMap GoString (Finset UInt32)
  src2id : GoMap AddrPort UInt32
  pending : GoMap UInt32 PendingEntry
  queued : GoMap UInt32 QueuedPunch
  nextID : UInt32
  idleTTL : Time
  pendingTTL : Time
  deriving DecidableEq

/-- `ErrUnknownAlloc` and `ErrOwnerMismatch`. -/
inductive ArmError
  | unknownAlloc
  | ownerMismatch
  deriving DecidableEq

namespace Plane

/-- `NewPlane`, with the timeouts `SetIdleTTL` and `SetPendingTTL` leave. -/
def newPlane (idleTTL pendingTTL : Time) : Plane :=
  ⟨∅, ∅, ∅, ∅, ∅, 0, idleTTL, pendingTTL⟩

/-- The time-to-live of a waiting handshake half. -/
def ttl (p : Plane) : Time :=
  if p.pendingTTL ≤ 0 then defaultPendingTTL else p.pendingTTL

/-! ## Binding an address -/

/-- The binding step, shared by the two paths of the handshake: move
allocation `id` to `src` unless it is there already, and mark it seen. The
index is dropped *by address*. -/
def rebind (p : Plane) (id : UInt32) (entry : AllocEntry) (src : AddrPort)
    (now : Time) : Plane :=
  if entry.src ≠ src then
    { p with
      byAlloc := p.byAlloc.set id { entry with src := src, lastSeen := now }
      src2id := (if entry.src.IsValid then p.src2id.del entry.src
        else p.src2id).set src id }
  else
    { p with byAlloc := p.byAlloc.set id { entry with lastSeen := now } }

/-- `Plane.ArmPending`. A punch that was queued is used up whatever its
nonce; if it matches and has not expired it binds at once, and nothing is
armed. -/
def armPending (p : Plane) (allocID : UInt32) (uri : GoString) (nonce : Nonce)
    (now : Time) : Plane × Except ArmError Unit :=
  if uri = [] then (p, .error .ownerMismatch)
  else match p.byAlloc.get allocID with
    | none => (p, .error .unknownAlloc)
    | some entry =>
      if entry.uri ≠ uri then (p, .error .ownerMismatch)
      else
        let armed (p : Plane) : Plane :=
          { p with pending := p.pending.set allocID ⟨uri, nonce, now + p.ttl⟩ }
        match p.queued.get allocID with
        | none => (armed p, .ok ())
        | some q =>
          let p := { p with queued := p.queued.del allocID }
          if now < q.expires ∧ q.nonce = nonce then
            (p.rebind allocID entry q.src now, .ok ())
          else (armed p, .ok ())

/-- `Plane.register`: a punch for `allocID` from `src`. The clock is read
twice, before the lock is taken (`now`) and to test expiry (`now'`). -/
def register (p : Plane) (allocID : UInt32) (src : AddrPort) (nonce : Nonce)
    (now now' : Time) : Plane :=
  match p.pending.get allocID with
  | none =>
    -- the punch arrived before `ArmPending`
    { p with queued := p.queued.set allocID ⟨src, nonce, now + p.ttl⟩ }
  | some pend =>
    if pend.expires < now' then { p with pending := p.pending.del allocID }
    else if pend.nonce ≠ nonce then p
    else match p.byAlloc.get allocID with
      | none => { p with pending := p.pending.del allocID }
      | some entry =>
        let p := p.rebind allocID entry src now
        { p with pending := p.pending.del allocID }

/-! ## Issuing and releasing allocations -/

/-- The id loop of `Allocate`: the counter is a `uint32` that wraps, and `0`
is skipped. Two rounds are enough, since the successor of `0` is not `0`. -/
def nextAllocID (n : UInt32) : UInt32 :=
  if n + 1 ≠ 0 then n + 1 else n + 1 + 1

/-- `Plane.Allocate`, and `none` where it panics. -/
def allocate (p : Plane) (uri : GoString) (now : Time) : Option (Plane × UInt32) :=
  if uri = [] then none
  else
    let id := nextAllocID p.nextID
    some ({ p with
      nextID := id
      byAlloc := p.byAlloc.set id ⟨uri, AddrPort.zero, now⟩
      byURI := p.byURI.set uri (insert id ((p.byURI.get uri).getD ∅)) }, id)

/-- Take `id` out of the set of `uri`, and drop the set once it is empty. -/
def dropURI (m : GoMap GoString (Finset UInt32)) (uri : GoString) (id : UInt32) :
    GoMap GoString (Finset UInt32) :=
  match m.get uri with
  | none => m
  | some set => if set.erase id = ∅ then m.del uri else m.set uri (set.erase id)

/-- What `Forget` and `gcOnce` do to a live allocation: it leaves `byAlloc`,
its address leaves `src2id`, its id leaves `byURI`. -/
def release (p : Plane) (id : UInt32) (entry : AllocEntry) : Plane :=
  { p with
    byAlloc := p.byAlloc.del id
    src2id := p.src2id.del entry.src
    byURI := dropURI p.byURI entry.uri id }

/-- Reap the handshake rows of `id`. -/
def reap (p : Plane) (id : UInt32) : Plane :=
  { p with pending := p.pending.del id, queued := p.queued.del id }

/-- `Plane.Forget`. -/
def forget (p : Plane) (id : UInt32) : Plane :=
  match p.byAlloc.get id with
  | none => p.reap id
  | some entry => (p.release id entry).reap id

/-- One round of the loop of `ForgetAgent`, with its count. -/
def forgetAgentRound (acc : Plane × ℕ) (id : UInt32) : Plane × ℕ :=
  match acc.fst.byAlloc.get id with
  | none => acc
  | some entry =>
    ({ acc.fst.reap id with
      byAlloc := acc.fst.byAlloc.del id
      src2id := acc.fst.src2id.del entry.src }, acc.snd + 1)

/-- `Plane.ForgetAgent`, ranging over the owner's set in the order `order`,
with the number of allocations released. -/
def forgetAgent (p : Plane) (uri : GoString) (order : List UInt32) : Plane × ℕ :=
  if uri = [] then (p, 0)
  else match p.byURI.get uri with
    | none => (p, 0)
    | some _ =>
      let acc := order.foldl forgetAgentRound (p, 0)
      ({ acc.fst with byURI := acc.fst.byURI.del uri }, acc.snd)

/-- `order` is one in which `ForgetAgent` may range over the owner's set. -/
def SetOrder (p : Plane) (uri : GoString) (order : List UInt32) : Prop :=
  order.Nodup ∧ order.toFinset = (p.byURI.get uri).getD ∅

instance (p : Plane) (uri : GoString) (order : List UInt32) :
    Decidable (p.SetOrder uri order) :=
  inferInstanceAs (Decidable (_ ∧ _))

/-! ## Idle collection -/

/-- One round of the eviction loop of `gcOnce`. -/
def evictRound (cutoff : Time) (p : Plane) (e : UInt32 × AllocEntry) : Plane :=
  if e.snd.lastSeen < cutoff then (p.release e.fst e.snd).reap e.fst else p

/-- The eviction loop of `gcOnce`. -/
def evictIdle (p : Plane) (now : Time) (order : List (UInt32 × AllocEntry)) : Plane :=
  order.foldl (evictRound (now - p.idleTTL)) p

/-- The sweep of expired handshake rows: delete, in the order given, the rows
whose expiry has passed. -/
def sweep {ν : Type} (expires : ν → Time) (now : Time) (m : GoMap UInt32 ν)
    (order : List (UInt32 × ν)) : GoMap UInt32 ν :=
  m.delAll ((order.filter (fun e => expires e.snd < now)).map Prod.fst)

/-- `Plane.gcOnce`, with the orders of its three loops. -/
def gcOnce (p : Plane) (now : Time) (allocs : List (UInt32 × AllocEntry))
    (pends : List (UInt32 × PendingEntry)) (punches : List (UInt32 × QueuedPunch)) :
    Plane :=
  let p := p.evictIdle now allocs
  { p with
    pending := sweep PendingEntry.expires now p.pending pends
    queued := sweep QueuedPunch.expires now p.queued punches }

/-- The three loops of `gcOnce` each range over the table as they find it. -/
def GCOrders (p : Plane) (now : Time) (allocs : List (UInt32 × AllocEntry))
    (pends : List (UInt32 × PendingEntry)) (punches : List (UInt32 × QueuedPunch)) :
    Prop :=
  p.byAlloc.RangeOrder allocs ∧ (p.evictIdle now allocs).pending.RangeOrder pends ∧
    (p.evictIdle now allocs).queued.RangeOrder punches

instance (p : Plane) (now : Time) (allocs : List (UInt32 × AllocEntry))
    (pends : List (UInt32 × PendingEntry)) (punches : List (UInt32 × QueuedPunch)) :
    Decidable (p.GCOrders now allocs pends punches) :=
  inferInstanceAs (Decidable (_ ∧ _ ∧ _))

end Plane

/-! ## Datagrams -/

/-- `binary.BigEndian.Uint32`. -/
def beUint32 (b₀ b₁ b₂ b₃ : UInt8) : UInt32 :=
  b₃.toUInt32 ||| b₂.toUInt32 <<< 8 ||| b₁.toUInt32 <<< 16 ||| b₀.toUInt32 <<< 24

/-- What the read loop of `Plane.Run` makes of a datagram. -/
inductive Packet
  | short
  | badRegistration
  | punch (myAlloc : UInt32) (nonce : Nonce)
  | data (peerAlloc : UInt32) (payload : List UInt8)
  deriving DecidableEq

/-- The payload of a registration packet: `[my_alloc: u32 BE] [nonce]`, and
anything after the nonce is ignored. -/
def Packet.registration : List UInt8 → Packet
  | b₀ :: b₁ :: b₂ :: b₃ :: rest =>
    if h : punchNonceSize ≤ rest.length then
      .punch (beUint32 b₀ b₁ b₂ b₃)
        ⟨rest.take punchNonceSize, List.length_take_of_le h⟩
    else .badRegistration
  | _ => .badRegistration

/-- The parsing half of the read loop of `Plane.Run`. -/
def Packet.decode : List UInt8 → Packet
  | b₀ :: b₁ :: b₂ :: b₃ :: payload =>
    if beUint32 b₀ b₁ b₂ b₃ = 0 then Packet.registration payload
    else .data (beUint32 b₀ b₁ b₂ b₃) payload
  | _ => .short

/-- A data packet is its payload behind the id of the peer's allocation. -/
theorem Packet.of_decode_data {buf payload : List UInt8} {peerAlloc : UInt32}
    (h : Packet.decode buf = .data peerAlloc payload) :
    ∃ b₀ b₁ b₂ b₃, buf = b₀ :: b₁ :: b₂ :: b₃ :: payload
      ∧ beUint32 b₀ b₁ b₂ b₃ = peerAlloc := by
  unfold Packet.decode at h
  split at h
  · rename_i b₀ b₁ b₂ b₃ rest
    split_ifs at h
    · unfold Packet.registration at h
      split at h
      · split_ifs at h
      · cases h
    · cases h
      exact ⟨b₀, b₁, b₂, b₃, rfl, rfl⟩
  · cases h

namespace Plane

/-- The liveness half of a data packet: the sender, found through the reverse
index, is marked seen. -/
def touch (p : Plane) (src : AddrPort) (now : Time) : Plane :=
  match p.src2id.get src with
  | none => p
  | some senderID =>
    match p.byAlloc.get senderID with
    | none => p
    | some sender =>
      { p with byAlloc := p.byAlloc.set senderID { sender with lastSeen := now } }

/-- A write to the UDP socket. Writing to the zero `AddrPort` fails, and
nothing is sent. -/
def writeTo (dst : AddrPort) (payload : List UInt8) :
    Option (AddrPort × List UInt8) :=
  if dst.IsValid then some (dst, payload) else none

/-- **The body of the read loop of `Plane.Run`**: the plane after a datagram
`buf` from `src`, and the datagram it sends in turn, if any. -/
def recv (p : Plane) (buf : List UInt8) (src : AddrPort) (now now' : Time) :
    Plane × Option (AddrPort × List UInt8) :=
  match Packet.decode buf with
  | .short | .badRegistration => (p, none)
  | .punch myAlloc nonce => (p.register myAlloc src nonce now now', none)
  | .data peerAlloc payload =>
    (p.touch src now,
      (p.byAlloc.get peerAlloc).bind (fun entry => writeTo entry.src payload))

/-- `Plane.OwnerOf`. -/
def ownerOf (p : Plane) (id : UInt32) : Option GoString :=
  (p.byAlloc.get id).map AllocEntry.uri

/-- `Plane.Lookup`: the registered endpoint of an allocation. -/
def lookup (p : Plane) (id : UInt32) : Option AddrPort :=
  (p.byAlloc.get id).map AllocEntry.src

end Plane
