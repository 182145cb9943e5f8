import PeerShare.Foundation.HostBytes

/-!
# The lossy link of `lossy_udp.c`

Sender and receiver hand every datagram to this shim, which either drops it or
passes it to `sendto`.  The draw is an exact dyadic rational (53 bits out of
64), so a rational loss rate models the comparison of doubles.
-/

namespace PeerShare
namespace Wire

open Foundation

/-- `lossy_link_t`. -/
structure LossyLink where
  fd : Int
  loss : Rat
  rng : UInt64

/-- `xs64`: the next generator state and the value drawn from it. -/
def xs64 (state : UInt64) : UInt64 × UInt64 :=
  let x := state ^^^ (state >>> 12)
  let x := x ^^^ (x <<< 25)
  let x := x ^^^ (x >>> 27)
  (x, x * 2685821657736338717)

def lossyInit (fd : Int) (loss : Rat) (seed : UInt64) : LossyLink where
  fd := fd
  loss := if loss < 0 then 0 else if 1 < loss then 1 else loss
  rng := if seed ≠ 0 then seed else 88172645463393265

/-- `lossy_send`: the datagram that leaves, if it is not dropped. -/
def lossySend (link : LossyLink) (packet : Bytes) : LossyLink × Option Bytes :=
  let (rng, drawn) := xs64 link.rng
  let u : Rat := (drawn >>> 11).toNat / 2 ^ 53
  ({ link with rng := rng }, if u < link.loss then none else some packet)

end Wire
end PeerShare
