import JobDispatch.Error
import JobDispatch.Table

/-!
# Leases

A lease on a key keeps everyone else from the key until it is given back or runs out. A lease that
has run out can be taken over; giving back the old one then has no effect.
-/

namespace JobDispatch

/-- A lease on a key. Each lease that is issued has a serial number of its own. -/
structure Lease where
  key : String
  serial : Nat
  expiresAt : Timestamp
deriving DecidableEq

def Lease.hasRunOut (t : Lease) (now : Timestamp) : Bool := t.expiresAt ≤ now

structure Leases where
  held : Table String Lease
  /-- The number of leases issued so far. -/
  issued : Nat
deriving DecidableEq

namespace Leases

def empty : Leases := ⟨.empty, 0⟩

/-- Takes the lease on a key for `ttl` nanoseconds. -/
def obtain? (l : Leases) (key : String) (ttl : Int) (now : Timestamp) :
    Except DispatchError Lease × Leases :=
  match now.add? ttl with
  | none => (.error (.leaseOutOfRange key), l)
  | some expiresAt =>
    if (l.held.find? key).any fun t => !t.hasRunOut now then (.error (.leaseTaken key), l)
    else
      let lease : Lease := ⟨key, l.issued, expiresAt⟩
      (.ok lease, ⟨l.held.insert key lease, l.issued + 1⟩)

/-- Gives a lease back; tells whether it was the one held. That it ran out does not matter. -/
def release (l : Leases) (lease : Lease) : Bool × Leases :=
  match l.held.find? lease.key with
  | none => (false, l)
  | some held =>
    if held.serial = lease.serial then (true, { l with held := l.held.erase lease.key })
    else (false, l)

end Leases

end JobDispatch
