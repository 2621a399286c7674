import Intercept.Admission.Bucket
import Intercept.Text.Cut

/-!
# Buckets by host

The registry keeps a bucket for every client host that it has seen and is not exempt.

* `limiter` finds a host's bucket or makes one, and then may sweep.
* `purge` drops the buckets that were not asked for longer than a full refill takes.
* `ask` finds a host's bucket and asks it.

Buckets are swept on the way when at least `sweepThreshold` hosts are tracked, and no more than
once in a refill time. Times are nanoseconds since the registry was made; ages are counted in whole
milliseconds.
-/

namespace Intercept

/-- A host's bucket and when it was made or last asked, in milliseconds. -/
structure TrackedHost where
  host : Text
  bucket : Bucket := {}
  lastUsed : Nat
deriving DecidableEq, Repr

/-- The number of tracked hosts at which sweeping starts (`PURGE_THRESHOLD`). -/
def sweepThreshold : Nat := 4096

/-- The buckets of the hosts seen so far (`HostRateLimiter`). -/
structure Registry where
  quota : Quota
  /-- The time in which a bucket refills completely, in nanoseconds. -/
  refill : Nat
  exempt : List Text
  hosts : List TrackedHost := []
  /-- When the last automatic sweep ran, in milliseconds. -/
  lastSweep : Nat := 0

namespace Registry

/-- Milliseconds of a time in nanoseconds. -/
def millis (now : Nat) : Nat := now / nanosPerMilli

/-- A registry for so many requests a second (`HostRateLimiter::new`); `none` when there are to be
none. The burst is the rate itself when it is missing or zero. -/
def ofRate (rate : Nat) (burst : Option Nat) (exempt : List Text) : Option Registry :=
  if rate = 0 then none
  else
    let burst := (burst.filter (· ≠ 0)).getD rate
    some
      { quota := Quota.perSecond rate burst
        refill := Quota.refill rate burst
        exempt := exempt }

/-- Whether a bucket is kept by a sweep: it was used within the last refill time
(`TokenBucket::idle_for`). -/
def isFresh (r : Registry) (now : Nat) (t : TrackedHost) : Bool :=
  (millis now - t.lastUsed) * nanosPerMilli ≤ r.refill

/-- Drops the buckets that were idle for longer than a refill takes (`HostRateLimiter::purge_idle`).
-/
def purge (r : Registry) (now : Nat) : Registry :=
  { r with hosts := r.hosts.filter (r.isFresh now) }

/-- How many buckets `purge` drops (`HostRateLimiter::purge_idle`). -/
def purgeCount (r : Registry) (now : Nat) : Nat := r.hosts.length - (r.purge now).hosts.length

/-- Whether an automatic sweep is due. -/
def sweepDue (r : Registry) (now : Nat) : Bool :=
  sweepThreshold ≤ r.hosts.length && millis r.refill ≤ millis now - r.lastSweep

/-- Sweeps when a sweep is due (`HostRateLimiter::maybe_purge`). -/
def sweep (r : Registry) (now : Nat) : Registry :=
  if r.sweepDue now then { r.purge now with lastSweep := millis now } else r

/-- The host's entry. -/
def find? (r : Registry) (host : Text) : Option TrackedHost := r.hosts.find? (·.host = host)

/-- Starts to track a host that is not tracked yet. -/
def track (r : Registry) (now : Nat) (host : Text) : Registry :=
  match r.find? host with
  | some _ => r
  | none => { r with hosts := ⟨host, {}, millis now⟩ :: r.hosts }

/-- The bucket handed out for a host, and the registry afterwards (`HostRateLimiter::limiter`); an
exempt host has none. -/
def limiter (r : Registry) (now : Nat) (host : Text) : Option TrackedHost × Registry :=
  if host ∈ r.exempt then (none, r)
  else
    let r := r.track now host
    (r.find? host, r.sweep now)

/-- Writes a host's bucket back if the host is still tracked. -/
def update (r : Registry) (t : TrackedHost) : Registry :=
  { r with hosts := r.hosts.map fun u => if u.host = t.host then t else u }

/-- Asks the host's bucket; `none` for an exempt host. -/
def ask (r : Registry) (now : Nat) (host : Text) (weight : Nat) : Option Bool × Registry :=
  match r.limiter now host with
  | (none, r) => (none, r)
  | (some t, r) =>
    let (answer, bucket) := t.bucket.ask r.quota now weight
    (some answer, r.update ⟨t.host, bucket, millis now⟩)

end Registry
end Intercept
