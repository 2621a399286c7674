import Intercept.Admission.Registry

/-!
# Buckets that are handed out

A bucket that the registry hands out belongs to both: whoever holds it may ask it at any later time,
and what it lets through then counts for the registry too, but only while it is the bucket that the
registry tracks the host with. A sweep takes buckets from the registry and from nobody else.

* `SharedRegistry`: the buckets, each known by its place among all those ever made, and the places
  that the registry tracks. `registry` is what the registry itself has.
* `limiter` hands out a place, `allow` asks the bucket at one.
-/

namespace Intercept

/-- A registry and all buckets that it ever made (`HostRateLimiter`). -/
structure SharedRegistry where
  quota : Quota
  /-- The time in which a bucket refills completely, in nanoseconds. -/
  refill : Nat
  exempt : List Text
  /-- All buckets, the oldest first. -/
  made : List TrackedHost := []
  /-- The places of the tracked ones. -/
  tracked : List Nat := []
  /-- When the last automatic sweep ran, in milliseconds. -/
  lastSweep : Nat := 0
deriving DecidableEq, Repr

namespace SharedRegistry

open Registry (millis)

/-- A registry that made no bucket yet, as `Registry.ofRate` makes it (`HostRateLimiter::new`). -/
def ofRate (rate : Nat) (burst : Option Nat) (exempt : List Text) : Option SharedRegistry :=
  (Registry.ofRate rate burst exempt).map fun r =>
    { quota := r.quota, refill := r.refill, exempt := r.exempt, lastSweep := r.lastSweep }

/-- What the registry itself has. -/
def registry (s : SharedRegistry) : Registry :=
  { quota := s.quota
    refill := s.refill
    exempt := s.exempt
    hosts := s.tracked.filterMap (s.made[·]?)
    lastSweep := s.lastSweep }

/-- The host of the bucket at a place. -/
def hostAt (s : SharedRegistry) (place : Nat) : Option Text := (s.made[place]?).map (·.host)

/-- Whether a sweep keeps the bucket at a place. -/
def isFresh (s : SharedRegistry) (now : Nat) (place : Nat) : Bool :=
  (s.made[place]?).any (s.registry.isFresh now)

/-- The place of the host's bucket. -/
def find? (s : SharedRegistry) (host : Text) : Option Nat :=
  s.tracked.find? (s.hostAt · = some host)

/-- Makes a bucket for a host that is not tracked yet. -/
def track (s : SharedRegistry) (now : Nat) (host : Text) : SharedRegistry :=
  match s.find? host with
  | some _ => s
  | none =>
    { s with
      made := s.made ++ [⟨host, {}, millis now⟩]
      tracked := s.made.length :: s.tracked }

/-- Drops the buckets that were idle for longer than a refill takes (`HostRateLimiter::purge_idle`).
-/
def purge (s : SharedRegistry) (now : Nat) : SharedRegistry :=
  { s with tracked := s.tracked.filter (s.isFresh now) }

/-- Sweeps when a sweep is due (`HostRateLimiter::maybe_purge`). -/
def sweep (s : SharedRegistry) (now : Nat) : SharedRegistry :=
  if s.registry.sweepDue now then { s.purge now with lastSweep := millis now } else s

/-- The place of the bucket handed out for a host, and the registry afterwards
(`HostRateLimiter::limiter`); an exempt host has none. -/
def limiter (s : SharedRegistry) (now : Nat) (host : Text) : Option Nat × SharedRegistry :=
  if s.exempt.contains host then (none, s)
  else
    let s := s.track now host
    (s.find? host, s.sweep now)

/-- Asks the bucket at a place (`TokenBucket::allow`); `none` when there is none. -/
def allow (s : SharedRegistry) (now place weight : Nat) : Option Bool × SharedRegistry :=
  match s.made[place]? with
  | none => (none, s)
  | some t =>
    let (answer, bucket) := t.bucket.ask s.quota now weight
    (some answer, { s with made := s.made.set place ⟨t.host, bucket, millis now⟩ })

/-- Hands out the host's bucket and asks it; `none` for an exempt host. -/
def ask (s : SharedRegistry) (now : Nat) (host : Text) (weight : Nat) :
    Option Bool × SharedRegistry :=
  match s.limiter now host with
  | (none, s) => (none, s)
  | (some place, s) => s.allow now place weight

end SharedRegistry
end Intercept
