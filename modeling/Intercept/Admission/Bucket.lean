/-!
# Rate limit buckets

A bucket lets one unit of weight through every `interval` and a burst at once. It keeps one number,
the time at which all that it let through is paid for at the steady rate; a request is let through
while that time, with the request's own cost, is no further ahead than a burst takes. This is the
generic cell rate algorithm of `governor` 0.10 (`Gcra::test_n_all_and_update`): the number is its
theoretical arrival time, which is the present one in a bucket that was never used and is left as it
was by a request that is denied.

* `Quota` is the rate and the burst, `Bucket` the state (`TokenBucket`).
* `Bucket.ask` answers a request and moves the bucket on (`TokenBucket::allow`).

Results:
* `ask_denied`: a denied request leaves the bucket as it was.
* `ask_zero`: a request without weight is let through and leaves the bucket as it was.
-/

namespace Intercept

/-- Nanoseconds in a second. -/
def nanosPerSecond : Nat := 1000000000

/-- Nanoseconds in a millisecond. -/
def nanosPerMilli : Nat := 1000000

/-- How fast a bucket refills and how much it holds. Times are in nanoseconds. -/
structure Quota where
  /-- The time in which one unit of weight comes back. -/
  interval : Nat
  /-- The weight that may pass at once. -/
  burst : Nat
deriving DecidableEq, Repr

namespace Quota

/-- So many units a second, rounded to whole nanoseconds between them (`Quota::per_second` with
`allow_burst`). -/
def perSecond (rate burst : Nat) : Quota := ⟨nanosPerSecond / rate, burst⟩

/-- The time in which a burst comes back. -/
def tolerance (q : Quota) : Nat := q.interval * q.burst

/-- The time in which `burst` units come back at `rate` a second, to the nearest nanosecond. -/
def refill (rate burst : Nat) : Nat := (2 * burst * nanosPerSecond + rate) / (2 * rate)

end Quota

/-- The time at which all that was let through is paid for (`TokenBucket`); `none` until the bucket
is first used. -/
structure Bucket where
  due : Option Nat := none
deriving DecidableEq, Repr

namespace Bucket

/-- Answers a request for `weight` units at time `now` (`TokenBucket::allow`). A weight above the
burst is always denied (`InsufficientCapacity`), another one until the bucket has room for it
(`NotUntil`). -/
def ask (q : Quota) (now weight : Nat) (b : Bucket) : Bool × Bucket :=
  if weight = 0 then (true, b)
  else
    let cost := q.interval * weight
    let due := b.due.getD now
    if q.tolerance < cost then (false, b)
    else if now + q.tolerance < due + cost then (false, b)
    else (true, ⟨some (max due now + cost)⟩)

variable {q : Quota} {now weight : Nat} {b : Bucket}

theorem ask_zero (q : Quota) (now : Nat) (b : Bucket) : b.ask q now 0 = (true, b) := rfl

theorem ask_denied (h : (b.ask q now weight).1 = false) : (b.ask q now weight).2 = b := by
  simp only [ask] at h ⊢
  split at h
  · cases h
  · split at h
    · simp_all
    · split at h <;> simp_all

end Bucket
end Intercept
