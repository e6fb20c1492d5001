import Mathlib.Algebra.Ring.Nat
import Mathlib.Data.List.MinMax
import Mathlib.Data.Prod.Lex
import OptionChainBackend.Foundation.Table

/-!
The sliding-window rate limiter: `auth.rs`. Every operation on the map of windows or on the atomic
counter is a function of its own; a call is a row of them.
-/
namespace OptionChainBackend
namespace Auth
open Foundation

def rateLimitWindowMs : ℕ := 60000
def maxTrackedKeys : ℕ := 100000
def lruSampleSize : ℕ := 8

structure RateLimitDecision where
  allowed : Bool
  remaining : ℕ
  resetSecs : ℕ
  deriving DecidableEq, Repr

/-- Request timestamps in milliseconds, oldest first. -/
abbrev Window := List ℕ

/-- The start of the window that ends at `now`. -/
def windowStart (now : ℕ) : ℕ := now - rateLimitWindowMs

/-- The timestamps at the front that fell out of the window leave. -/
def prune (start : ℕ) (window : Window) : Window := window.dropWhile (· < start)

/-- `ms.saturating_add(RATE_LIMIT_WINDOW_MS).div_ceil(1000)`. -/
def resetSecs (ms : ℕ) : ℕ := (min (ms + rateLimitWindowMs) (2 ^ 64 - 1) + 999) / 1000

def pruneAndRecord (window : Window) (now start limit : ℕ) : Window × RateLimitDecision :=
  let kept := prune start window
  let allowed := decide (kept.length < limit)
  let kept := if allowed then kept ++ [now] else kept
  (kept,
    { allowed := allowed
      remaining := limit - min kept.length (2 ^ 32 - 1)
      resetSecs := resetSecs (kept.head?.getD now) })

/-- The decision on a new key when no slot could be won. -/
def rejection (now : ℕ) : RateLimitDecision := ⟨false, 0, resetSecs now⟩

/-- A call of `check_and_record_status`, with the clock it read. -/
structure Request where
  key : String
  limit : ℕ
  now : ℕ

structure RateLimiter where
  windows : Table String Window
  tracked : ℕ

namespace RateLimiter

def new : RateLimiter := ⟨∅, 0⟩

/-- The fast path: `get_mut` finds a bucket and the request is recorded in it. -/
def recordIn (l : RateLimiter) (r : Request) : Option (RateLimiter × RateLimitDecision) :=
  (l.windows.lookup r.key).map fun window =>
    let out := pruneAndRecord window r.now (windowStart r.now) r.limit
    ({ l with windows := l.windows.insert r.key out.1 }, out.2)

/-- A new bucket for the key, with the request recorded in it. -/
def createBucket (l : RateLimiter) (r : Request) : RateLimiter × RateLimitDecision :=
  let out := pruneAndRecord [] r.now (windowStart r.now) r.limit
  ({ l with windows := l.windows.insert r.key out.1 }, out.2)

/-- `fetch_update`: one more slot, while there is room. -/
def reserveSlot (l : RateLimiter) : Option RateLimiter :=
  if l.tracked < maxTrackedKeys then some { l with tracked := l.tracked + 1 } else none

/-- `usize::MAX`. -/
def usizeMax : ℕ := 2 ^ 64 - 1

/-- `fetch_sub(1)`, which wraps at 0. -/
def releaseSlot (l : RateLimiter) : RateLimiter :=
  { l with tracked := if l.tracked = 0 then usizeMax else l.tracked - 1 }

/-- `tracked.store(..)`. -/
def storeTracked (l : RateLimiter) (n : ℕ) : RateLimiter := { l with tracked := n }

def removeKey (l : RateLimiter) (key : String) : RateLimiter :=
  { l with windows := l.windows.erase key }

/-- How much of a loss a bucket would be: live, then requests in the window, then the newest. -/
def bucketRank (start : ℕ) (window : Window) : Bool ×ₗ ℕ ×ₗ ℕ :=
  let newest := window.getLast?.getD 0
  toLex (decide (start ≤ newest),
    toLex ((window.reverse.takeWhile fun t => start ≤ t).length, newest))

/-- The victim of `evict_idlest_of_sample` among the entries its iteration meets. -/
def idlest (start : ℕ) (exclude : String) (met : List (String × Window)) : Option String :=
  (((met.filter fun e => e.1 ≠ exclude).take lruSampleSize).argmin fun e =>
    bucketRank start e.2).map Prod.fst

section Shards
variable (shardOf : String → ℕ)

/-- The keys of one shard of the map, counted. -/
def shardLen (l : RateLimiter) (shard : ℕ) : ℕ :=
  (l.windows.keys.filter fun key => shardOf key = shard).length

/-- `retain` in one shard: every bucket is pruned, an empty one leaves. -/
def retainShard (l : RateLimiter) (start shard : ℕ) : RateLimiter :=
  { l with windows := l.windows.retain fun key window =>
      if shardOf key = shard then
        if (prune start window).isEmpty then none else some (prune start window)
      else some window }

end Shards
end RateLimiter
end Auth
end OptionChainBackend
