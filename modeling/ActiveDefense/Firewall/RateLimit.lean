import ActiveDefense.Lib.Table
import ActiveDefense.Rust.Net
import ActiveDefense.Rust.Time
import Mathlib.Algebra.Field.Rat
import Mathlib.Algebra.Order.Ring.Unbundled.Rat

/-!
# The token buckets of the rate limiter

One bucket for each source and rule. The program computes with tokens in `f64`; here the arithmetic
is a parameter, of which the floating-point one and the exact one are instances.
-/

namespace ActiveDefense.Firewall

/-- Numbers that tokens are counted in. -/
class TokenArith (τ : Type) extends One τ, Add τ, Sub τ, Mul τ, Min τ, Max τ, LE τ where
  decLe : DecidableLE τ
  /-- `rate_pps as f64`. -/
  ofU32 : UInt32 → τ
  /-- `Duration::as_secs_f64`. -/
  asSecs : Duration → τ

instance decidableLeTokens {τ : Type} [TokenArith τ] : DecidableLE τ := TokenArith.decLe

/-- The arithmetic of the program. -/
instance : TokenArith Float where
  one := 1
  decLe := inferInstance
  ofU32 n := Float.ofNat n.toNat
  asSecs d := Float.ofNat (d / 10 ^ 9) + Float.ofNat (d % 10 ^ 9) / 1e9

/-- Exact arithmetic. -/
instance : TokenArith ℚ where
  decLe := inferInstance
  ofU32 n := n.toNat
  asSecs d := (d : ℚ) / 10 ^ 9

structure Bucket (τ : Type) where
  tokens : τ
  lastRefill : Instant
deriving DecidableEq

structure RateLimiter (τ : Type) where
  buckets : Table (IpAddr × UInt32) (Bucket τ)

namespace RateLimiter

variable {τ : Type} [TokenArith τ]

/-- `RateLimiter::new`. -/
def new : RateLimiter τ := ⟨∅⟩

/-- `allow`: refills the bucket for the time since its last refill and takes one token if there is
one. -/
def allow (l : RateLimiter τ) (src : IpAddr) (ruleId ratePps : UInt32) (now : Instant) :
    Bool × RateLimiter τ :=
  if ratePps = 0 then (true, l)
  else
    let burst := max (TokenArith.ofU32 ratePps) (1 : τ)
    let bucket := (l.buckets.lookup (src, ruleId)).getD ⟨burst, now⟩
    let elapsed := TokenArith.asSecs (now.durationSince bucket.lastRefill)
    let tokens := min (bucket.tokens + elapsed * TokenArith.ofU32 ratePps) burst
    if 1 ≤ tokens then (true, ⟨l.buckets.insert (src, ruleId) ⟨tokens - 1, now⟩⟩)
    else (false, ⟨l.buckets.insert (src, ruleId) ⟨tokens, now⟩⟩)

/-- `sweep`. -/
def sweep (l : RateLimiter τ) (maxIdle : Duration) (now : Instant) : RateLimiter τ :=
  ⟨l.buckets.retain fun _ b => now.durationSince b.lastRefill < maxIdle⟩

/-- At one packet a second, the second of two packets at once is refused. -/
example : ((new : RateLimiter ℚ).allow (.v4 0) 0 1 7).1 = true ∧
    (((new : RateLimiter ℚ).allow (.v4 0) 0 1 7).2.allow (.v4 0) 0 1 7).1 = false := by
  decide +kernel

end RateLimiter

end ActiveDefense.Firewall
