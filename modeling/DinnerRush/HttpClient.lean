import DinnerRush.Models
import DinnerRush.Concurrency.Program
import Mathlib.Data.Rat.Init

/-!
# The resilient HTTP client

`drcommon.http_client.ResilientClient.post_json`: retries with a circuit breaker in front. It is
written against the actions of a client (`HttpClient`), so that a service embeds it in its own
effects.

`httpx` either gives a response, raises a timeout or transport error, which `post_json` retries, or
raises something else, which it does not catch. Nor does it catch what `_backoff` raises: the delay
is computed as `2 ** (attempt - 1)` times the base before it is capped, and from the 1025th attempt
on that power is no float.
-/

set_option autoImplicit false
set_option relaxedAutoImplicit false

namespace DinnerRush

open Concurrency

/-- The keys of a JSON answer that a caller looks up, each present or not. -/
structure Json where
  id : Option String := none
  amount : Option ℤ := none
  detail : Option Detail := none
  deriving DecidableEq, Repr

/-- A response: its status, its body, if that is a JSON object, and what `_retry_after` makes of its
`Retry-After`. -/
structure HttpResponse where
  statusCode : ℕ
  json : Option Json := none
  retryAfter : Option ℚ := none
  deriving DecidableEq, Repr

/-! ### The delays -/

def overflowError : Failure := .error "int too large to convert to float"

/-- `_backoff`, without the delay. The power of two is converted to a float before it is capped. -/
def backoff (attempt : ℕ) : Except Failure Unit :=
  if attempt - 1 < 1024 then .ok () else .error overflowError

/-- `_retry_after(resp) or self._backoff(attempt)`: a `Retry-After` of zero is falsy. -/
def retryDelay (attempt : ℕ) (retryAfter : Option ℚ) : Except Failure Unit :=
  match retryAfter with
  | some seconds => if seconds = 0 then backoff attempt else .ok ()
  | none => backoff attempt

theorem backoff_of_le {attempt : ℕ} (h : attempt ≤ 1024) : backoff attempt = .ok () := by
  unfold backoff
  rw [if_pos (by omega)]

theorem backoff_of_lt {attempt : ℕ} (h : 1024 < attempt) :
    backoff attempt = .error overflowError := by
  unfold backoff
  rw [if_neg (by omega)]

theorem backoff_cases (attempt : ℕ) :
    backoff attempt = .ok () ∨ backoff attempt = .error overflowError := by
  rcases Nat.lt_or_ge 1024 attempt with hlate | hsoon
  · exact .inr (backoff_of_lt hlate)
  · exact .inl (backoff_of_le hsoon)

theorem retryDelay_eq_backoff {attempt : ℕ} {retryAfter : Option ℚ}
    (h : retryAfter = none ∨ retryAfter = some 0) :
    retryDelay attempt retryAfter = backoff attempt := by
  rcases h with rfl | rfl
  · rfl
  · simp [retryDelay]

theorem retryDelay_eq_ok {attempt : ℕ} {retryAfter : Option ℚ}
    (h : ¬ (retryAfter = none ∨ retryAfter = some 0)) : retryDelay attempt retryAfter = .ok () := by
  cases retryAfter with
  | none => exact absurd (Or.inl rfl) h
  | some seconds => exact if_neg fun hzero ↦ h (Or.inr (congrArg some hzero))

theorem retryDelay_cases (attempt : ℕ) (retryAfter : Option ℚ) :
    retryDelay attempt retryAfter = .ok () ∨
      retryDelay attempt retryAfter = .error overflowError := by
  by_cases h : retryAfter = none ∨ retryAfter = some 0
  · rw [retryDelay_eq_backoff h]
    exact backoff_cases attempt
  · exact .inl (retryDelay_eq_ok h)

/-! ### The client -/

/-- The actions of a client: the breaker, the post of one payload and the sleep between attempts.
`post` gives the text of a timeout or transport error as a value. -/
structure HttpClient (S : Signature) (π : Type) where
  name : String
  maxRetries : ℤ
  allow : Program S Failure Bool
  recordSuccess : Program S Failure Unit
  recordFailure : Program S Failure Unit
  sleep : Program S Failure Unit
  post : π → Program S Failure (Except String HttpResponse)

namespace HttpClient

variable {S : Signature} {π : Type} (client : HttpClient S π)

/-- The retries are exhausted: one breaker failure for the call. -/
def exhausted (lastExc : String) : Program S Failure Json := do
  client.recordFailure
  .raise (.transientExhausted lastExc)

/-- `resp.json()`. -/
def parse (response : HttpResponse) : Program S Failure Json :=
  match response.json with
  | some json => return json
  | none => .raise (.error "response is not JSON")

/-- `asyncio.sleep` of a delay that may not be there. -/
def pause (delay : Except Failure Unit) (next : Program S Failure Json) :
    Program S Failure Json :=
  match delay with
  | .ok () => do
    client.sleep
    next
  | .error failure => .raise failure

/-- A 5xx, a timeout or a transport error: sleep and try again unless this was the last attempt. -/
def again (attempt left : ℕ) (lastExc : String) (next : Program S Failure Json) :
    Program S Failure Json :=
  if left = 0 then client.exhausted lastExc else client.pause (backoff attempt) next

/-- A 429. The delay is computed before it is known whether there is another attempt. -/
def rateLimited (attempt left : ℕ) (retryAfter : Option ℚ) (next : Program S Failure Json) :
    Program S Failure Json :=
  match retryDelay attempt retryAfter with
  | .ok () => if left = 0 then client.exhausted "rate limited (429)" else client.pause (.ok ()) next
  | .error failure => .raise failure

/-- What an attempt does with the outcome of its post; after it, `left` attempts are left. -/
def react (attempt left : ℕ) (next : Program S Failure Json) :
    Except String HttpResponse → Program S Failure Json
  | .error text => client.again attempt left text next
  | .ok response =>
    if response.statusCode < 300 then do
      client.recordSuccess
      parse response
    else if response.statusCode = 429 then
      client.rateLimited attempt left response.retryAfter next
    else if 500 ≤ response.statusCode then
      client.again attempt left s!"downstream {response.statusCode}" next
    else do
      -- A definitive answer from a healthy downstream: no retry, and no breaker failure.
      client.recordSuccess
      .raise (.permanentError response.statusCode)

/-- The loop of `post_json`: as many attempts from this one on, and what follows the last. -/
def attempts (payload : π) : ℕ → ℕ → Program S Failure Json
  | 0, _ => client.exhausted "exhausted"
  | left + 1, attempt => do
    client.react attempt left (attempts payload left (attempt + 1)) (← client.post payload)

/-- `range(1, attempts + 1)` is empty when `max_retries` is negative. -/
def postJson (payload : π) : Program S Failure Json := do
  if ← client.allow then
    client.attempts payload (client.maxRetries + 1).toNat 1
  else
    .raise (.breakerOpen s!"{client.name} circuit open")

end HttpClient

end DinnerRush
