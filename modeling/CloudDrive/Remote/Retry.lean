import CloudDrive.Config
import CloudDrive.Program

/-!
# Listings with retries

A listing is a read, so it may be tried again. It is after a failure of the service or a request for
fewer calls, with growing waits, until the attempts of the policy are used up.

* `list`: the listing, or the last failure.
-/

namespace CloudDrive.Remote

variable {σ : Type}

/-- A listing at the attempt of this number, with `left` more to come. -/
def listFrom (path : String) (policy : RetryPolicy) (attempt : UInt32) :
    Nat → Program σ (Except Failure Listing)
  | 0 => .call (.list path) .done
  | left + 1 => .call (.list path) fun
    | .ok listing => .done (.ok listing)
    | .error f =>
      if f.isRetryable then
        .sleep (policy.delayAfter attempt) (listFrom path policy (attempt + 1) left)
      else
        .done (.error f)

/-- A listing with the attempts of a policy; one attempt is always made. -/
def list (path : String) (policy : RetryPolicy) : Program σ (Except Failure Listing) :=
  listFrom path policy 1 (policy.maxAttempts.toNat - 1)

end CloudDrive.Remote
