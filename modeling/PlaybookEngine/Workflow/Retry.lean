import PlaybookEngine.Json.Codec
import PlaybookEngine.Time.Span

namespace PlaybookEngine

structure RetryPolicy where
  /-- How many attempts there may be, the first one included. -/
  maxAttempts : Nat
  initialDelay : Span
  maxDelay : Span
  multiplier : Binary64
  deriving DecidableEq

namespace RetryPolicy

def default : RetryPolicy := ⟨3, Span.ofSecs 1, Span.ofSecs 30, .ofNat 2⟩

/-- At least one attempt is made. -/
def make (maxAttempts : Nat) (initialDelay maxDelay : Span) (multiplier : Binary64) : RetryPolicy :=
  ⟨max maxAttempts 1, initialDelay, maxDelay, multiplier⟩

def noRetry : RetryPolicy := { default with maxAttempts := 1 }

/-- Counts are 32-bit words, read as signed exponents. -/
def exponent (count : Nat) : Int :=
  let n : Nat := count % 0x1_0000_0000
  if n < 0x8000_0000 then n else (n : Int) - 0x1_0000_0000

/-- The whole milliseconds before retry number `count`, counted from zero: the initial delay times
the multiplier to the count, but not more than the largest delay. -/
def delayMillis (p : RetryPolicy) (count : Nat) : Nat :=
  let grown := (Binary64.ofNat p.initialDelay.toMillis).mul (p.multiplier.pow (exponent count))
  let capped := grown.min (.ofNat p.maxDelay.toMillis)
  (capped.truncateClamped 0 (0x1_0000_0000_0000_0000 - 1)).toNat

def delay (p : RetryPolicy) (count : Nat) : Span := Span.ofMillis (p.delayMillis count)

/-- Another attempt may follow after `attempts` of them. -/
def allowsAnother (p : RetryPolicy) (attempts : Nat) : Bool := attempts < p.maxAttempts

def encodeSpan (d : Span) : Json :=
  .obj [("nanos", .nat (d % 1000000000)), ("secs", .nat (d / 1000000000))]

/-- Seconds and nanoseconds; nanoseconds carry into seconds, which fit 64 bits. -/
def decodeSpan : Decoder Span := fun v => do
  let fs ← Decoder.closedRecord 2 ["secs", "nanos"] v
  let secs ← Decoder.required "secs" Decoder.nat64 fs
  let nanos ← Decoder.required "nanos" Decoder.nat32 fs
  let d := Span.ofSecs secs + nanos
  if d < 0x1_0000_0000_0000_0000 * 1000000000 then some d else none

def encode (p : RetryPolicy) : Json :=
  .ofObject (Json.entry "max_attempts" (.nat p.maxAttempts)
    ++ Json.entry "initial_delay" (encodeSpan p.initialDelay)
    ++ Json.entry "max_delay" (encodeSpan p.maxDelay)
    ++ Json.entry "multiplier" (.ofBinary64 p.multiplier))

def decode : Decoder RetryPolicy := fun v => do
  let fs ← Decoder.record 4 ["max_attempts", "initial_delay", "max_delay", "multiplier"] v
  some {
    maxAttempts := ← Decoder.required "max_attempts" Decoder.nat32 fs
    initialDelay := ← Decoder.required "initial_delay" decodeSpan fs
    maxDelay := ← Decoder.required "max_delay" decodeSpan fs
    multiplier := ← Decoder.required "multiplier" Decoder.number fs }

end RetryPolicy

end PlaybookEngine
