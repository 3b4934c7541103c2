import PlaybookEngine.Activity.Basic
import PlaybookEngine.Time.Span

namespace PlaybookEngine

/-- A point in time, in nanoseconds. -/
abbrev Instant := Nat

/-- The first point in time that the clock cannot tell: it counts seconds in 63 bits. -/
def Instant.clockEnd : Instant := Span.ofSecs 0x8000_0000_0000_0000

/-- The answer to a request. -/
structure Answer (I : Interface) (W : Type) (r : I.Request) where
  reply : I.Reply r
  /-- When the reply arrives; none when it is there at once. -/
  arrival : Option Instant
  world : W

/-- Answers requests at a point in time, in some state of the world. -/
abbrev Surroundings (I : Interface) (W : Type) := Instant → (r : I.Request) → W → Answer I W r

/-- The end of an activity, or the point in time until which it is blocked and what is left. -/
inductive Pause (I : Interface) (α : Type)
  | ended (a : α)
  | blocked (wake : Instant) (rest : Activity I α)

namespace Activity

variable {I : Interface} {W α : Type}

def run (s : Surroundings I W) : Activity I α → Instant → W → α × Instant × W
  | .done a, now, w => (a, now, w)
  | .ask r next, now, w =>
    let x := s now r w
    (next x.reply).run s (x.arrival.getD now) x.world

def advance (s : Surroundings I W) (now : Instant) : Activity I α → W → Pause I α × W
  | .done a, w => (.ended a, w)
  | .ask r next, w =>
    let x := s now r w
    match x.arrival with
    | none => (next x.reply).advance s now x.world
    | some t => (.blocked t (next x.reply), x.world)

/-- Whoever blocks has made a request. -/
theorem advance_below {s : Surroundings I W} {now t : Instant} {p q : Activity I α} {w w' : W}
    (h : p.advance s now w = (.blocked t q, w')) : Below q p := by
  induction p generalizing w with
  | done a => simp [advance] at h
  | ask r next ih =>
    simp only [advance] at h
    split at h
    · exact .tail (ih _ h) (.mk r next _)
    · simp only [Prod.mk.injEq, Pause.blocked.injEq] at h
      obtain ⟨⟨rfl, rfl⟩, rfl⟩ := h
      exact .single (.mk r next _)

end Activity

end PlaybookEngine
