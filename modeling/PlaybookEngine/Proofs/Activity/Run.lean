import PlaybookEngine.Activity.Timed

namespace PlaybookEngine.Activity

variable {I J : Interface} {W α β : Type} (s : Surroundings I W)

@[simp] theorem run_pure (a : α) (now : Instant) (w : W) :
    (pure a : Activity I α).run s now w = (a, now, w) := rfl

theorem run_bind (p : Activity I α) (f : α → Activity I β) (now : Instant) (w : W) :
    (p >>= f).run s now w =
      (f (p.run s now w).1).run s (p.run s now w).2.1 (p.run s now w).2.2 := by
  change (p.bind f).run s now w = _
  induction p generalizing now w with
  | done a => rfl
  | ask r next ih => exact ih _ _ _

/-- The requests of an activity in its run, in order. -/
def requests : Activity I α → Instant → W → List I.Request
  | .done _, _, _ => []
  | .ask r next, now, w =>
    let x := s now r w
    r :: (next x.reply).requests (x.arrival.getD now) x.world

@[simp] theorem requests_pure (a : α) (now : Instant) (w : W) :
    (pure a : Activity I α).requests s now w = [] := rfl

theorem requests_bind (p : Activity I α) (f : α → Activity I β) (now : Instant) (w : W) :
    (p >>= f).requests s now w =
      p.requests s now w ++
        (f (p.run s now w).1).requests s (p.run s now w).2.1 (p.run s now w).2.2 := by
  change (p.bind f).requests s now w = _
  induction p generalizing now w with
  | done a => rfl
  | ask r next ih => exact congrArg (r :: ·) (ih _ _ _)

/-- With answers that never come from the past, time only goes on. -/
theorem le_run {s : Surroundings I W} (h : ∀ now r w, now ≤ (s now r w).arrival.getD now)
    (p : Activity I α) (now : Instant) (w : W) : now ≤ (p.run s now w).2.1 := by
  induction p generalizing now w with
  | done a => exact Nat.le_refl now
  | ask r next ih => exact Nat.le_trans (h now r w) (ih _ _ _)

end PlaybookEngine.Activity
