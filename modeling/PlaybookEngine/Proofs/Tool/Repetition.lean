import PlaybookEngine.Proofs.Activity.Partway
import PlaybookEngine.Proofs.Tool.Immediate

namespace PlaybookEngine

namespace ToolServer

/-- Tools that give the same answers, whenever they are asked; calls beyond the limit are given up
with both. -/
structure Agreeing {T T' : Type} [ToolServer T] [ToolServer T'] (R : T → T' → Prop)
    (limit : Span) : Prop where
  call : ∀ {t t'}, R t t' → ∀ now now' tool params,
    replied limit (ToolServer.call t now tool params).1 =
        replied limit (ToolServer.call t' now' tool params).1 ∧
      R (ToolServer.call t now tool params).2 (ToolServer.call t' now' tool params).2
  poll : ∀ {t t'}, R t t' → ∀ now now' tool job,
    (ToolServer.poll t now tool job).1.answer = (ToolServer.poll t' now' tool job).1.answer ∧
      R (ToolServer.poll t now tool job).2 (ToolServer.poll t' now' tool job).2

end ToolServer

namespace Tooling

variable {α β γ δ : Type} {limit : Span}

/-- Activities that ask tools for the same: with the same answers, and whatever the clock shows to
either of them, their results match. -/
inductive Twin (limit : Span) (Q : α → β → Prop) : Activity Tooling α → Activity Tooling β → Prop
  | done {a : α} {b : β} (h : Q a b) : Twin limit Q (.done a) (.done b)
  | now {next : Timestamp → Activity Tooling α} {next' : Timestamp → Activity Tooling β}
    (h : ∀ x y, Twin limit Q (next x) (next' y)) :
    Twin limit Q (.ask ToolRequest.now next) (.ask ToolRequest.now next')
  | sleep {next : Unit → Activity Tooling α} {next' : Unit → Activity Tooling β} (d : Span)
    (h : Twin limit Q (next ()) (next' ())) :
    Twin limit Q (.ask (ToolRequest.sleep d) next) (.ask (ToolRequest.sleep d) next')
  | call {next : Except ToolError ToolResponse → Activity Tooling α}
    {next' : Except ToolError ToolResponse → Activity Tooling β} (tool : ToolRef) (params : Json)
    (h : ∀ x, Twin limit Q (next x) (next' x)) :
    Twin limit Q (.ask (ToolRequest.call tool params limit) next)
      (.ask (ToolRequest.call tool params limit) next')
  | poll {next : Except ToolError JobState → Activity Tooling α}
    {next' : Except ToolError JobState → Activity Tooling β} (tool : ToolRef) (job : String)
    (h : ∀ x, Twin limit Q (next x) (next' x)) :
    Twin limit Q (.ask (ToolRequest.poll tool job) next) (.ask (ToolRequest.poll tool job) next')

theorem Twin.bind {Q : α → β → Prop} {Q' : γ → δ → Prop} {p : Activity Tooling α}
    {p' : Activity Tooling β} {f : α → Activity Tooling γ} {f' : β → Activity Tooling δ}
    (h : Twin limit Q p p') (hf : ∀ a b, Q a b → Twin limit Q' (f a) (f' b)) :
    Twin limit Q' (p >>= f) (p' >>= f') := by
  induction h with
  | done hab => exact hf _ _ hab
  | now _ ih => exact .now ih
  | sleep d _ ih => exact .sleep d ih
  | call tool params _ ih => exact .call tool params ih
  | poll tool job _ ih => exact .poll tool job ih

section Requests

variable {Q : α → β → Prop}

theorem Twin.now_bind {f : Timestamp → Activity Tooling α} {f' : Timestamp → Activity Tooling β}
    (h : ∀ x y, Twin limit Q (f x) (f' y)) :
    Twin limit Q (Tooling.now >>= f) (Tooling.now >>= f') := .now h

theorem Twin.sleep_bind {f : Unit → Activity Tooling α} {f' : Unit → Activity Tooling β} (d : Span)
    (h : Twin limit Q (f ()) (f' ())) :
    Twin limit Q (Tooling.sleep d >>= f) (Tooling.sleep d >>= f') := .sleep d h

theorem Twin.call_bind {f : Except ToolError ToolResponse → Activity Tooling α}
    {f' : Except ToolError ToolResponse → Activity Tooling β} (tool : ToolRef) (params : Json)
    (h : ∀ x, Twin limit Q (f x) (f' x)) :
    Twin limit Q (Tooling.call tool params limit >>= f) (Tooling.call tool params limit >>= f') :=
  .call tool params h

theorem Twin.poll_bind {f : Except ToolError JobState → Activity Tooling α}
    {f' : Except ToolError JobState → Activity Tooling β} (tool : ToolRef) (job : String)
    (h : ∀ x, Twin limit Q (f x) (f' x)) :
    Twin limit Q (Tooling.poll tool job >>= f) (Tooling.poll tool job >>= f') :=
  .poll tool job h

end Requests

open ToolServer

variable {T T' : Type} [ToolServer T] [ToolServer T'] {R : T → T' → Prop}

/-- However the first attempt came to its end, the second one comes to a matching end. -/
theorem Twin.run (hR : Agreeing R limit) {Q : α → β → Prop} {p : Activity Tooling α}
    {p' : Activity Tooling β} (h : Twin limit Q p p') {t t₁ : T} {t' : T'} {a : α} (ht : R t t')
    (hp : p.ComesTo surroundings t (.done a) t₁) (now : Instant) :
    Q a (p'.run surroundings now t').1 ∧ R t₁ (p'.run surroundings now t').2.2 := by
  induction h generalizing t t' now with
  | done hab =>
    obtain ⟨heq, rfl⟩ := hp.of_done
    cases heq
    exact ⟨hab, ht⟩
  | now _ ih =>
    cases hp with
    | ask first later => exact ih _ _ ht later _
  | sleep d _ ih =>
    cases hp with
    | ask first later => exact ih ht later _
  | @call next next' tool params _ ih =>
    cases hp with
    | ask first later =>
      obtain ⟨same, ht₁⟩ := hR.call ht first now tool params
      have reply : (surroundings first (.call tool params limit) t).reply =
        (surroundings now (.call tool params limit) t').reply := same
      rw [reply] at later
      exact ih _ ht₁ later _
  | @poll next next' tool job _ ih =>
    cases hp with
    | ask first later =>
      obtain ⟨same, ht₁⟩ := hR.poll ht first now tool job
      have reply : (surroundings first (.poll tool job) t).reply =
        (surroundings now (.poll tool job) t').reply := same
      rw [reply] at later
      exact ih _ ht₁ later _

end Tooling

namespace Step

open Tooling

variable (s : Step) (settings : StepSettings)

/-- The same outcome, up to readings of the clock. -/
def SameOutcome (x x' : Except StepError StepResult) : Prop :=
  x.map StepResult.untimed = x'.map StepResult.untimed

theorem attempt_twin (params : Json) (start start' : Timestamp) (left made : Nat) :
    Twin settings.timeout SameOutcome (s.attempt settings params start left made)
      (s.attempt settings params start' left made) := by
  induction left generalizing made with
  | zero =>
    rw [attempt, attempt]
    refine .call_bind _ _ fun x => ?_
    cases x with
    | error err => exact .done rfl
    | ok response => cases response <;> exact .now_bind fun x y => .done rfl
  | succ left ih =>
    rw [attempt, attempt]
    refine .call_bind _ _ fun x => ?_
    cases x with
    | error err =>
      dsimp only
      split
      · exact .sleep_bind _ (ih _)
      · exact .done rfl
    | ok response => cases response <;> exact .now_bind fun x y => .done rfl

/-- Executions that agree without the times run a step alike. -/
theorem execute_twin {e e' : Execution} (he : e.untimed = e'.untimed) :
    Twin settings.timeout SameOutcome (s.execute settings e) (s.execute settings e') := by
  rw [execute, execute, shouldRun_congr he, renderedParams_congr he]
  split
  · exact .now_bind fun start start' => s.attempt_twin settings _ start start' _ 0
  · exact .now_bind fun x y => .done rfl

end Step

end PlaybookEngine
