import PlaybookEngine.Proofs.Activity.Assurance
import PlaybookEngine.Proofs.Tool.Immediate

namespace PlaybookEngine

/-- What tools answer to a call. -/
abbrev ToolAnswers := ToolRef → Json → Except ToolError ToolResponse

/-- Replies to those who call tools within a limit and ask for no jobs. -/
def Tooling.steady {V : Type} (answers : ToolAnswers) (limit : Span) : Tooling.Spec V
  | v, .now, K => ∀ now, K now v
  | v, .sleep _, K => K () v
  | v, .call tool params l, K => l = limit ∧ K (answers tool params) v
  | _, .poll _ _, _ => False

theorem Tooling.steady_mono {V : Type} (answers : ToolAnswers) (limit : Span) :
    (steady (V := V) answers limit).Mono := by
  intro v r K K' hK h
  cases r with
  | now =>
    intro now
    apply hK
    exact h now
  | sleep d => exact hK _ _ h
  | call tool params l => exact ⟨h.1, hK _ _ h.2⟩
  | poll tool job => exact h

namespace Tooling

variable {V : Type} {answers : ToolAnswers} {limit : Span} {v : V}

theorem now_assures {Q : Timestamp → V → Prop} :
    now.Assures (steady answers limit) v Q ↔ ∀ t, Q t v := Iff.rfl

theorem sleep_assures {d : Span} {Q : Unit → V → Prop} :
    (sleep d).Assures (steady answers limit) v Q ↔ Q () v := Iff.rfl

theorem call_assures {tool : ToolRef} {params : Json}
    {Q : Except ToolError ToolResponse → V → Prop} :
    (call tool params limit).Assures (steady answers limit) v Q ↔ Q (answers tool params) v :=
  and_iff_right rfl

end Tooling

namespace ToolServer

variable {T : Type} [ToolServer T]

/-- Usable tools give these answers, within the limit, and stay usable. -/
structure Steady (answers : ToolAnswers) (limit : Span) (usable : T → Prop) : Prop where
  answer : ∀ {t}, usable t → ∀ now tool params,
    (call t now tool params).1.answer = answers tool params
  inTime : ∀ {t}, usable t → ∀ now tool params, (call t now tool params).1.delay ≤ limit
  usable : ∀ {t}, usable t → ∀ now tool params, usable (call t now tool params).2

variable {answers : ToolAnswers} {limit : Span} {usable : T → Prop}

theorem Steady.keeps {V : Type} (h : Steady answers limit usable) {t : T} (ht : usable t)
    (now : Instant) (r : ToolRequest) (v : V) {K : r.Reply → V → Prop}
    (hK : Tooling.steady answers limit v r K) :
    K (surroundings now r t).reply v ∧ usable (surroundings now r t).world := by
  cases r with
  | now => exact ⟨hK _, ht⟩
  | sleep d => exact ⟨hK, ht⟩
  | call tool params l =>
    obtain ⟨rfl, hK⟩ := hK
    have reply : replied l (call t now tool params).1 = answers tool params := by
      rw [replied, if_pos (h.inTime ht now tool params), h.answer ht]
    exact ⟨(congrArg (K · v) reply).mpr hK, h.usable ht now tool params⟩
  | poll tool job => exact hK.elim

end ToolServer

namespace Step

open Activity

variable {V : Type} (answers : ToolAnswers) (settings : StepSettings)

/-- How many calls follow the first one when all give one answer and `left` are allowed. -/
def furtherCalls (left : Nat) : Except ToolError ToolResponse → Nat
  | .ok _ => 0
  | .error err => if err.isRetryable then left else 0

/-- What a step comes to when its tool gives one answer to every call. -/
def outcome (s : Step) (e : Execution) : Except StepError StepResult :=
  if s.shouldRun e then
    let answer := answers s.tool (.obj (s.renderedParams e))
    s.told (furtherCalls (settings.retry.maxAttempts - 1) answer + 1) answer
  else .ok (.skipped s.id .zero)

theorem outcome_congr {e e' : Execution} (he : e.untimed = e'.untimed) (s : Step) :
    s.outcome answers settings e = s.outcome answers settings e' := by
  rw [outcome, outcome, shouldRun_congr he, renderedParams_congr he]

theorem attempt_assures (s : Step) (params : Json) (start : Timestamp) (left made : Nat) (v : V) :
    (s.attempt settings params start left made).Assures
      (Tooling.steady answers settings.timeout) v fun x v' =>
        v' = v ∧ x.map StepResult.untimed =
          s.told (made + furtherCalls left (answers s.tool params) + 1) (answers s.tool params) := by
  induction left generalizing made with
  | zero =>
    rw [attempt.eq_def, assures_bind, Tooling.call_assures]
    cases answers s.tool params with
    | error err =>
      rw [furtherCalls, ite_self]
      exact ⟨rfl, rfl⟩
    | ok response => cases response <;> exact fun now => ⟨rfl, rfl⟩
  | succ left ih =>
    have next := ih (made + 1)
    rw [attempt.eq_def, assures_bind, Tooling.call_assures]
    revert next
    cases answers s.tool params with
    | error err =>
      intro next
      dsimp only
      rw [furtherCalls] at next ⊢
      by_cases hretry : err.isRetryable = true
      · rw [if_pos hretry] at next
        rw [if_pos hretry, if_pos hretry, assures_bind, Tooling.sleep_assures,
          Nat.add_comm left 1, ← Nat.add_assoc]
        exact next
      · rw [if_neg hretry, if_neg hretry]
        exact ⟨rfl, rfl⟩
    | ok response =>
      intro _
      cases response <;> exact fun now => ⟨rfl, rfl⟩

theorem execute_assures (s : Step) (e : Execution) (v : V) :
    (s.execute settings e).Assures (Tooling.steady answers settings.timeout) v fun x v' =>
      v' = v ∧ x.map StepResult.untimed = s.outcome answers settings e := by
  rw [execute, outcome]
  split
  · rw [assures_bind, Tooling.now_assures]
    intro start
    have attempts := s.attempt_assures answers settings (.obj (s.renderedParams e)) start
      (settings.retry.maxAttempts - 1) 0 v
    rw [Nat.zero_add] at attempts
    exact attempts
  · intro now
    exact ⟨rfl, rfl⟩

end Step

end PlaybookEngine
