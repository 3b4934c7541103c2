import PlaybookEngine.Proofs.Tool.Immediate
import Mathlib.Data.List.Intervals

namespace PlaybookEngine

/-- A tool whose outcomes stand in a sequence, numbered from one; and how often it was called. -/
structure Outcomes where
  outcome : Nat → Scripted (Except ToolError ToolResponse)
  made : Nat

namespace Outcomes

instance : ToolServer Outcomes where
  call t _ _ _ := (t.outcome (t.made + 1), { t with made := t.made + 1 })
  poll t _ _ _ := (⟨0, .ok .running⟩, t)

/-- Another attempt may not have the failure. -/
def isRetryable : Except ToolError ToolResponse → Bool
  | .ok _ => false
  | .error cause => cause.isRetryable

end Outcomes

def ToolRequest.isCall : ToolRequest → Bool
  | .call _ _ _ => true
  | _ => false

namespace Step

open Activity Outcomes ToolServer

variable (s : Step) (settings : StepSettings) (params : Json)

/-- The requests of the attempts after `made` earlier ones up to number `k`. -/
def attemptsBetween (made k : Nat) : List ToolRequest :=
  .call s.tool params settings.timeout ::
    (List.Ico made (k - 1)).flatMap fun j =>
      [.sleep (settings.retry.delay j), .call s.tool params settings.timeout]

/-- The first of the attempts after `made` earlier ones up to number `last` whose outcome ends the
step. -/
def firstSettled? (outcome : Nat → Except ToolError ToolResponse) (made last : Nat) : Option Nat :=
  (List.Ico (made + 1) (last + 1)).find? fun k => !isRetryable (outcome k)

/-- What a step comes to with the outcome of its last attempt. -/
def concluded (attempts : Nat) (start stop : Timestamp) :
    Except ToolError ToolResponse → Except StepError StepResult
  | .ok (.completed output) => .ok (.success s.id output attempts start stop)
  | .ok (.dispatched job) => .ok (.dispatched s.id job attempts start stop)
  | .error cause => .error ⟨s.id, attempts, cause⟩

/-- The clock is read once more for a result. -/
def closing : Except ToolError ToolResponse → List ToolRequest
  | .ok _ => [.now]
  | .error _ => []

theorem calls_closing (x : Except ToolError ToolResponse) :
    (closing x).filter ToolRequest.isCall = [] := by
  cases x <;> rfl

/-- What was asked for and what came of it after `made` earlier attempts, when number `last` is the
last one allowed. -/
def Retries (outcome : Nat → Except ToolError ToolResponse) (start stop : Timestamp)
    (made last : Nat) (asked : List ToolRequest) (result : Except StepError StepResult) : Prop :=
  match firstSettled? outcome made last with
  | some k =>
    asked = s.attemptsBetween settings params made k ++ closing (outcome k) ∧
      result = s.concluded k start stop (outcome k)
  | none =>
    asked = s.attemptsBetween settings params made last ∧
      ∃ cause, outcome last = .error cause ∧ cause.isRetryable = true ∧
        result = .error ⟨s.id, last, cause⟩

theorem attemptsBetween_last (made : Nat) :
    s.attemptsBetween settings params made (made + 1) = [.call s.tool params settings.timeout] := by
  rw [attemptsBetween, Nat.add_sub_cancel, List.Ico.self_empty]
  rfl

theorem attemptsBetween_next {made k : Nat} (h : made + 1 < k) :
    s.attemptsBetween settings params made k =
      .call s.tool params settings.timeout :: .sleep (settings.retry.delay made) ::
        s.attemptsBetween settings params (made + 1) k := by
  rw [attemptsBetween, List.Ico.eq_cons (by omega)]
  rfl

theorem calls_attemptsBetween {made k : Nat} (h : made < k) :
    (s.attemptsBetween settings params made k).filter ToolRequest.isCall =
      List.replicate (k - made) (.call s.tool params settings.timeout) := by
  have again (j : Nat) :
      [ToolRequest.sleep (settings.retry.delay j), .call s.tool params settings.timeout].filter
        ToolRequest.isCall = [.call s.tool params settings.timeout] := rfl
  have hnumber : k - made = k - 1 - made + 1 := by omega
  rw [attemptsBetween, List.filter_cons_of_pos rfl, List.filter_flatMap, hnumber,
    List.replicate_succ]
  simp only [again]
  rw [← List.map_eq_flatMap, List.map_const', List.Ico.length]

/-- The calls of a step, when it asks for the time, for attempts and for the time again. -/
theorem calls_of_attempts {k : Nat} (h : 0 < k) (rest : List ToolRequest)
    (hrest : rest.filter ToolRequest.isCall = []) :
    (.now :: s.attemptsBetween settings params 0 k ++ rest).filter ToolRequest.isCall =
      List.replicate k (.call s.tool params settings.timeout) := by
  rw [List.cons_append, List.filter_cons_of_neg Bool.false_ne_true, List.filter_append,
    calls_attemptsBetween s settings params h, hrest, List.append_nil, Nat.sub_zero]

section Settled

variable {outcome : Nat → Except ToolError ToolResponse} {made last : Nat}

theorem firstSettled?_of_settled (hlast : made < last)
    (h : isRetryable (outcome (made + 1)) = false) :
    firstSettled? outcome made last = some (made + 1) := by
  rw [firstSettled?, List.Ico.eq_cons (by omega), List.find?_cons_of_pos (by rw [h]; rfl)]

theorem firstSettled?_of_retryable (hlast : made < last)
    (h : isRetryable (outcome (made + 1)) = true) :
    firstSettled? outcome made last = firstSettled? outcome (made + 1) last := by
  rw [firstSettled?, List.Ico.eq_cons (by omega), List.find?_cons_of_neg (by rw [h]; decide)]
  rfl

theorem firstSettled?_self : firstSettled? outcome made made = none := by
  rw [firstSettled?, List.Ico.self_empty]
  rfl

theorem lt_of_firstSettled? {k : Nat} (h : firstSettled? outcome made last = some k) : made < k :=
  (List.Ico.mem.mp (List.mem_of_find?_eq_some h)).1

end Settled

section Attempts

variable {outcome : Nat → Except ToolError ToolResponse} {start stop : Timestamp} {made last : Nat}

theorem retries_settled (hlast : made < last) (x : Except ToolError ToolResponse)
    (hx : outcome (made + 1) = x) (hsettled : isRetryable x = false) :
    s.Retries settings params outcome start stop made last
      (.call s.tool params settings.timeout :: closing x)
      (s.concluded (made + 1) start stop x) := by
  subst hx
  unfold Retries
  rw [firstSettled?_of_settled hlast hsettled]
  exact ⟨by rw [attemptsBetween_last]; rfl, rfl⟩

theorem retries_spent {cause : ToolError} (hx : outcome (made + 1) = .error cause)
    (hretry : cause.isRetryable = true) :
    s.Retries settings params outcome start stop made (made + 1)
      [.call s.tool params settings.timeout] (.error ⟨s.id, made + 1, cause⟩) := by
  unfold Retries
  rw [firstSettled?_of_retryable (Nat.lt_succ_self made) (by rw [hx]; exact hretry),
    firstSettled?_self]
  exact ⟨(s.attemptsBetween_last settings params made).symm, cause, hx, hretry, rfl⟩

/-- The next attempt is no use, and others follow after the delay. -/
theorem Retries.next {asked : List ToolRequest} {result : Except StepError StepResult}
    (h : s.Retries settings params outcome start stop (made + 1) last asked result)
    (hlast : made + 1 < last) (hretry : isRetryable (outcome (made + 1)) = true) :
    s.Retries settings params outcome start stop made last
      (.call s.tool params settings.timeout :: .sleep (settings.retry.delay made) :: asked)
      result := by
  unfold Retries at h ⊢
  rw [firstSettled?_of_retryable (by omega) hretry]
  cases hk : firstSettled? outcome (made + 1) last with
  | none =>
    rw [hk] at h
    obtain ⟨rfl, hresult⟩ := h
    exact ⟨(s.attemptsBetween_next settings params hlast).symm, hresult⟩
  | some k =>
    rw [hk] at h
    obtain ⟨rfl, hresult⟩ := h
    refine ⟨?_, hresult⟩
    rw [s.attemptsBetween_next settings params (lt_of_firstSettled? hk)]
    rfl

end Attempts

/-- What one attempt asks for, and those after it. -/
theorem requests_attempt {T : Type} [ToolServer T] (start : Timestamp) (left made : Nat)
    (now : Instant) (t : T) :
    (s.attempt settings params start left made).requests surroundings now t =
      let x := (Tooling.call s.tool params settings.timeout).run surroundings now t
      .call s.tool params settings.timeout ::
        match x.1 with
        | .ok _ => [.now]
        | .error e =>
          match left with
          | 0 => []
          | left + 1 =>
            if e.isRetryable then
              .sleep (settings.retry.delay made) ::
                (s.attempt settings params start left (made + 1)).requests surroundings
                  ((x.2.1.after (settings.retry.delay made)).getD x.2.1) x.2.2
            else [] := by
  rw [attempt.eq_def, requests_bind]
  refine congrArg (ToolRequest.call s.tool params settings.timeout :: ·) ?_
  rcases (Tooling.call s.tool params settings.timeout).run surroundings now t with ⟨x, now', t'⟩
  cases x with
  | ok response => cases response <;> rfl
  | error e =>
    cases left with
    | zero => rfl
    | succ left =>
      dsimp only
      split
      · rw [requests_bind]
        rfl
      · rfl

theorem attempt_retries (outcome : Nat → Scripted (Except ToolError ToolResponse))
    (start : Timestamp) (left made : Nat) (now : Instant) :
    let x := (s.attempt settings params start left made).run surroundings now
      (⟨outcome, made⟩ : Outcomes)
    s.Retries settings params (fun k => replied settings.timeout (outcome k)) start
      (.ofNanos x.2.1) made (made + left + 1)
      ((s.attempt settings params start left made).requests surroundings now
        (⟨outcome, made⟩ : Outcomes)) x.1 := by
  -- On the attempts that are left: a failure worth another one leaves one fewer, from a later time.
  induction left using Nat.strongRecOn generalizing made now with
  | ind left ih =>
    have hlast : made < made + left + 1 := by omega
    have called : (ToolServer.call (⟨outcome, made⟩ : Outcomes) now s.tool params).1 =
      outcome (made + 1) := rfl
    rw [run_attempt, requests_attempt, run_call, called]
    cases hx : replied settings.timeout (outcome (made + 1)) with
    | ok response =>
      cases response with
      | completed output =>
        exact s.retries_settled settings params hlast (.ok (.completed output)) hx rfl
      | dispatched job =>
        exact s.retries_settled settings params hlast (.ok (.dispatched job)) hx rfl
    | error cause =>
      by_cases hretry : cause.isRetryable = true
      · cases left with
        | zero => exact s.retries_spent settings params hx hretry
        | succ left =>
          simp only [hretry, if_true]
          have hnumber : made + (left + 1) + 1 = made + 1 + left + 1 := by omega
          refine Retries.next s settings params ?_ (by omega) (by rw [hx]; exact hretry)
          rw [hnumber]
          exact ih left (Nat.lt_succ_self left) (made + 1) _
      · have hfinal : isRetryable (.error cause) = false := Bool.eq_false_iff.mpr hretry
        cases left with
        | zero => exact s.retries_settled settings params hlast (.error cause) hx hfinal
        | succ left =>
          simp only [hretry]
          exact s.retries_settled settings params hlast (.error cause) hx hfinal

/-- A step that does not run is skipped without a call. Any other one is attempted until the first
outcome that is not worth another attempt, or as often as the policy allows and at least once: with
the same call each time, and after each one that another follows the delay of its number. -/
theorem execute_retries (s : Step) (settings : StepSettings) (e : Execution)
    (outcome : Nat → Scripted (Except ToolError ToolResponse)) (now : Instant) :
    let params := Json.obj (s.renderedParams e)
    let last := max settings.retry.maxAttempts 1
    let reply k := replied settings.timeout (outcome k)
    let x := (s.execute settings e).run surroundings now (⟨outcome, 0⟩ : Outcomes)
    let asked := (s.execute settings e).requests surroundings now (⟨outcome, 0⟩ : Outcomes)
    if s.shouldRun e then
      match firstSettled? reply 0 last with
      | some k =>
        asked.filter ToolRequest.isCall =
            List.replicate k (.call s.tool params settings.timeout) ∧
          asked = .now :: s.attemptsBetween settings params 0 k ++ closing (reply k) ∧
          x.1 = s.concluded k (.ofNanos now) (.ofNanos x.2.1) (reply k)
      | none =>
        asked.filter ToolRequest.isCall =
            List.replicate last (.call s.tool params settings.timeout) ∧
          asked = .now :: s.attemptsBetween settings params 0 last ∧
          ∃ cause, reply last = .error cause ∧ cause.isRetryable = true ∧
            x.1 = .error ⟨s.id, last, cause⟩
    else asked = [.now] ∧ x.1 = .ok (.skipped s.id (.ofNanos now)) := by
  rw [execute]
  split
  · have bound : max settings.retry.maxAttempts 1 = 0 + (settings.retry.maxAttempts - 1) + 1 := by
      omega
    rw [run_bind, requests_bind, bound]
    have retries := s.attempt_retries settings (.obj (s.renderedParams e)) outcome
      (.ofNanos now) (settings.retry.maxAttempts - 1) 0 now
    dsimp only at retries ⊢
    unfold Retries at retries
    cases hk : firstSettled? (fun k => replied settings.timeout (outcome k)) 0
        (0 + (settings.retry.maxAttempts - 1) + 1) with
    | some k =>
      rw [hk] at retries
      obtain ⟨hasked, hresult⟩ := retries
      have asked := congrArg (ToolRequest.now :: ·) hasked
      have calls := s.calls_of_attempts settings (.obj (s.renderedParams e))
        (lt_of_firstSettled? hk) _ (calls_closing (replied settings.timeout (outcome k)))
      exact ⟨(congrArg (List.filter ToolRequest.isCall) asked).trans calls, asked, hresult⟩
    | none =>
      rw [hk] at retries
      obtain ⟨hasked, hresult⟩ := retries
      have asked := congrArg (ToolRequest.now :: ·) hasked
      have calls := s.calls_of_attempts settings (.obj (s.renderedParams e))
        (Nat.succ_pos (0 + (settings.retry.maxAttempts - 1))) [] rfl
      rw [List.append_nil] at calls
      exact ⟨(congrArg (List.filter ToolRequest.isCall) asked).trans calls, asked, hresult⟩
  · exact ⟨rfl, rfl⟩

end Step

end PlaybookEngine
