import PlaybookEngine.Proofs.Engine.Runs
import PlaybookEngine.Proofs.Workflow.Untimed

namespace PlaybookEngine

/-- The answer at once that stands for the end of a job; none while the job goes on, or when it may
be asked again. -/
def JobState.ending? : Except ToolError JobState → Option (Except ToolError ToolResponse)
  | .ok .running => none
  | .ok (.completed output) => some (.ok (.completed output))
  | .ok (.failed reason) => some (.error (.rejected reason))
  | .error err => if err.isRetryable then none else some (.error err)

namespace ToolServer

variable {T T' : Type} [ToolServer T] [ToolServer T']

/-- However often and whenever the job is asked: it ends in the given way after finitely many
questions, and leaves tools that match the immediate ones. -/
inductive Ends (R : T → T' → Prop) (tool : ToolRef) (job : String)
    (x : Except ToolError ToolResponse) (t' : T') : T → Prop
  | poll {t : T}
    (ended : ∀ now y, JobState.ending? (ToolServer.poll t now tool job).1.answer = some y →
      y = x ∧ R (ToolServer.poll t now tool job).2 t')
    (goesOn : ∀ now, JobState.ending? (ToolServer.poll t now tool job).1.answer = none →
      Ends R tool job x t' (ToolServer.poll t now tool job).2) : Ends R tool job x t' t

/-- The second tools answer at once what the first ones answer or what their jobs come to. Calls
beyond the limit are given up with both. -/
structure Immediate (R : T → T' → Prop) (limit : Span) : Prop where
  inTime : ∀ {t t'}, R t t' → ∀ now now' tool params,
    (call t now tool params).1.delay ≤ limit ↔ (call t' now' tool params).1.delay ≤ limit
  late : ∀ {t t'}, R t t' → ∀ now now' tool params,
    ¬ (call t now tool params).1.delay ≤ limit →
      R (call t now tool params).2 (call t' now' tool params).2
  answered : ∀ {t t'}, R t t' → ∀ now now' tool params,
    (call t now tool params).1.delay ≤ limit →
    (∀ job, (call t now tool params).1.answer ≠ .ok (.dispatched job)) →
      (call t' now' tool params).1.answer = (call t now tool params).1.answer ∧
        R (call t now tool params).2 (call t' now' tool params).2
  dispatched : ∀ {t t'}, R t t' → ∀ now now' tool params job,
    (call t now tool params).1.delay ≤ limit →
    (call t now tool params).1.answer = .ok (.dispatched job) →
      Ends R tool job (call t' now' tool params).1.answer (call t' now' tool params).2
        (call t now tool params).2

variable {R : T → T' → Prop}

omit [ToolServer T'] in
theorem Ends.isFinal {tool : ToolRef} {job : String} {x : Except ToolError ToolResponse} {t' : T'}
    {t : T} (h : Ends R tool job x t' t) :
    (∃ output, x = .ok (.completed output)) ∨ ∃ cause, x = .error cause ∧ cause.isRetryable = false := by
  induction h with
  | @poll t ended goesOn ih =>
    cases hy : JobState.ending? (ToolServer.poll t 0 tool job).1.answer with
    | none => exact ih 0 hy
    | some y =>
      obtain ⟨rfl, -⟩ := ended 0 y hy
      revert hy
      cases (ToolServer.poll t 0 tool job).1.answer with
      | error err =>
        intro hy
        rw [JobState.ending?] at hy
        split at hy
        · cases hy
        · rename_i hretry
          cases hy
          exact .inr ⟨err, rfl, by simpa using hretry⟩
      | ok state =>
        intro hy
        cases state with
        | running => cases hy
        | completed output =>
          cases hy
          exact .inl ⟨output, rfl⟩
        | failed reason =>
          cases hy
          exact .inr ⟨.rejected reason, rfl, rfl⟩

/-- What a call comes to when it is given up at the limit. -/
def replied (limit : Span) (a : Scripted (Except ToolError ToolResponse)) :
    Except ToolError ToolResponse := if a.delay ≤ limit then a.answer else .error (.timeout limit)

theorem run_call (t : T) (now : Instant) (tool : ToolRef) (params : Json) (limit : Span) :
    (Tooling.call tool params limit).run surroundings now t =
      (replied limit (call t now tool params).1,
        (now.after (min (call t now tool params).1.delay limit)).getD now,
        (call t now tool params).2) := rfl

theorem run_now (t : T) (now : Instant) :
    Tooling.now.run surroundings now t = (.ofNanos now, now, t) := rfl

theorem run_sleep (t : T) (now : Instant) (d : Span) :
    (Tooling.sleep d).run surroundings now t = ((), (now.after d).getD now, t) := rfl

theorem Immediate.call {limit : Span} (h : Immediate R limit) {t : T} {t' : T'} (hr : R t t')
    (now now' : Instant) (tool : ToolRef) (params : Json) :
    (∃ job, replied limit (ToolServer.call t now tool params).1 = .ok (.dispatched job) ∧
      Ends R tool job (replied limit (ToolServer.call t' now' tool params).1)
        (ToolServer.call t' now' tool params).2 (ToolServer.call t now tool params).2) ∨
    (∀ job, replied limit (ToolServer.call t now tool params).1 ≠ .ok (.dispatched job)) ∧
      replied limit (ToolServer.call t' now' tool params).1 =
        replied limit (ToolServer.call t now tool params).1 ∧
      R (ToolServer.call t now tool params).2 (ToolServer.call t' now' tool params).2 := by
  unfold replied
  by_cases hlimit : (ToolServer.call t now tool params).1.delay ≤ limit
  · rw [if_pos hlimit, if_pos ((h.inTime hr now now' tool params).mp hlimit)]
    by_cases hjob : ∃ job, (ToolServer.call t now tool params).1.answer = .ok (.dispatched job)
    · obtain ⟨job, hjob⟩ := hjob
      exact .inl ⟨job, hjob, h.dispatched hr now now' tool params job hlimit hjob⟩
    · have plain := fun job hj => hjob ⟨job, hj⟩
      exact .inr ⟨plain, h.answered hr now now' tool params hlimit plain⟩
  · rw [if_neg hlimit, if_neg fun hl => hlimit ((h.inTime hr now now' tool params).mpr hl)]
    exact .inr ⟨nofun, rfl, h.late hr now now' tool params hlimit⟩

end ToolServer

namespace Step

open ToolServer

variable {T T' : Type} [ToolServer T] [ToolServer T'] {R : T → T' → Prop}

/-- The outcome of a step whose tool tells at once what a job comes to. -/
def told (s : Step) (attempts : Nat) : Except ToolError ToolResponse → Except StepError StepResult
  | .ok (.completed output) => .ok (.success s.id output attempts .zero .zero)
  | .ok (.dispatched job) => .ok (.dispatched s.id job attempts .zero .zero)
  | .error cause => .error ⟨s.id, attempts, cause⟩

/-- The outcomes of one step with both tools, and the tools after it. -/
inductive Match (R : T → T' → Prop) (s : Step) (t : T) (t' : T') :
    Except StepError StepResult → Except StepError StepResult → Prop
  | done {r r' : StepResult} (same : r.untimed = r'.untimed) (status : r.status ≠ .dispatched)
    (tools : R t t') : Match R s t t' (.ok r) (.ok r')
  | failed {err : StepError} (tools : R t t') : Match R s t t' (.error err) (.error err)
  | waits {job : String} {attempts : Nat} {start stop : Timestamp}
    {x : Except ToolError ToolResponse} {y : Except StepError StepResult}
    (ends : Ends R s.tool job x t' t) (same : y.map StepResult.untimed = s.told attempts x) :
    Match R s t t' (.ok (.dispatched s.id job attempts start stop)) y

theorem run_attempt (s : Step) (settings : StepSettings) (params : Json) (start : Timestamp)
    (left made : Nat) (now : Instant) (t : T) :
    (s.attempt settings params start left made).run surroundings now t =
      let x := (Tooling.call s.tool params settings.timeout).run surroundings now t
      match x.1 with
      | .ok (.completed output) =>
        (.ok (.success s.id output (made + 1) start (.ofNanos x.2.1)), x.2.1, x.2.2)
      | .ok (.dispatched job) =>
        (.ok (.dispatched s.id job (made + 1) start (.ofNanos x.2.1)), x.2.1, x.2.2)
      | .error e =>
        match left with
        | 0 => (.error ⟨s.id, made + 1, e⟩, x.2.1, x.2.2)
        | left + 1 =>
          if e.isRetryable then
            (s.attempt settings params start left (made + 1)).run surroundings
              ((x.2.1.after (settings.retry.delay made)).getD x.2.1) x.2.2
          else (.error ⟨s.id, made + 1, e⟩, x.2.1, x.2.2) := by
  rw [attempt.eq_def, Activity.run_bind]
  dsimp only
  rcases (Tooling.call s.tool params settings.timeout).run surroundings now t with ⟨x, now', t'⟩
  cases x with
  | ok response =>
    cases response with
    | completed output => simp only [Activity.run_bind, run_now, Activity.run_pure]
    | dispatched job => simp only [Activity.run_bind, run_now, Activity.run_pure]
  | error e =>
    cases left with
    | zero => simp only [Activity.run_pure]
    | succ left =>
      dsimp only
      split
      · simp only [Activity.run_bind, run_sleep]
      · simp only [Activity.run_pure]

end Step

end PlaybookEngine
