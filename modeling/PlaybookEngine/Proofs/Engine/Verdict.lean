import PlaybookEngine.Proofs.Engine.Discipline
import PlaybookEngine.Proofs.Engine.Order

namespace PlaybookEngine

/-- What a call has heard of failures. -/
inductive Verdict
  /-- The last word was not that a step failed that may not. -/
  | fine
  /-- In this stage a step has failed, and its tool is not one that may. -/
  | failing (x : Stage) (step : String)
  /-- A failure is recorded of the job. -/
  | recorded (job : String) (f : Failure)

/-- The tool that says in its reply that it failed, at a call or at a query of its job. After an
error that is worth another attempt a job is not taken to have failed. -/
def EngineRequest.failing? : (r : EngineRequest) → r.Reply → Option ToolRef
  | .tool (.call t _ _), .error _ => some t
  | .tool (.poll t _), .ok (.failed _) => some t
  | .tool (.poll t _), .error err => if err.isRetryable then none else some t
  | _, _ => none

/-- The step that is worked on in the stage, and its playbook. -/
def Stage.step? : Stage → Option (Playbook × String)
  | .executing p s _ => some (p, s.id)
  | .polling s => some (s.playbook, s.handle.stepId)
  | _ => none

/-- What is heard in the reply to a request that is made in the stage. -/
def Stage.verdict (x : Stage) (r : EngineRequest) (reply : r.Reply) : Verdict :=
  match x.step?, r.failing? reply with
  | some (p, step), some tool => if p.isOptionalTool tool then .fine else .failing x step
  | _, _ => .fine

namespace Working

/-- What a call may ask for. After the failure of a step that may not fail, it may call the tool of
that step again, and it may record a failure that names the step. -/
def heeding : Working.Staged.Spec Verdict
  | .fine, (x, r), K => ∀ y, K y (x.verdict r y)
  | .failing x _, (x', .tool (.call tool params limit)), K =>
    x' = x ∧ ∀ y, K y (x'.verdict (.tool (.call tool params limit)) y)
  | .failing x step, (_, .tool .now), K => ∀ y, K y (.failing x step)
  | .failing x step, (_, .tool (.sleep _)), K => ∀ y, K y (.failing x step)
  | .failing _ step, (_, .job (.finish job (.failed f))), K =>
    f.stepId = some step ∧ ∀ y, K y (.recorded job f)
  | _, _, _ => False

end Working

/-- Whoever has heard of the failure of a step fails with an error that names it. -/
def Owned {ε α : Type} (stepId? : ε → Option String) : Except ε α → Verdict → Prop
  | _, .fine => True
  | .error err, .failing _ step => stepId? err = some step
  | _, _ => False

def Plan.Owns : Plan → Verdict → Prop
  | .answered r, v => Owned Failure.stepId r v
  | .batch _ _, v => v = .fine

/-- Whoever queries the job has recorded the failure of a step, and is told the same. -/
def JobStatus.Owns (job : String) : JobStatus → Verdict → Prop
  | _, .fine => True
  | .failed f, .recorded job' f' => job' = job ∧ f' = f
  | _, _ => False

open Working Activity

variable {v : Verdict} {x : Stage} {α : Type}

theorem Working.heeding_mono : heeding.Mono := by
  intro v q K K' hK h
  obtain ⟨x, r⟩ := q
  cases v with
  | fine => exact fun y => hK _ _ (h y)
  | failing x' step =>
    cases r with
    | tool r =>
      cases r with
      | now => exact fun y => hK _ _ (h y)
      | sleep d => exact fun y => hK _ _ (h y)
      | call tool params limit => exact ⟨h.1, fun y => hK _ _ (h.2 y)⟩
      | poll tool job => exact h
    | job r =>
      cases r with
      | finish job status =>
        cases status with
        | failed f => exact ⟨h.1, fun y => hK _ _ (h.2 y)⟩
        | _ => exact h
      | _ => exact h
    | _ => exact h
  | recorded job f => exact h.elim

/-- Whatever the reply, the call goes on with some verdict. -/
theorem Working.heeding_reply {q : Working.Staged.Request}
    {K : Working.Staged.Reply q → Verdict → Prop} (h : heeding v q K) (y : Working.Staged.Reply q) : ∃ v', K y v' := by
  obtain ⟨x, r⟩ := q
  cases v with
  | fine => exact ⟨_, h y⟩
  | failing x' step =>
    cases r with
    | tool r =>
      cases r with
      | now => exact ⟨_, h y⟩
      | sleep d => exact ⟨_, h y⟩
      | call tool params limit => exact ⟨_, h.2 y⟩
      | poll tool job => exact h.elim
    | job r =>
      cases r with
      | finish job status =>
        cases status with
        | failed f => exact ⟨_, h.2 y⟩
        | _ => exact h.elim
      | _ => exact h.elim
    | _ => exact h.elim
  | recorded job f => exact h.elim

/-- The call goes on with what it hears of a failure. -/
theorem Working.heeding_failing {q : Working.Staged.Request}
    {K : Working.Staged.Reply q → Verdict → Prop} (h : heeding v q K) {y : Working.Staged.Reply q}
    {step : String} (hy : q.1.verdict q.2 y = .failing x step) : K y (.failing x step) := by
  obtain ⟨x₁, r⟩ := q
  have silent (hnone : r.failing? y = none) : False := by
    unfold Stage.verdict at hy
    rw [hnone] at hy
    split at hy
    · rename_i heq
      cases heq
    · cases hy
  cases v with
  | fine => exact hy ▸ h y
  | failing x' step' =>
    cases r with
    | tool r =>
      cases r with
      | now => exact (silent rfl).elim
      | sleep d => exact (silent rfl).elim
      | call tool params limit => exact hy ▸ h.2 y
      | poll tool job => exact h.elim
    | job r => exact (silent rfl).elim
    | _ => exact h.elim
  | recorded job f => exact h.elim

/-- The request is not one of a tool that may fail. -/
def EngineRequest.Silent (r : EngineRequest) : Prop := ∀ y, r.failing? y = none

theorem Stage.verdict_of_silent {r : EngineRequest} (hr : r.Silent) (x : Stage) (y : r.Reply) :
    x.verdict r y = .fine := by
  unfold verdict
  rw [hr y]
  cases x.step? <;> rfl

/-- Who asks no tool hears of no failure. -/
theorem Activity.Abides.heeds {p : Activity Working α} {Q : α → Prop}
    (h : p.Abides EngineRequest.Silent Q) (x : Stage) :
    (p.during x).Assures heeding .fine fun a v => Q a ∧ v = .fine := by
  induction p with
  | done a => exact ⟨h, rfl⟩
  | ask r next ih =>
    intro y
    have hr : EngineRequest.Silent r := h.1
    rw [Stage.verdict_of_silent hr x y]
    exact ih y (h.2 y)

theorem silent_now : EngineRequest.Silent (.tool .now) := fun _ => rfl

theorem silent_sleep (d : Span) : EngineRequest.Silent (.tool (.sleep d)) := fun _ => rfl

/-- The verdict on a step that has failed. -/
def Stage.blame (x : Stage) (p : Playbook) (step : String) (t : ToolRef) : Verdict :=
  if p.isOptionalTool t then .fine else .failing x step

/-- The verdict is on this step, if there is any. -/
def Verdict.On (x : Stage) (step : String) (v : Verdict) : Prop := v = .fine ∨ v = .failing x step

theorem Verdict.On.fine (step : String) : Verdict.fine.On x step := .inl rfl

theorem Stage.on_blame (x : Stage) (p : Playbook) (step : String) (t : ToolRef) :
    (x.blame p step t).On x step := by
  unfold blame
  split
  · exact .inl rfl
  · exact .inr rfl

theorem Stage.verdict_poll_error (s : Suspended) (err : ToolError) :
    (polling s).verdict (.tool (.poll s.handle.tool s.handle.toolJobId)) (.error err) =
      if err.isRetryable then .fine
      else (polling s).blame s.playbook s.handle.stepId s.handle.tool := by
  by_cases h : err.isRetryable = true
  · simp [verdict, step?, EngineRequest.failing?, h]
  · simp [verdict, step?, EngineRequest.failing?, h, blame]

namespace Working

variable {step : String}

/-- A tool may be called while nothing is amiss, and again after it has failed. -/
theorem heeding_call {t : ToolRef} {params : Json} {limit : Span}
    {K : Except ToolError ToolResponse → Verdict → Prop} (hv : v.On x step)
    (hK : ∀ y, K y (x.verdict (.tool (.call t params limit)) y)) :
    heeding v (x, .tool (.call t params limit)) K := by
  rcases hv with rfl | rfl
  · exact hK
  · exact ⟨rfl, hK⟩

theorem heeding_now {K : Timestamp → Verdict → Prop} (hv : v.On x step) (hK : ∀ now, K now v) :
    heeding v (x, .tool .now) K := by
  rcases hv with rfl | rfl
  · intro y
    exact (congrArg (K y) (Stage.verdict_of_silent silent_now x y)).mpr (hK y)
  · exact hK

theorem heeding_sleep {d : Span} {K : Unit → Verdict → Prop} (hv : v.On x step) (hK : K () v) :
    heeding v (x, .tool (.sleep d)) K := by
  rcases hv with rfl | rfl
  · intro y
    exact (congrArg (K y) (Stage.verdict_of_silent (silent_sleep d) x y)).mpr hK
  · exact fun y => hK

end Working

namespace Step

variable {p : Playbook} {s : Step} {e : Execution}

/-- How the step has ended, and what was heard last. -/
def Leaves (x : Stage) (p : Playbook) (s : Step) : Except StepError StepResult → Verdict → Prop
  | .ok _, v => v = .fine
  | .error err, v => v = x.blame p s.id s.tool ∧ err.stepId = s.id

theorem attempt_heeds (settings : StepSettings) (params : Json) (start : Timestamp)
    (left made : Nat) (hv : v.On (.executing p s e) s.id) :
    ((tooling (s.attempt settings params start left made)).during (.executing p s e)).Assures
      heeding v (Leaves (.executing p s e) p s) := by
  induction left generalizing made v with
  | zero =>
    rw [attempt]
    change heeding v (_, .tool (.call s.tool params settings.timeout)) _
    refine heeding_call hv fun y => ?_
    rcases y with err | output | job
    case error => exact ⟨rfl, rfl⟩
    case ok.completed => exact heeding_now (.fine s.id) fun now => rfl
    case ok.dispatched => exact heeding_now (.fine s.id) fun now => rfl
  | succ left ih =>
    rw [attempt]
    change heeding v (_, .tool (.call s.tool params settings.timeout)) _
    refine heeding_call hv fun y => ?_
    rcases y with err | output | job
    case error =>
      have later := (Stage.executing p s e).on_blame p s.id s.tool
      change ((tooling (if err.isRetryable then _ else _)).during _).Assures heeding
        (Stage.blame _ p s.id s.tool) _
      split
      · exact heeding_sleep later (ih _ later)
      · exact ⟨rfl, rfl⟩
    case ok.completed => exact heeding_now (.fine s.id) fun now => rfl
    case ok.dispatched => exact heeding_now (.fine s.id) fun now => rfl

theorem execute_heeds (s : Step) (settings : StepSettings) :
    ((tooling (s.execute settings e)).during (.executing p s e)).Assures heeding .fine
      (Leaves (.executing p s e) p s) := by
  unfold execute
  split
  · exact heeding_now (.fine s.id) fun start => attempt_heeds settings _ start _ _ (.inl rfl)
  · exact heeding_now (.fine s.id) fun now => rfl

end Step

namespace Engine.Staged

variable {p : Playbook} (settings : StepSettings)

theorem runSteps_heeds (steps : List Step) (e : Execution) :
    (runSteps settings p steps e).Assures heeding .fine (Owned EngineError.stepId?) := by
  induction steps generalizing e with
  | nil => trivial
  | cons s rest ih =>
    rw [runSteps, assures_bind]
    refine (s.execute_heeds settings).mono heeding_mono fun x v hx => ?_
    cases x with
    | ok r =>
      obtain rfl : v = .fine := hx
      dsimp only
      split
      · exact fun id => trivial
      · exact ih _
    | error err =>
      obtain ⟨rfl, hid⟩ := hx
      refine heeding_now (Stage.on_blame ..) fun now => ?_
      unfold Stage.blame
      change (if p.isOptionalTool s.tool then _ else _ : Activity _ _).Assures _ _ _
      split
      · exact ih _
      · exact congrArg some hid

theorem drive_heeds (e : Execution) :
    (drive settings p e).Assures heeding .fine (Owned Failure.stepId) := by
  rw [drive, assures_bind]
  refine (runSteps_heeds settings _ e).mono heeding_mono fun x v hx => ?_
  rcases x with err | e | ⟨job, e⟩
  case error => cases v <;> exact hx
  case ok.dispatched =>
    cases v with
    | fine =>
      intro (free : Bool)
      change (if free then _ else _ : Activity _ _).Assures _ _ _
      split <;> trivial
    | _ => exact hx.elim
  case ok.finished =>
    cases v with
    | fine =>
      dsimp only
      rw [assures_bind]
      have completed := (complete_abides (P := EngineRequest.Silent) silent_now
        (fun _ _ => rfl) p e).heeds (.completing p e)
      refine completed.mono heeding_mono ?_
      rintro y _ ⟨-, rfl⟩
      cases y <;> trivial
    | _ => exact hx.elim

theorem settle_heeds (job : JobHandle) (e : Execution) :
    (settle settings job p e).Assures heeding .fine (JobStatus.Owns job.jobId) := by
  rw [settle, assures_bind]
  refine (drive_heeds settings e).mono heeding_mono fun x v hx => ?_
  rcases x with f | r | next
  case error =>
    cases v with
    | fine => exact fun _ => trivial
    | failing x step => exact ⟨hx, fun _ => ⟨rfl, rfl⟩⟩
    | recorded job f => exact hx.elim
  case ok.completed =>
    cases v with
    | fine => exact fun _ => trivial
    | _ => exact hx.elim
  case ok.dispatched =>
    cases v with
    | fine => exact fun _ => trivial
    | _ => exact hx.elim

theorem settleFailed_heeds (s : Suspended) (attempts : Nat) (cause : ToolError) :
    (settleFailed settings s attempts cause).Assures heeding
      ((Stage.polling s).blame s.playbook s.handle.stepId s.handle.tool)
      (JobStatus.Owns s.handle.jobId) := by
  refine heeding_now (Stage.on_blame ..) fun now => ?_
  unfold Stage.blame
  change (if s.playbook.isOptionalTool s.handle.tool then _ else _ : Activity _ _).Assures _ _ _
  split
  · exact settle_heeds settings s.handle _
  · exact ⟨rfl, fun _ => ⟨rfl, rfl⟩⟩

theorem resume_heeds (s : Suspended) :
    (resume settings s).Assures heeding .fine (JobStatus.Owns s.handle.jobId) := by
  intro x
  rcases x with err | _ | output | reason
  case ok.running => exact fun _ => trivial
  case ok.completed => exact fun now => settle_heeds settings s.handle _
  case ok.failed => exact settleFailed_heeds settings s _ _
  case error =>
    change (if err.isRetryable then _ else _ : Activity _ _).Assures _ _ _
    rw [Stage.verdict_poll_error]
    split
    · exact fun _ => trivial
    · exact settleFailed_heeds settings s _ _

theorem execute_heeds (g : Engine) {raw : Fields Json} (hmode : requestedMode raw ≠ .ok .batch)
    (code locale : String) : (execute g code locale raw).Assures heeding .fine Plan.Owns := by
  rw [execute, assures_bind]
  intro (traceId : String)
  change Assures heeding _ .fine _
  cases g.registry.resolve code locale with
  | error err => trivial
  | ok p =>
    dsimp only
    rcases hread : requestedMode raw with err | mode
    case error => trivial
    cases mode with
    | batch => exact absurd hread hmode
    | single =>
      dsimp only
      cases bind p.inputSchema raw with
      | error err => trivial
      | ok inputs =>
        intro (id : String) (now : Timestamp)
        change (drive g.steps p (Execution.begin id traceId p inputs now) >>= _).Assures _ _ _
        rw [assures_bind]
        exact (drive_heeds g.steps _).mono heeding_mono fun r v hr => hr

end Engine.Staged

theorem EngineRequest.within_all {parked : String → Suspended → Prop}
    {completed : ExecutionResult → Prop} (hparked : ∀ s, parked s.handle.jobId s)
    (hcompleted : ∀ r, completed r) (r : EngineRequest) : r.Within parked completed := by
  match r with
  | .job (.suspend s) => exact hparked s
  | .job (.release s) => exact hparked s
  | .job (.finish _ (.completed r)) => exact hcompleted r
  | .job (.finish _ (.pending _)) => trivial
  | .job (.finish _ (.failed _)) => trivial
  | .job (.forward _ _) => trivial
  | .freshId => trivial
  | .tool _ => trivial
  | .store _ => trivial

/-- The calls of an engine heed the failures of steps that may not fail. -/
def Engine.heedfulness (g : Engine) : Discipline .staged g where
  parked job s := s.handle.jobId = job
  completed _ := True
  executing rest := ∃ v, rest.Assures heeding v Plan.Owns
  querying job rest := ∃ v, rest.Assures heeding v (JobStatus.Owns job)
  execute code locale _ hmode := ⟨.fine, Staged.execute_heeds g hmode code locale⟩
  resume job s hs := ⟨.fine, hs ▸ Staged.resume_heeds g.steps s⟩
  executing_ask r _ h := by
    obtain ⟨v, h⟩ := h
    exact ⟨EngineRequest.within_all (fun _ => rfl) (fun _ => trivial) r.2, heeding_reply h⟩
  querying_ask _ r _ h := by
    obtain ⟨v, h⟩ := h
    exact ⟨EngineRequest.within_all (fun _ => rfl) (fun _ => trivial) r.2, heeding_reply h⟩
  executing_done plan _ := by
    match plan with
    | .answered (.ok (.completed r)) => trivial
    | .answered (.ok (.dispatched job)) => trivial
    | .answered (.error f) => trivial
    | .batch items conclude => trivial
  querying_done _ status _ := by cases status <;> trivial

end PlaybookEngine
