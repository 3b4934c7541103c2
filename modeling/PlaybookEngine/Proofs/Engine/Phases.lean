import PlaybookEngine.Proofs.Engine.Suspension
import PlaybookEngine.Proofs.Tool.Repetition

namespace PlaybookEngine

/-- What tools make of a parked execution. -/
inductive Heard
  /-- The job goes on. -/
  | waits
  | fails (f : Failure)
  /-- The step `s` has handed out another job. -/
  | dispatched (s : Step) (r : StepResult) (e : Execution)
  | finished (e : Execution)

def JobHandle.untimed (j : JobHandle) : JobHandle := { j with dispatchedAt := .zero }

def JobStatus.untimed : JobStatus → JobStatus
  | .pending job => .pending job.untimed
  | .completed r => .completed r.untimed
  | .failed f => .failed f

def Suspended.untimed (s : Suspended) : Suspended :=
  { s with handle := s.handle.untimed, execution := s.execution.untimed }

/-- What an answer means for two executions that agree without the times. -/
inductive Resumption.Same : Resumption → Resumption → Prop
  | waits : Same .waits .waits
  | fails (f : Failure) : Same (.fails f) (.fails f)
  | continues {e e' : Execution} (he : e.untimed = e'.untimed) : Same (.continues e) (.continues e')

/-- What tools have made of two executions that agree without the times. -/
inductive Heard.Same : Heard → Heard → Prop
  | waits : Same .waits .waits
  | fails (f : Failure) : Same (.fails f) (.fails f)
  | dispatched (s : Step) {r r' : StepResult} {e e' : Execution} (hr : r.untimed = r'.untimed)
    (he : e.untimed = e'.untimed) : Same (.dispatched s r e) (.dispatched s r' e')
  | finished {e e' : Execution} (he : e.untimed = e'.untimed) : Same (.finished e) (.finished e')

/-- An execution that goes on fails as it would have failed from the start. -/
def Heard.FailsAs (fail : EngineError → Failure) : Heard → Prop
  | .dispatched _ _ e => e.failure = fail
  | .finished e => e.failure = fail
  | _ => True

namespace Suspended

variable {s s' : Suspended}

theorem parts_congr (h : s.untimed = s'.untimed) : s.handle.untimed = s'.handle.untimed ∧
    s.playbook = s'.playbook ∧ s.execution.untimed = s'.execution.untimed :=
  ⟨congrArg (fun s => s.handle) h, congrArg (fun s => s.playbook) h,
    congrArg (fun s => s.execution) h⟩

theorem attempts_congr (h : s.untimed = s'.untimed) : s.attempts = s'.attempts := by
  obtain ⟨handle, -, execution⟩ := parts_congr h
  have stepId : s.handle.stepId = s'.handle.stepId := congrArg (fun j => j.stepId) handle
  have untimed (s : Suspended) : s.attempts =
      ((s.execution.untimed.result? s.handle.stepId).map StepResult.attempts).getD 1 := by
    rw [Execution.result?_untimed, Option.map_map]
    rfl
  rw [untimed s, untimed s', stepId, execution]

theorem failed_same (h : s.untimed = s'.untimed) (now now' : Timestamp) (cause : ToolError) :
    Resumption.Same (s.failed now cause) (s'.failed now' cause) := by
  obtain ⟨handle, playbook, execution⟩ := parts_congr h
  have stepId : s.handle.stepId = s'.handle.stepId := congrArg (fun j => j.stepId) handle
  have tool : s.handle.tool = s'.handle.tool := congrArg (fun j => j.tool) handle
  simp only [failed, stepId, tool, playbook, attempts_congr h]
  split
  · exact .continues (Execution.record_congr execution rfl)
  · rw [Execution.failure_congr (Execution.record_congr execution rfl)]
    exact .fails _

theorem resumption_same (h : s.untimed = s'.untimed) (now now' : Timestamp)
    (answer : Except ToolError JobState) :
    Resumption.Same (s.resumption now answer) (s'.resumption now' answer) := by
  rcases answer with err | state
  · rw [resumption, resumption]
    split
    · exact .waits
    · exact failed_same h now now' err
  · cases state with
    | running => exact .waits
    | failed reason => exact failed_same h now now' _
    | completed output =>
      obtain ⟨handle, -, execution⟩ := parts_congr h
      have stepId : s.handle.stepId = s'.handle.stepId := congrArg (fun j => j.stepId) handle
      rw [resumption, resumption, stepId, attempts_congr h]
      exact .continues (Execution.record_congr execution rfl)

theorem failure_of_continues {now : Timestamp} {answer : Except ToolError JobState} {e : Execution}
    (h : s.resumption now answer = .continues e) : e.failure = s.execution.failure := by
  have failed (cause : ToolError) (h : s.failed now cause = .continues e) :
      e.failure = s.execution.failure := by
    rw [Suspended.failed] at h
    split at h
    · cases h
      rfl
    · cases h
  rcases answer with err | state
  · rw [resumption] at h
    split at h
    · cases h
    · exact failed err h
  · cases state with
    | running => cases h
    | failed reason => exact failed _ h
    | completed output =>
      cases h
      rfl

end Suspended

namespace Working

variable {α β : Type}

theorem tooling_bind (p : Activity Tooling α) (f : α → Activity Tooling β) :
    tooling (p >>= f) = tooling p >>= fun a => tooling (f a) :=
  Activity.through_bind ..

theorem storage_bind (p : Activity Storage α) (f : α → Activity Storage β) :
    storage (p >>= f) = storage p >>= fun a => storage (f a) :=
  Activity.through_bind ..

end Working

namespace Engine

variable (settings : StepSettings) (p : Playbook) (s : Suspended)

/-- The given steps as far as tools bring them; `fail` tells how an execution fails. -/
def walk (fail : EngineError → Failure) : List Step → Execution → Activity Tooling Heard
  | [], e => return .finished e
  | s :: rest, e => do
    match ← s.execute settings e.stepping with
    | .ok r =>
      if r.status = .dispatched then return .dispatched s r e.stepping
      else walk fail rest (e.stepping.record r)
    | .error err =>
      let now ← Tooling.now
      if p.isOptionalTool s.tool then
        walk fail rest (e.stepping.record (.failed s.id err.message err.attempts now now))
      else return .fails (fail (.step err))

def proceed : Resumption → Activity Tooling Heard
  | .waits => return .waits
  | .fails f => return .fails f
  | .continues e =>
    walk settings s.playbook s.execution.failure (s.playbook.steps.drop e.nextStep) e

def hear : Activity Tooling Heard := do
  let answer ← Tooling.poll s.handle.tool s.handle.toolJobId
  match JobState.ending? answer with
  | none => return .waits
  | some _ => proceed settings s (s.resumption (← Tooling.now) answer)

def park (s : Step) (r : StepResult) (e : Execution) (id : String) : Suspended :=
  ⟨handle e p s r id, p, e.record r⟩

def giveUp (f : Failure) : Activity Working JobStatus := do
  Working.finish s.handle.jobId (.failed f)
  return .failed f

def conclusion (e : Execution) : Except EngineError ExecutionResult → Activity Working JobStatus
  | .error err => giveUp s (e.failure err)
  | .ok r => do
    Working.finish s.handle.jobId (.completed r)
    return .completed r

/-- What a query does when it knows what tools have made of the execution. -/
def act : Heard → Activity Working JobStatus
  | .waits => do
    Working.release s
    return .pending s.handle
  | .fails f => giveUp s f
  | .dispatched step r e => do
    let next := park s.playbook step r e (← Working.freshId)
    if ← Working.suspend next then
      Working.forward s.handle.jobId next.handle.jobId
      return .pending next.handle
    else giveUp s (e.failure (.jobConflict next.handle.jobId))
  | .finished e => do conclusion s e (← complete s.playbook e)

/-- What a query does after the steps have come so far. -/
def settleProgress (fail : EngineError → Failure) :
    Except EngineError Progress → Activity Working JobStatus
  | .error err => giveUp s (fail err)
  | .ok (.dispatched job e) => do
    if ← Working.suspend ⟨job, s.playbook, e⟩ then
      Working.forward s.handle.jobId job.jobId
      return .pending job
    else giveUp s (e.failure (.jobConflict job.jobId))
  | .ok (.finished e) => do conclusion s e (← complete s.playbook e)

theorem settle_eq_bind (e : Execution) :
    settle settings s.handle s.playbook e =
      runSteps settings s.playbook (s.playbook.steps.drop e.nextStep) e >>=
        settleProgress s e.failure := by
  rw [settle, drive, bind_assoc]
  refine congrArg _ (funext fun x => ?_)
  rcases x with err | ⟨e₁⟩ | ⟨job, e₁⟩
  · rfl
  · dsimp only [settleProgress]
    rw [bind_assoc]
    refine congrArg _ (funext fun y => ?_)
    cases y with
    | error err => rfl
    | ok r => rfl
  · dsimp only [settleProgress]
    rw [bind_assoc]
    refine congrArg _ (funext fun free => ?_)
    split
    · rfl
    · rfl

theorem runSteps_eq_walk (fail : EngineError → Failure) (steps : List Step) (e : Execution) :
    runSteps settings s.playbook steps e >>= settleProgress s fail =
      Working.tooling (walk settings s.playbook fail steps e) >>= act s := by
  induction steps generalizing e with
  | nil => rfl
  | cons step rest ih =>
    rw [runSteps, walk, Working.tooling_bind, bind_assoc, bind_assoc]
    refine congrArg _ (funext fun x => ?_)
    cases x with
    | ok r =>
      dsimp only
      by_cases hr : r.status = .dispatched
      · rw [if_pos hr, if_pos hr]
        rfl
      · rw [if_neg hr, if_neg hr]
        exact ih _
    | error err =>
      dsimp only
      rw [Working.tooling_bind, bind_assoc, bind_assoc]
      refine congrArg _ (funext fun now => ?_)
      by_cases hopt : s.playbook.isOptionalTool step.tool = true
      · rw [if_pos hopt, if_pos hopt]
        exact ih _
      · rw [if_neg hopt, if_neg hopt]
        rfl

theorem settle_eq_walk (e : Execution) :
    settle settings s.handle s.playbook e =
      Working.tooling (walk settings s.playbook e.failure
        (s.playbook.steps.drop e.nextStep) e) >>= act s :=
  (settle_eq_bind settings s e).trans (runSteps_eq_walk settings s e.failure _ e)

/-- A job that failed: the steps go on, or the execution has failed. -/
theorem settleFailed_eq (cause : ToolError) :
    settleFailed settings s s.attempts cause =
      Working.tooling (do proceed settings s (s.failed (← Tooling.now) cause)) >>= act s := by
  rw [settleFailed, Working.tooling_bind, bind_assoc]
  refine congrArg _ (funext fun now => ?_)
  dsimp only [Suspended.failed]
  by_cases hopt : s.playbook.isOptionalTool s.handle.tool = true
  · rw [if_pos hopt, if_pos hopt]
    exact settle_eq_walk settings s _
  · rw [if_neg hopt, if_neg hopt]
    rfl

/-- A query asks tools first, and then acts on what they have made of the execution. -/
theorem resume_eq : resume settings s = Working.tooling (hear settings s) >>= act s := by
  rw [resume, hear, Working.tooling_bind, bind_assoc]
  refine congrArg _ (funext fun answer => ?_)
  rcases answer with err | state
  · dsimp only [JobState.ending?]
    by_cases hretry : err.isRetryable = true
    · rw [if_pos hretry, if_pos hretry]
      rfl
    · rw [if_neg hretry, if_neg hretry]
      simp only [Suspended.resumption, if_neg hretry]
      exact settleFailed_eq settings s err
  · cases state with
    | running => rfl
    | failed reason => exact settleFailed_eq settings s (.rejected reason)
    | completed output =>
      dsimp only [JobState.ending?, Suspended.resumption]
      rw [Working.tooling_bind, bind_assoc]
      exact congrArg _ (funext fun now => settle_eq_walk settings s _)

open Tooling Activity

/-- The steps of executions that agree without the times ask tools for the same. -/
theorem walk_twin (fail : EngineError → Failure) (steps : List Step) {e e' : Execution}
    (he : e.untimed = e'.untimed) :
    Twin settings.timeout Heard.Same (walk settings p fail steps e)
      (walk settings p fail steps e') := by
  induction steps generalizing e e' with
  | nil => exact .done (.finished he)
  | cons s rest ih =>
    have stepping := Execution.stepping_congr he
    rw [walk, walk]
    refine (s.execute_twin settings stepping).bind fun x x' hx => ?_
    rcases cases_of_map_eq hx with ⟨err, rfl, rfl⟩ | ⟨r, r', rfl, rfl, hr⟩
    · refine .now_bind fun now now' => ?_
      split
      · exact ih (Execution.record_congr stepping rfl)
      · exact .done (.fails _)
    · have status : r.status = r'.status := congrArg (fun r => r.status) hr
      dsimp only
      rw [status]
      split
      · exact .done (.dispatched s hr stepping)
      · exact ih (Execution.record_congr stepping hr)

theorem proceed_twin {s s' : Suspended} (hs : s.untimed = s'.untimed) {x x' : Resumption}
    (hx : Resumption.Same x x') :
    Twin settings.timeout Heard.Same (proceed settings s x) (proceed settings s' x') := by
  obtain ⟨-, playbook, execution⟩ := Suspended.parts_congr hs
  have failure : s.execution.failure = s'.execution.failure :=
    funext (Execution.failure_congr execution)
  cases hx with
  | waits => exact .done .waits
  | fails f => exact .done (.fails f)
  | continues he =>
    rw [proceed, proceed, playbook, failure, Execution.nextStep_congr he]
    exact walk_twin settings _ _ _ he

theorem hear_twin {s s' : Suspended} (hs : s.untimed = s'.untimed) :
    Twin settings.timeout Heard.Same (hear settings s) (hear settings s') := by
  obtain ⟨handle, -, -⟩ := Suspended.parts_congr hs
  have tool : s.handle.tool = s'.handle.tool := congrArg (fun j => j.tool) handle
  have job : s.handle.toolJobId = s'.handle.toolJobId := congrArg (fun j => j.toolJobId) handle
  rw [hear, hear, tool, job]
  refine .poll_bind _ _ fun answer => ?_
  cases JobState.ending? answer with
  | none => exact .done .waits
  | some x =>
    refine .now_bind fun now now' => ?_
    exact proceed_twin settings hs (Suspended.resumption_same hs now now' answer)

/-- Whatever tools answer, the execution fails as before. -/
theorem walk_failsAs {fail : EngineError → Failure} (steps : List Step) (e : Execution)
    (he : e.failure = fail) :
    (walk settings p fail steps e).Abides (fun _ => True) (Heard.FailsAs fail) := by
  induction steps generalizing e with
  | nil => exact he
  | cons s rest ih =>
    rw [walk, abides_bind]
    refine abides_all (fun x => ?_) _
    cases x with
    | ok r =>
      dsimp only
      split
      · exact he
      · exact ih _ he
    | error err =>
      dsimp only
      rw [abides_bind]
      refine abides_all (fun now => ?_) _
      split
      · exact ih _ he
      · trivial

theorem hear_failsAs (s : Suspended) :
    (hear settings s).Abides (fun _ => True) (Heard.FailsAs s.execution.failure) := by
  rw [hear, abides_bind]
  refine abides_all (fun answer => ?_) _
  cases JobState.ending? answer with
  | none => trivial
  | some x =>
    dsimp only
    rw [abides_bind]
    refine abides_all (fun now => ?_) _
    cases hres : s.resumption now answer with
    | waits => trivial
    | fails f => trivial
    | continues e => exact walk_failsAs settings _ _ e (Suspended.failure_of_continues hres)

end Engine

end PlaybookEngine
