import PlaybookEngine.Engine.Invocation
import PlaybookEngine.Engine.Query
import PlaybookEngine.Proofs.Activity.Shown

namespace PlaybookEngine

/-- What an engine is at when it makes a request. -/
inductive Stage
  /-- No execution is under way: it has not begun, or it has ended or is parked. -/
  | outside
  /-- The step `s` of the execution is being run. -/
  | executing (p : Playbook) (s : Step) (e : Execution)
  /-- The execution has a job that is out, and is about to be parked. -/
  | parking (p : Playbook) (e : Execution)
  /-- The job of an execution that was parked is asked for. -/
  | polling (s : Suspended)
  /-- All steps have run. -/
  | completing (p : Playbook) (e : Execution)

/-- Requests with the stages that they are made in. -/
abbrev Working.Staged : Interface := Working.Shown Stage

namespace Engine.Staged

open Activity

def runSteps (settings : StepSettings) (p : Playbook) :
    List Step → Execution → Activity Working.Staged (Except EngineError Progress)
  | [], e => return .ok (.finished e)
  | s :: rest, e => do
    let e := { e with nextStep := e.nextStep + 1 }
    match ← (Working.tooling (s.execute settings e)).during (Stage.executing p s e) with
    | .ok r =>
      if r.status = .dispatched then
        let id ← Working.freshId.during (Stage.parking p (e.record r))
        return .ok (.dispatched (handle e p s r id) (e.record r))
      else runSteps settings p rest (e.record r)
    | .error err =>
      let now ← Working.now.during (Stage.executing p s e)
      if p.isOptionalTool s.tool then
        runSteps settings p rest (e.record (.failed s.id err.message err.attempts now now))
      else return .error (.step err)

def drive (settings : StepSettings) (p : Playbook) (e : Execution) :
    Activity Working.Staged (Except Failure Invocation) := do
  match ← runSteps settings p (p.steps.drop e.nextStep) e with
  | .error err => return .error (e.failure err)
  | .ok (.dispatched job e) =>
    if ← (Working.suspend ⟨job, p, e⟩).during (Stage.parking p e) then
      return .ok (.dispatched job)
    else return .error (e.failure (.jobConflict job.jobId))
  | .ok (.finished e) =>
    match ← (complete p e).during (Stage.completing p e) with
    | .error err => return .error (e.failure err)
    | .ok r => return .ok (.completed r)

def settle (settings : StepSettings) (job : JobHandle) (p : Playbook) (e : Execution) :
    Activity Working.Staged JobStatus := do
  match ← drive settings p e with
  | .ok (.dispatched next) =>
    (Working.forward job.jobId next.jobId).during Stage.outside
    return .pending next
  | .ok (.completed r) =>
    (Working.finish job.jobId (.completed r)).during Stage.outside
    return .completed r
  | .error f =>
    (Working.finish job.jobId (.failed f)).during Stage.outside
    return .failed f

def settleFailed (settings : StepSettings) (s : Suspended) (attempts : Nat) (cause : ToolError) :
    Activity Working.Staged JobStatus := do
  let err : StepError := ⟨s.handle.stepId, attempts, cause⟩
  let now ← Working.now.during (Stage.polling s)
  let e := s.execution.record
    (.failed s.handle.stepId err.message attempts s.handle.dispatchedAt now)
  if s.playbook.isOptionalTool s.handle.tool then settle settings s.handle s.playbook e
  else
    let f := e.failure (.step err)
    (Working.finish s.handle.jobId (.failed f)).during Stage.outside
    return .failed f

def resume (settings : StepSettings) (s : Suspended) : Activity Working.Staged JobStatus := do
  let job := s.handle
  let attempts := ((s.execution.result? job.stepId).map (·.attempts)).getD 1
  match ← (Working.tooling (Tooling.poll job.tool job.toolJobId)).during (Stage.polling s) with
  | .ok .running =>
    (Working.release s).during (Stage.polling s)
    return .pending job
  | .ok (.completed output) =>
    let now ← Working.now.during (Stage.polling s)
    settle settings job s.playbook
      (s.execution.record (.success job.stepId output attempts job.dispatchedAt now))
  | .ok (.failed reason) => settleFailed settings s attempts (.rejected reason)
  | .error err =>
    if err.isRetryable then
      (Working.release s).during (Stage.polling s)
      return .pending job
    else settleFailed settings s attempts err

def execute (g : Engine) (code locale : String) (raw : Fields Json) :
    Activity Working.Staged Plan := do
  let traceId ← Working.freshId.during Stage.outside
  match g.registry.resolve code locale with
  | .error err => return refused traceId (.playbook err)
  | .ok p =>
    match requestedMode raw with
    | .error err => return refused traceId (.validation err)
    | .ok .batch =>
      match ← (planBatch g.steps p raw traceId).during Stage.outside with
      | .error err => return refused traceId err
      | .ok plan => return plan
    | .ok .single =>
      match bind p.inputSchema raw with
      | .error err => return refused traceId (.validation err)
      | .ok inputs =>
        let id ← Working.freshId.during Stage.outside
        let now ← Working.now.during Stage.outside
        return .answered (← drive g.steps p (Execution.begin id traceId p inputs now))

theorem plain_runSteps (settings : StepSettings) (p : Playbook) (steps : List Step)
    (e : Execution) :
    (runSteps settings p steps e).plain = Engine.runSteps settings p steps e := by
  induction steps generalizing e with
  | nil => rfl
  | cons s rest ih =>
    rw [runSteps, Engine.runSteps, plain_bind, plain_during]
    refine congrArg (Bind.bind _) (funext fun x => ?_)
    cases x with
    | ok r =>
      dsimp only
      split
      · rfl
      · exact ih _
    | error err =>
      dsimp only
      rw [plain_bind, plain_during]
      refine congrArg (Bind.bind _) (funext fun now => ?_)
      split
      · exact ih _
      · rfl

theorem plain_drive (settings : StepSettings) (p : Playbook) (e : Execution) :
    (drive settings p e).plain = Engine.drive settings p e := by
  rw [drive, Engine.drive, plain_bind, plain_runSteps]
  refine congrArg (Bind.bind _) (funext fun x => ?_)
  match x with
  | .error err => rfl
  | .ok (.dispatched job e) =>
    dsimp only
    rw [plain_bind, plain_during]
    refine congrArg (Bind.bind _) (funext fun free => ?_)
    split <;> rfl
  | .ok (.finished e) =>
    dsimp only
    rw [plain_bind, plain_during]
    refine congrArg (Bind.bind _) (funext fun y => ?_)
    cases y <;> rfl

theorem plain_settle (settings : StepSettings) (job : JobHandle) (p : Playbook) (e : Execution) :
    (settle settings job p e).plain = Engine.settle settings job p e := by
  rw [settle, Engine.settle, plain_bind, plain_drive]
  refine congrArg (Bind.bind _) (funext fun x => ?_)
  match x with
  | .error f => rfl
  | .ok (.dispatched next) => rfl
  | .ok (.completed r) => rfl

theorem plain_settleFailed (settings : StepSettings) (s : Suspended) (attempts : Nat)
    (cause : ToolError) :
    (settleFailed settings s attempts cause).plain =
      Engine.settleFailed settings s attempts cause := by
  rw [settleFailed, Engine.settleFailed]
  dsimp only
  rw [plain_bind, plain_during]
  refine congrArg (Bind.bind _) (funext fun now => ?_)
  split
  · exact plain_settle ..
  · rfl

theorem plain_resume (settings : StepSettings) (s : Suspended) :
    (resume settings s).plain = Engine.resume settings s := by
  rw [resume, Engine.resume]
  dsimp only
  rw [plain_bind, plain_during]
  refine congrArg (Bind.bind _) (funext fun x => ?_)
  match x with
  | .ok .running => rfl
  | .ok (.completed output) =>
    dsimp only
    rw [plain_bind, plain_during]
    exact congrArg (Bind.bind _) (funext fun now => plain_settle ..)
  | .ok (.failed reason) => exact plain_settleFailed ..
  | .error err =>
    dsimp only
    split
    · rfl
    · exact plain_settleFailed ..

theorem plain_execute (g : Engine) (code locale : String) (raw : Fields Json) :
    (execute g code locale raw).plain = g.execute code locale raw := by
  rw [execute, Engine.execute, plain_bind, plain_during]
  refine congrArg (Bind.bind _) (funext fun traceId => ?_)
  cases g.registry.resolve code locale with
  | error err => rfl
  | ok p =>
    dsimp only
    match requestedMode raw with
    | .error err => rfl
    | .ok .batch =>
      dsimp only
      rw [plain_bind, plain_during]
      refine congrArg (Bind.bind _) (funext fun y => ?_)
      cases y <;> rfl
    | .ok .single =>
      dsimp only
      cases bind p.inputSchema raw with
      | error err => rfl
      | ok inputs =>
        dsimp only
        rw [plain_bind, plain_during]
        refine congrArg (Bind.bind _) (funext fun id => ?_)
        rw [plain_bind, plain_during]
        refine congrArg (Bind.bind _) (funext fun now => ?_)
        rw [plain_bind, plain_drive]
        rfl

end Engine.Staged

end PlaybookEngine
