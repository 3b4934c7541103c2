import PlaybookEngine.Proofs.Artifact.Store
import PlaybookEngine.Proofs.Engine.Surroundings

namespace PlaybookEngine

namespace Engine

def completion (p : Playbook) (e : Execution) (now : Timestamp) (st : ArtifactStore) :
    Except EngineError ExecutionResult × ArtifactStore :=
  match finalize p e (aggregate p.outputSchema e.successfulOutputs) with
  | .error faults => (.error (.schemaMismatch faults), st)
  | .ok final =>
    match st.persistAll now final.artifacts with
    | (.error err, st) => (.error (.storage err), st)
    | (.ok artifacts, st) =>
      (.ok ((e.advance final.status now).result p final.output final.flags artifacts []), st)

variable {T S : Type} [ToolServer T] [IdSource S]
variable (settings : StepSettings) (p : Playbook) (e : Execution) (now : Instant) (w : World T S)

theorem run_persistAll (ds : List ArtifactDraft) (now : Instant) (w : World T S) :
    (persistAll ds).run World.surroundings now w =
      let x := w.store.persistAll (.ofNanos now) ds
      (x.1, now, { w with store := x.2 }) := by
  induction ds generalizing w with
  | nil => rfl
  | cons d rest ih =>
    simp only [persistAll, Activity.run_bind, World.run_storage, ArtifactStore.persistAll]
    rcases ArtifactStore.run (.ofNanos now) (Artifact.persist d) w.store with ⟨x, st⟩
    cases x with
    | error err => rfl
    | ok a => simp only [Activity.run_bind, Activity.run_pure, ih]

theorem run_complete :
    (complete p e).run World.surroundings now w =
      let x := completion p e (.ofNanos now) w.store
      (x.1, now, { w with store := x.2 }) := by
  unfold complete completion
  cases finalize p e (aggregate p.outputSchema e.successfulOutputs) with
  | error faults => rfl
  | ok final =>
    simp only [Activity.run_bind, run_persistAll]
    rcases w.store.persistAll (.ofNanos now) final.artifacts with ⟨x, st⟩
    cases x with
    | error err => rfl
    | ok artifacts => simp only [Activity.run_bind, World.run_now, Activity.run_pure]

/-- One step, and the steps after it. -/
theorem run_runSteps_cons (s : Step) (rest : List Step) :
    (runSteps settings p (s :: rest) e).run World.surroundings now w =
      let e := { e with nextStep := e.nextStep + 1 }
      let x := (s.execute settings e).run ToolServer.surroundings now w.tools
      let w' := { w with tools := x.2.2 }
      match x.1 with
      | .ok r =>
        if r.status = .dispatched then
          (.ok (.dispatched (handle e p s r (IdSource.fresh w.ids).1) (e.record r)), x.2.1,
            { w' with ids := (IdSource.fresh w.ids).2 })
        else (runSteps settings p rest (e.record r)).run World.surroundings x.2.1 w'
      | .error err =>
        if p.isOptionalTool s.tool then
          (runSteps settings p rest (e.record (.failed s.id err.message err.attempts
            (.ofNanos x.2.1) (.ofNanos x.2.1)))).run World.surroundings x.2.1 w'
        else (.error (.step err), x.2.1, w') := by
  rw [runSteps, Activity.run_bind, World.run_tooling]
  dsimp only
  rcases (s.execute settings { e with nextStep := e.nextStep + 1 }).run
    ToolServer.surroundings now w.tools with ⟨x, now', t⟩
  cases x with
  | ok r =>
    dsimp only
    split
    · rfl
    · rfl
  | error err =>
    dsimp only
    rw [Activity.run_bind, World.run_now]
    dsimp only
    split
    · rfl
    · rfl

theorem runSteps_frame (steps : List Step) :
    ((runSteps settings p steps e).run World.surroundings now w).2.2.store = w.store ∧
      ((runSteps settings p steps e).run World.surroundings now w).2.2.jobs = w.jobs := by
  induction steps generalizing e now w with
  | nil => exact ⟨rfl, rfl⟩
  | cons s rest ih =>
    rw [run_runSteps_cons]
    dsimp only
    split
    · split
      · exact ⟨rfl, rfl⟩
      · exact ih _ _ _
    · split
      · exact ih _ _ _
      · exact ⟨rfl, rfl⟩

theorem runSteps_ids (steps : List Step) :
    match (runSteps settings p steps e).run World.surroundings now w with
    | (.ok (.dispatched job _), _, w') =>
      job.jobId = (IdSource.fresh w.ids).1 ∧ w'.ids = (IdSource.fresh w.ids).2
    | (_, _, w') => w'.ids = w.ids := by
  induction steps generalizing e now w with
  | nil => rfl
  | cons s rest ih =>
    rw [run_runSteps_cons]
    dsimp only
    rcases (s.execute settings { e with nextStep := e.nextStep + 1 }).run
      ToolServer.surroundings now w.tools with ⟨x, now', t⟩
    cases x with
    | ok r =>
      dsimp only
      by_cases hr : r.status = .dispatched
      · rw [if_pos hr]
        exact ⟨rfl, rfl⟩
      · rw [if_neg hr]
        exact ih _ _ _
    | error err =>
      dsimp only
      by_cases hs : p.isOptionalTool s.tool = true
      · rw [if_pos hs]
        exact ih _ _ _
      · rw [if_neg hs]

/-- What becomes of an execution when its steps have come to an end. -/
def ending (p : Playbook) (e : Execution) : Except EngineError Progress × Instant × World T S →
    Except Failure Invocation × Instant × World T S
  | (.error err, now, w) => (.error (e.failure err), now, w)
  | (.ok (.dispatched job e), now, w) =>
    (if (w.jobs.suspend now ⟨job, p, e⟩).1 then .ok (.dispatched job)
      else .error (e.failure (.jobConflict job.jobId)),
      now, { w with jobs := (w.jobs.suspend now ⟨job, p, e⟩).2 })
  | (.ok (.finished e), now, w) =>
    (((completion p e (.ofNanos now) w.store).1.map Invocation.completed).mapError e.failure,
      now, { w with store := (completion p e (.ofNanos now) w.store).2 })

theorem run_drive :
    (drive settings p e).run World.surroundings now w =
      ending p e
        ((runSteps settings p (p.steps.drop e.nextStep) e).run World.surroundings now w) := by
  rw [drive, Activity.run_bind]
  rcases (runSteps settings p (p.steps.drop e.nextStep) e).run World.surroundings now w with
    ⟨x, now', w'⟩
  cases x with
  | error err => rfl
  | ok progress =>
    cases progress with
    | dispatched job e =>
      dsimp only [ending]
      rw [Activity.run_bind, World.run_suspend]
      dsimp only
      split
      · rfl
      · rfl
    | finished e =>
      dsimp only [ending]
      rw [Activity.run_bind, run_complete]
      dsimp only
      rcases completion p e (.ofNanos now') w'.store with ⟨x, st⟩
      cases x with
      | error err => rfl
      | ok r => rfl

/-- An execution goes on after its job has ended, and the job is settled by what comes of it. -/
theorem run_settle (job : JobHandle) :
    (settle settings job p e).run World.surroundings now w =
      match (drive settings p e).run World.surroundings now w with
      | (.ok (.dispatched next), now, w) =>
        (.pending next, now, { w with jobs := w.jobs.forward now job.jobId next.jobId })
      | (.ok (.completed r), now, w) =>
        (.completed r, now, { w with jobs := w.jobs.finish now job.jobId (.completed r) })
      | (.error f, now, w) =>
        (.failed f, now, { w with jobs := w.jobs.finish now job.jobId (.failed f) }) := by
  rw [settle, Activity.run_bind]
  rcases (drive settings p e).run World.surroundings now w with ⟨x, now', w'⟩
  cases x with
  | error f => rfl
  | ok answer =>
    cases answer with
    | completed r => rfl
    | dispatched next => rfl

end Engine

/-- What the answer of a job means for the execution that waits for it. -/
inductive Resumption
  | waits
  | fails (f : Failure)
  | continues (e : Execution)

namespace Suspended

/-- How often the tool of the awaited job was called. -/
def attempts (s : Suspended) : Nat :=
  ((s.execution.result? s.handle.stepId).map (·.attempts)).getD 1

def failed (s : Suspended) (now : Timestamp) (cause : ToolError) : Resumption :=
  let err : StepError := ⟨s.handle.stepId, s.attempts, cause⟩
  let e := s.execution.record
    (.failed s.handle.stepId err.message s.attempts s.handle.dispatchedAt now)
  if s.playbook.isOptionalTool s.handle.tool then .continues e else .fails (e.failure (.step err))

def resumption (s : Suspended) (now : Timestamp) : Except ToolError JobState → Resumption
  | .ok .running => .waits
  | .ok (.completed output) =>
    .continues (s.execution.record
      (.success s.handle.stepId output s.attempts s.handle.dispatchedAt now))
  | .ok (.failed reason) => s.failed now (.rejected reason)
  | .error err => if err.isRetryable then .waits else s.failed now err

end Suspended

namespace Engine

variable {T S : Type} [ToolServer T] [IdSource S]
variable (settings : StepSettings) (s : Suspended) (now : Instant) (w : World T S)

/-- What a query does with the meaning of the answer. -/
def conclude : Resumption → Activity Working JobStatus
  | .waits => do
    Working.release s
    return .pending s.handle
  | .fails f => do
    Working.finish s.handle.jobId (.failed f)
    return .failed f
  | .continues e => settle settings s.handle s.playbook e

theorem run_settleFailed (cause : ToolError) :
    (settleFailed settings s s.attempts cause).run World.surroundings now w =
      (conclude settings s (s.failed (.ofNanos now) cause)).run World.surroundings now w := by
  rw [settleFailed, Activity.run_bind, World.run_now, Suspended.failed]
  dsimp only
  split
  · rfl
  · rfl

theorem run_resume :
    (resume settings s).run World.surroundings now w =
      let x := (Tooling.poll s.handle.tool s.handle.toolJobId).run
        ToolServer.surroundings now w.tools
      (conclude settings s (s.resumption (.ofNanos x.2.1) x.1)).run World.surroundings x.2.1
        { w with tools := x.2.2 } := by
  simp only [resume]
  rw [Activity.run_bind, World.run_tooling]
  dsimp only
  rcases (Tooling.poll s.handle.tool s.handle.toolJobId).run ToolServer.surroundings now w.tools
    with ⟨x, now', t⟩
  cases x with
  | error err =>
    dsimp only [Suspended.resumption]
    split
    · rfl
    · exact run_settleFailed ..
  | ok state =>
    cases state with
    | running => rfl
    | completed output => rfl
    | failed reason => exact run_settleFailed ..

end Engine

namespace World

variable {T S : Type} [ToolServer T] [IdSource S]
variable {w : World T S} {g : Engine} {now : Instant} {id : String}

/-- A query that is granted a claim asks the tool, concludes and drops the claim. -/
theorem query_of_owned {job : String} {s : Suspended} {t : JobTable}
    (h : w.jobs.claimCurrent now id = (job, .owned s, t)) :
    w.query g now id =
      let x := (Tooling.poll s.handle.tool s.handle.toolJobId).run
        ToolServer.surroundings now w.tools
      let y := (Engine.conclude g.steps s (s.resumption (.ofNanos x.2.1) x.1)).run surroundings
        x.2.1 { w with tools := x.2.2, jobs := t }
      (.ok y.1, y.2.1, y.2.2.dropClaim job) := by
  simp only [query, beginQuery, Engine.query, h, Engine.run_resume]

omit [ToolServer T] [IdSource S] in
/-- Any other query is answered from the table of jobs. -/
theorem beginQuery_of_not_owned (h : ∀ s, (w.jobs.claimCurrent now id).2.1 ≠ .owned s) :
    ∃ r, w.beginQuery g now id =
      (.answered r, { w with jobs := (w.jobs.claimCurrent now id).2.2 }) := by
  revert h
  simp only [beginQuery, Engine.query]
  rcases w.jobs.claimCurrent now id with ⟨job, c, t⟩
  intro h
  cases c with
  | unknown => exact ⟨_, rfl⟩
  | busy job => exact ⟨_, rfl⟩
  | forwarded next => exact ⟨_, rfl⟩
  | finished status => exact ⟨_, rfl⟩
  | owned s => exact absurd rfl (h s)

theorem query_of_answered {r : Except Failure JobStatus} {w' : World T S}
    (h : w.beginQuery g now id = (.answered r, w')) : w.query g now id = (r, now, w') := by
  simp only [query, h]

end World

end PlaybookEngine
