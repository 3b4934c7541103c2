import PlaybookEngine.Proofs.Engine.Runs

namespace PlaybookEngine

namespace Engine

variable {T S : Type} [ToolServer T] [IdSource S]

/-- An execution whose steps are to go on, when and in which world. -/
structure Segment (T S : Type) where
  playbook : Playbook
  execution : Execution
  now : Instant
  world : World T S

def Segment.run (g : Engine) (x : Segment T S) : Except Failure Invocation × Instant × World T S :=
  (drive g.steps x.playbook x.execution).run World.surroundings x.now x.world

/-- What a query comes to that goes on with a segment. -/
def Segment.settle (g : Engine) (x : Segment T S) (job : JobHandle) :
    JobStatus × Instant × World T S :=
  (Engine.settle g.steps job x.playbook x.execution).run World.surroundings x.now x.world

theorem Segment.settle_eq_match (g : Engine) (x : Segment T S) (job : JobHandle) :
    x.settle g job =
      match x.run g with
      | (.ok (.dispatched next), now, w) =>
        (.pending next, now, { w with jobs := w.jobs.forward now job.jobId next.jobId })
      | (.ok (.completed r), now, w) =>
        (.completed r, now, { w with jobs := w.jobs.finish now job.jobId (.completed r) })
      | (.error f, now, w) =>
        (.failed f, now, { w with jobs := w.jobs.finish now job.jobId (.failed f) }) :=
  run_settle ..

/-- The playbook and the inputs of an invocation in single mode, or why it is refused. -/
def accept (g : Engine) (code locale : String) (raw : Fields Json) :
    Except EngineError (Playbook × BoundInputs) :=
  match g.registry.resolve code locale with
  | .error err => .error (.playbook err)
  | .ok p =>
    match requestedMode raw with
    | .error err => .error (.validation err)
    | .ok _ =>
      match bind p.inputSchema raw with
      | .error err => .error (.validation err)
      | .ok inputs => .ok (p, inputs)

end Engine

namespace World

open Engine

variable {T S : Type} [ToolServer T] [IdSource S]

/-- The first segment of an execution. -/
def begin (w : World T S) (now : Instant) (p : Playbook) (inputs : BoundInputs) : Segment T S :=
  let (traceId, ids) := IdSource.fresh w.ids
  let (id, ids) := IdSource.fresh ids
  ⟨p, .begin id traceId p inputs (.ofNanos now), now, { w with ids := ids }⟩

/-- An execution that is not a batch has an answer. -/
theorem execute_single {w : World T S} {g : Engine} {now : Instant} {code locale : String}
    {raw : Fields Json} (hmode : requestedMode raw ≠ .ok .batch) :
    w.execute g now code locale raw =
      match g.accept code locale raw with
      | .error err =>
        (.ok (.error (err.toFailure (some (IdSource.fresh w.ids).1))), now,
          { w with ids := (IdSource.fresh w.ids).2 })
      | .ok (p, inputs) => ((w.begin now p inputs).run g).map .ok id := by
  unfold execute Engine.execute accept
  rw [Activity.run_bind, run_freshId]
  dsimp only
  cases g.registry.resolve code locale with
  | error err => rfl
  | ok p =>
    cases hmode' : requestedMode raw with
    | error err => rfl
    | ok mode =>
      cases mode with
      | batch => exact absurd hmode' hmode
      | single =>
        dsimp only
        cases hbind : bind p.inputSchema raw with
        | error err => rfl
        | ok inputs =>
          simp only [Activity.run_bind, run_freshId, run_now]
          rfl

/-- The segment that an invocation begins with; none when it is refused. -/
def begun? (w : World T S) (g : Engine) (now : Instant) (code locale : String)
    (raw : Fields Json) : Option (Segment T S) :=
  match g.accept code locale raw with
  | .error _ => none
  | .ok (p, inputs) => some (w.begin now p inputs)

/-- The segment that a query goes on with; none when the job has not ended or its failure ends the
execution. -/
def resumed? (w : World T S) (now : Instant) (id : String) : Option (Segment T S) :=
  match w.jobs.claimCurrent now id with
  | (_, .owned s, t) =>
    let x := (Tooling.poll s.handle.tool s.handle.toolJobId).run
      ToolServer.surroundings now w.tools
    match s.resumption (.ofNanos x.2.1) x.1 with
    | .continues e => some ⟨s.playbook, e, x.2.1, { w with tools := x.2.2, jobs := t }⟩
    | _ => none
  | _ => none

end World

end PlaybookEngine
