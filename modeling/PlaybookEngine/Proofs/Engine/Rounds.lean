import PlaybookEngine.Proofs.Engine.Phases
import PlaybookEngine.Proofs.Engine.Transparency

namespace PlaybookEngine.World

open Engine ToolServer

/-- What is told of an execution that was completed, or failed to be. -/
def statusOf (e : Execution) : Except EngineError ExecutionResult → JobStatus
  | .error err => .failed (e.failure err)
  | .ok r => .completed r

theorem terminal_statusOf (e : Execution) (x : Except EngineError ExecutionResult) :
    (statusOf e x).isTerminal = true := by cases x <;> rfl

theorem statusOf_congr {e e' : Execution} (he : e.untimed = e'.untimed)
    {x x' : Except EngineError ExecutionResult}
    (hx : x.map ExecutionResult.untimed = x'.map ExecutionResult.untimed) :
    (statusOf e x).untimed = (statusOf e' x').untimed := by
  rcases cases_of_map_eq hx with ⟨err, rfl, rfl⟩ | ⟨r, r', rfl, rfl, same⟩
  · rw [statusOf, statusOf, Execution.failure_congr he]
  · exact congrArg JobStatus.completed same

section Round

variable {T S : Type} [IdSource S] {w : World T S} {g : Engine} {id : String}
  {now now₁ later : Instant} {s : Suspended} {path : List String} {t : T}

def held (w : World T S) (now₁ : Instant) (s : Suspended) (t : T) : World T S :=
  { w with tools := t, jobs := w.jobs.claimed now₁ s }

/-- The execution is parked where the job leads to, unless the entry of the job has expired, and no
id that is handed out is in use. -/
structure Waiting (w : World T S) (now : Instant) (id : String) (s : Suspended) : Prop where
  leads : w.jobs.find? id = none ∨ ∃ path, w.jobs.LeadsTo now id path s
  unused : ∀ n, w.Unused n

theorem Waiting.leadsTo (h : w.Waiting now id s) (hin : w.jobs.InTime now₁ id) :
    ∃ path, w.jobs.LeadsTo now id path s := by
  rcases h.leads with gone | leads
  · obtain ⟨e, he, -⟩ := hin
    rw [gone] at he
    cases he
  · exact leads

omit [IdSource S] in
theorem absent_ne (leads : w.jobs.LeadsTo now id path s) {k : String}
    (hk : w.jobs.find? k = none) : k ≠ s.handle.jobId := by
  rintro rfl
  rw [leads.parked] at hk
  cases hk

theorem Waiting.release (h : w.Waiting now id s) (hin : w.jobs.InTime now₁ id)
    (hle : now ≤ later) :
    Waiting { w.held now₁ s t with jobs := (w.held now₁ s t).jobs.released s } later id s := by
  obtain ⟨path, leads⟩ := h.leadsTo hin
  refine ⟨.inr ⟨path, leads.release hin hle⟩, fun n => (h.unused n).congr rfl fun k hk => ?_⟩
  have hne := absent_ne leads hk
  exact (JobTable.find?_released hne).trans (JobTable.find?_claimed leads.ordered hk hne)

variable [ToolServer T]

/-- What a query tells when it knows what tools have made of the execution. -/
def concluded (s : Suspended) (x : Heard) (now : Instant) (v : World T S) :
    Except Failure JobStatus × Instant × World T S :=
  let y := (act s x).run surroundings now v
  (.ok y.1, y.2.1, y.2.2.dropClaim s.handle.jobId)

/-- A query in time hears what tools make of the execution, and acts on it. -/
theorem query_of_leads (leads : w.jobs.LeadsTo now id path s) (hin : w.jobs.InTime now₁ id) :
    w.query g now₁ id =
      let x := (hear g.steps s).run ToolServer.surroundings now₁ w.tools
      concluded s x.1 x.2.1 (w.held now₁ s x.2.2) := by
  simp only [query, beginQuery, Engine.query, leads.claim hin, resume_eq, Activity.run_bind,
    run_tooling]
  rfl

theorem concluded_waits (v : World T S) : concluded s .waits later v =
    (.ok (.pending s.handle), later, { v with jobs := v.jobs.released s }) := rfl

theorem Waiting.park (h : w.Waiting now id s) (hin : w.jobs.InTime now₁ id) (hle : now ≤ later)
    (step : Step) (r : StepResult) (e : Execution) :
    let next := park s.playbook step r e (IdSource.fresh w.ids).1
    ∃ jobs, concluded s (.dispatched step r e) later (w.held now₁ s t) =
        (.ok (.pending next.handle), later,
          { w with tools := t, jobs := jobs, ids := (IdSource.fresh w.ids).2 }) ∧
      Waiting { w with tools := t, jobs := jobs, ids := (IdSource.fresh w.ids).2 } later id
        next := by
  intro next
  obtain ⟨path, leads⟩ := h.leadsTo hin
  have free : w.jobs.find? next.handle.jobId = none := (h.unused 1).head Nat.one_pos
  have hord := JobTable.ordered_claimed leads.ordered now₁ s
  have absent (k : String) (hk : w.jobs.find? k = none) :
      (w.jobs.claimed now₁ s).find? k = none :=
    JobTable.find?_claimed leads.ordered hk (absent_ne leads hk)
  have accepted : ((w.jobs.claimed now₁ s).suspend later next).1 = true := by
    rw [JobTable.suspend_free]
    rw [JobTable.find?_evict hord, absent _ free]
    rfl
  refine ⟨(w.jobs.claimed now₁ s).movedOn later s next, ?_, ?_, fun n => ?_⟩
  · have ran : (act s (.dispatched step r e)).run surroundings later (w.held now₁ s t) =
        (.pending next.handle, later, { w with
          tools := t, ids := (IdSource.fresh w.ids).2
          jobs := ((w.jobs.claimed now₁ s).suspend later next).2.forward later s.handle.jobId
            next.handle.jobId }) := by
      rw [act, Activity.run_bind, run_freshId]
      dsimp only
      rw [Activity.run_bind, run_suspend]
      change Activity.run surroundings
        (if ((w.jobs.claimed now₁ s).suspend later next).1 = true then _ else _) _ _ = _
      rw [if_pos accepted]
      rfl
    rw [concluded, ran]
    rfl
  · exact (leads.movedOn hin hle free).imp (fun gone => gone) fun leads => ⟨_, leads⟩
  · refine (h.unused (n + 1)).tail rfl fun k hne hk => ?_
    exact JobTable.find?_movedOn hord (absent _ free) (absent _ hk) (absent_ne leads hk) hne

theorem concluded_finished (s : Suspended) (e : Execution) (later : Instant) (v : World T S) :
    ∃ v', concluded s (.finished e) later v =
      (.ok (statusOf e (completion s.playbook e (.ofNanos later) v.store).1), later, v') := by
  rw [concluded, act, Activity.run_bind, run_complete]
  dsimp only
  cases (completion s.playbook e (.ofNanos later) v.store).1 with
  | error err => exact ⟨_, rfl⟩
  | ok r => exact ⟨_, rfl⟩

end Round

section Match

variable {T T' S : Type} [IdSource S] {R : T → T' → Prop} {g : Engine} {id : String}

/-- The same execution is parked in two worlds that are alike. -/
structure Paired (R : T → T' → Prop) (id : String) (now : Instant) (w : World T S) (now' : Instant)
    (w' : World T' S) (s s' : Suspended) : Prop where
  same : s.untimed = s'.untimed
  tools : R w.tools w'.tools
  store : w.store.outline = w'.store.outline
  ids : w.ids = w'.ids
  waiting : w.Waiting now id s
  waiting' : w'.Waiting now' id s'

/-- Two queries have told the same end, or both of them that the execution goes on. -/
inductive RoundMatch (R : T → T' → Prop) (id : String) :
    Except Failure JobStatus × Instant × World T S →
      Except Failure JobStatus × Instant × World T' S → Prop
  | told {status status' : JobStatus} {now now' : Instant} {w : World T S} {w' : World T' S}
    (same : status.untimed = status'.untimed) (ended : status.isTerminal = true) :
    RoundMatch R id (.ok status, now, w) (.ok status', now', w')
  | waits {next next' : Suspended} {now now' : Instant} {w : World T S} {w' : World T' S}
    (paired : Paired R id now w now' w' next next') :
    RoundMatch R id (.ok (.pending next.handle), now, w) (.ok (.pending next'.handle), now', w')

omit [IdSource S] in
theorem park_congr (p : Playbook) (step : Step) {r r' : StepResult} {e e' : Execution}
    (hr : r.untimed = r'.untimed) (he : e.untimed = e'.untimed) (id : String) :
    (park p step r e id).untimed = (park p step r' e' id).untimed := by
  have job : r.jobId = r'.jobId := congrArg (fun r => r.jobId) hr
  have execution : e.id = e'.id := congrArg (fun e => e.id) he
  have trace : e.traceId = e'.traceId := congrArg (fun e => e.traceId) he
  simp only [park, handle, Suspended.untimed, JobHandle.untimed, job, execution, trace,
    Execution.record_congr he hr]

variable [ToolServer T] [ToolServer T'] {now now₁ now' now₁' : Instant} {w : World T S}
  {w' : World T' S} {s s' : Suspended}

theorem Paired.query (hR : Agreeing R g.steps.timeout) (h : Paired R id now w now' w' s s')
    (hle : now ≤ now₁) (hin : w.jobs.InTime now₁ id) (hle' : now' ≤ now₁')
    (hin' : w'.jobs.InTime now₁' id) :
    RoundMatch R id (w.query g now₁ id) (w'.query g now₁' id) := by
  obtain ⟨path, leads⟩ := h.waiting.leadsTo hin
  obtain ⟨path', leads'⟩ := h.waiting'.leadsTo hin'
  rw [query_of_leads leads hin, query_of_leads leads' hin']
  have heard := (hear_twin g.steps h.same).run hR h.tools
    (Activity.comesTo_run (hear g.steps s) now₁ w.tools) now₁'
  have late := Activity.le_run ToolServer.le_arrival (hear g.steps s) now₁ w.tools
  have late' := Activity.le_run ToolServer.le_arrival (hear g.steps s') now₁' w'.tools
  dsimp only
  generalize (hear g.steps s).run ToolServer.surroundings now₁ w.tools = y at heard late ⊢
  generalize (hear g.steps s').run ToolServer.surroundings now₁' w'.tools = y' at heard late' ⊢
  rcases y with ⟨x, later, t⟩
  rcases y' with ⟨x', later', t'⟩
  obtain ⟨same, tools⟩ := heard
  have onTime : now ≤ later := hle.trans late
  have onTime' : now' ≤ later' := hle'.trans late'
  cases same with
  | waits =>
    rw [concluded_waits, concluded_waits]
    apply RoundMatch.waits
    exact ⟨h.same, tools, h.store, h.ids, h.waiting.release hin onTime,
      h.waiting'.release hin' onTime'⟩
  | fails f => exact .told rfl rfl
  | dispatched step hr he =>
    obtain ⟨jobs, hconcluded, hwaiting⟩ := h.waiting.park (t := t) hin onTime step _ _
    obtain ⟨jobs', hconcluded', hwaiting'⟩ := h.waiting'.park (t := t') hin' onTime' step _ _
    rw [hconcluded, hconcluded']
    apply RoundMatch.waits
    refine ⟨?_, tools, h.store, ?_, hwaiting, hwaiting'⟩
    · obtain ⟨-, playbook, -⟩ := Suspended.parts_congr h.same
      rw [playbook, h.ids]
      exact park_congr _ step hr he _
    · exact congrArg (fun ids => (IdSource.fresh ids).2) h.ids
  | @finished e e' he =>
    obtain ⟨v, hconcluded⟩ := concluded_finished s e later (w.held now₁ s t)
    obtain ⟨v', hconcluded'⟩ := concluded_finished s' e' later' (w'.held now₁' s' t')
    obtain ⟨-, playbook, -⟩ := Suspended.parts_congr h.same
    have done := completion_congr he h.store s'.playbook (.ofNanos later) (.ofNanos later')
    rw [hconcluded, hconcluded', playbook]
    exact .told (statusOf_congr he done) (terminal_statusOf _ _)

/-- Round after round, each after any wait that leaves the job in time: what is told is the same in
both worlds, up to times, until the execution has ended. -/
def TellAlike (g : Engine) (id : String) :
    (rounds : Nat) → Instant → World T S → Instant → World T' S → Prop
  | 0, _, _, _, _ => True
  | n + 1, now, w, now', w' => ∀ d d', w.jobs.InTime (now + d) id → w'.jobs.InTime (now' + d') id →
    ∃ status status', (w.query g (now + d) id).1 = .ok status ∧
      (w'.query g (now' + d') id).1 = .ok status' ∧ status.untimed = status'.untimed ∧
      (status.isTerminal = false →
        TellAlike g id n (w.query g (now + d) id).2.1 (w.query g (now + d) id).2.2
          (w'.query g (now' + d') id).2.1 (w'.query g (now' + d') id).2.2)

theorem Paired.tellAlike (hR : Agreeing R g.steps.timeout)
    (h : Paired R id now w now' w' s s') (n : Nat) : TellAlike g id n now w now' w' := by
  induction n generalizing now w now' w' s s' with
  | zero => trivial
  | succ n ih =>
    intro d d' hin hin'
    have round := h.query hR (Nat.le_add_right now d) hin (Nat.le_add_right now' d') hin'
    revert round
    generalize w.query g (now + d) id = y
    generalize w'.query g (now' + d') id = y'
    intro round
    cases round with
    | told same ended =>
      refine ⟨_, _, rfl, rfl, same, fun hgoesOn => ?_⟩
      rw [ended] at hgoesOn
      cases hgoesOn
    | waits paired =>
      refine ⟨_, _, rfl, rfl, ?_, fun _ => ih paired⟩
      exact congrArg JobStatus.pending (Suspended.parts_congr paired.same).1

end Match

end PlaybookEngine.World
