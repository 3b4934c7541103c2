import PlaybookEngine.Proofs.Engine.Executions
import PlaybookEngine.Proofs.Engine.Tolerance
import PlaybookEngine.Proofs.Engine.Verdict

namespace PlaybookEngine.Session

open Activity Working

variable {T S C : Type} {g : Engine}

/-- Outcomes agree with what became of the steps. -/
structure Faithful (g : Engine) (σ : Session Working.Staged T S C) : Prop where
  /-- Who asks for something is in a stage that is sound, and may ask for it there. -/
  working : ∀ c r, (σ.clients c).request? = some r → r.1.Sound g ∧ r.1.Allows g r.2
  /-- A completed execution, told or recorded, has the status that its steps imply. -/
  completed : ∀ r, (∃ c, (σ.clients c).result? = some r) ∨
    (∃ id since, σ.world.jobs.find? id = some (.finished (.completed r) since)) →
      ∃ p, g.registry.Holds p ∧ r.Agrees p
  /-- After the failure of a step that may not fail, who executes a playbook fails too. -/
  executing : ∀ c q next, σ.clients c = .executing (.ask q next) → ∀ y x step,
    q.1.verdict q.2 y = .failing x step → (next y).Assures heeding (.failing x step) Plan.Owns
  /-- So does who queries a job, and the failure is recorded of the job. -/
  querying : ∀ c job q next, σ.clients c = .querying job (.ask q next) → ∀ y x step,
    q.1.verdict q.2 y = .failing x step →
      (next y).Assures heeding (.failing x step) (JobStatus.Owns job)

variable [DecidableEq C] [ToolServer T] [IdSource S]

/-- In every session of an engine, whatever the tools answer and whenever a client is given up,
outcomes agree with what became of the steps. The stages that tell so are those of the same
session. -/
theorem outcomes_faithful (hg : g.registry.Loaded) {w : World T S} {ttl : Span}
    (hjobs : w.jobs = .empty ttl) (now : Instant) {evs : List (Event C)}
    {σ : Session Working T S C} (hrun : (init w now).run? .bare g evs = some σ) :
    ∃ τ : Session Working.Staged T S C, (init w now).run? .staged g evs = some τ ∧
      τ.bare .staged = σ ∧ τ.Faithful g := by
  obtain ⟨τ, hτ, hbare⟩ := exists_of_bare .staged hrun
  have ordered := (sound_of_run hg hjobs hτ).inOrder
  have tolerant := (Discipline.holds_init (K := g.tolerance) hjobs now).run hrun
  have heedful := (Discipline.holds_init (K := g.heedfulness) hjobs now).run hτ
  refine ⟨τ, hτ, hbare, ordered.working, fun r hr => ?_, fun c q next hc y x step hy => ?_,
    fun c job q next hc y x step hy => ?_⟩
  · obtain ⟨p, hheld, hagrees⟩ : r.Tolerant g := by
      apply tolerant.result
      rw [← hbare]
      exact hr.imp_left fun ⟨c, hc⟩ => ⟨c, (Caller.result?_bare _ _).trans hc⟩
    obtain ⟨-, -, -, -, -, settled⟩ := ordered.completed r hr
    exact ⟨p, hheld, hagrees settled⟩
  · have hclient := heedful.clients c
    rw [hc] at hclient
    obtain ⟨v, hv⟩ := hclient
    exact heeding_failing hv hy
  · have hclient := heedful.clients c
    rw [hc] at hclient
    obtain ⟨v, hv⟩ := hclient
    exact heeding_failing hv hy

/-- Tools of which one is out of reach, and the others hand out jobs; only the first job ends
well. -/
structure Newsroom where
  asked : Nat

instance : ToolServer Newsroom where
  call t _ tool _ :=
    (⟨0, if tool.capability = "web" then .error (.rejected "offline")
      else .ok (.dispatched "job")⟩, t)
  poll t _ _ _ :=
    (⟨0, .ok (if t.asked = 0 then .completed (.obj []) else .failed "no paper")⟩, ⟨t.asked + 1⟩)

/-- A playbook of two steps, of which the first may fail. -/
def report : Playbook where
  code := "report"
  version := "1.0.0"
  name := "Report"
  description := ""
  kind := .userWorkflow
  capabilityCode := none
  locale := "en"
  supportedLocales := ["en"]
  defaultLocale := "en"
  requiredTools := [⟨"text", "write"⟩]
  optionalTools := [⟨"web", "fetch"⟩, ⟨"text", "write"⟩]
  steps := [⟨"fetch", "", ⟨"web", "fetch"⟩, none, false, [], none⟩,
    ⟨"write", "", ⟨"text", "write"⟩, none, true, [], none⟩]
  inputSchema := []
  outputSchema := [(Finalization.resultStatusField, ⟨.string, true, .overwriteLast⟩)]
  primaryScore := "score"
  tags := []
  sections := []

def newsEngine : Engine := ⟨.ofPlaybooks "en" [report], .default, .default⟩

def newsWorld : World Newsroom Identifier.Supply where
  tools := ⟨0⟩
  store := .memory .empty
  jobs := .empty JobTable.defaultTtl
  ids := ⟨0⟩

/-- Two clients execute the report until it is parked, and each queries the other's job. -/
def newsEvents : List (Event Bool) :=
  .execute true "report" "en" [] :: List.replicate 12 (.proceed true)
    ++ .execute false "report" "en" [] :: List.replicate 12 (.proceed false)
    ++ .query true (Identifier.text 5) :: List.replicate 5 (.proceed true)
    ++ .query false (Identifier.text 2) :: List.replicate 4 (.proceed false)

def partlyFailed (x : Caller Working) : Bool := x.result?.any (·.status == .partialFailure)

def failedIn (step : String) : Caller Working → Bool
  | .queried (.ok (.failed f)) => f.stepId == some step
  | _ => false

/-- The first report is completed without what was out of reach; the second one fails, for its text
cannot be written. -/
theorem reports_faithful :
    newsEngine.registry.Loaded ∧ newsWorld.jobs = .empty JobTable.defaultTtl ∧
      ∃ σ : Session Working Newsroom Identifier.Supply Bool,
        (init newsWorld 0).run? .bare newsEngine newsEvents = some σ ∧
          partlyFailed (σ.clients true) = true ∧ failedIn "write" (σ.clients false) = true ∧
          ∃ τ : Session Working.Staged Newsroom Identifier.Supply Bool,
            (init newsWorld 0).run? .staged newsEngine newsEvents = some τ ∧
              τ.bare .staged = σ ∧ τ.Faithful newsEngine := by
  have loaded : newsEngine.registry.Loaded := .playbooks "en" [report]
  let first : Session Working Newsroom Identifier.Supply Bool := init newsWorld 0
  have happens : (first.run? .bare newsEngine newsEvents).any (fun σ =>
      partlyFailed (σ.clients true) && failedIn "write" (σ.clients false)) = true := by
    decide +kernel
  obtain ⟨σ, hσ, told⟩ := (Option.any_eq_true _ _).mp happens
  rw [Bool.and_eq_true] at told
  exact ⟨loaded, rfl, σ, hσ, told.1, told.2, outcomes_faithful loaded rfl 0 hσ⟩

end PlaybookEngine.Session
