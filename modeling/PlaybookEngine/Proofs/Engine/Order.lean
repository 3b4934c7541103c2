import PlaybookEngine.Proofs.Engine.Stages
import PlaybookEngine.Proofs.Playbook.Loaded
import PlaybookEngine.Proofs.Workflow.InOrder
import Mathlib.Data.List.Forall2

namespace PlaybookEngine

/-- What there is, if there is no error, has a property. -/
def Yields {ε α : Type} (Q : α → Prop) : Except ε α → Prop
  | .ok a => Q a
  | .error _ => True

/-- The execution waits for the job of the step that was run last. -/
def Suspended.Parked (g : Engine) (s : Suspended) : Prop :=
  g.registry.Holds s.playbook ∧ ∃ step : Step, step.id = s.handle.stepId ∧
    step.tool = s.handle.tool ∧ s.execution.Awaits s.playbook step s.handle.toolJobId

/-- The result has one result for each step of the playbook, and no job is out. -/
def ExecutionResult.Complete (g : Engine) (r : ExecutionResult) : Prop :=
  ∃ p, g.registry.Holds p ∧ r.playbookCode = p.code ∧ r.locale = p.locale ∧
    r.stepResults.map (·.stepId) = p.steps.map (·.id) ∧
    ∀ x ∈ r.stepResults, x.status ≠ .dispatched

def JobStatus.Sound (g : Engine) : JobStatus → Prop
  | .completed r => r.Complete g
  | _ => True

def Invocation.Sound (g : Engine) : Invocation → Prop
  | .completed r => r.Complete g
  | .dispatched _ => True

namespace Stage

/-- The execution is as it should be in the stage. -/
def Sound (g : Engine) : Stage → Prop
  | .outside => True
  | .executing p s e => g.registry.Holds p ∧ ∃ n, e.Executing p s n
  | .parking p e => g.registry.Holds p ∧ ∃ s job, e.Awaits p s job
  | .polling s => s.Parked g
  | .completing p e => g.registry.Holds p ∧ e.Ready p ∧ e.nextStep = p.steps.length

/-- What may be asked for in the stage. -/
def Allows (g : Engine) : Stage → Working.Request → Prop
  | .outside, .freshId => True
  | .outside, .tool .now => True
  | .outside, .job (.forward _ _) => True
  | .outside, .job (.finish _ status) => status.Sound g
  | .executing _ s e, .tool r => s.Asks g.steps e r
  | .parking _ _, .freshId => True
  | .parking p e, .job (.suspend s) => s.playbook = p ∧ s.execution = e ∧ s.Parked g
  | .polling _, .tool .now => True
  | .polling s, .tool (.poll tool job) => tool = s.handle.tool ∧ job = s.handle.toolJobId
  | .polling s, .job (.release t) => t = s
  | .completing _ _, .tool .now => True
  | .completing _ _, .store _ => True
  | _, _ => False

/-- A request that is made in order. -/
def Proper (g : Engine) (r : Working.Staged.Request) : Prop := r.1.Sound g ∧ r.1.Allows g r.2

open Activity

variable {g : Engine} {x : Stage} {α β : Type} {Q : α → Prop}

theorem abides_during (hx : x.Sound g) {p : Activity Working α} (h : p.Abides (x.Allows g) Q) :
    (p.during x).Abides (Proper g) Q :=
  Abides.during (h.mono_requests fun _ hr => ⟨hx, hr⟩)

theorem abides_during_bind (hx : x.Sound g) {p : Activity Working β}
    {f : β → Activity Working.Staged α} {R : β → Prop} (hp : p.Abides (x.Allows g) R)
    (hf : ∀ y, R y → (f y).Abides (Proper g) Q) : (p.during x >>= f).Abides (Proper g) Q :=
  abides_bind.mpr ((abides_during hx hp).mono hf)

end Stage

namespace Working

open Activity

variable {P : Working.Request → Prop} {α : Type} {Q : α → Prop}

theorem tooling_abides {p : Activity Tooling α} (h : p.Abides (fun r => P (.tool r)) Q) :
    (tooling p).Abides P Q := h.through

theorem storage_abides (hnow : P (.tool .now)) (hstore : ∀ r, P (.store r))
    {p : Activity Storage α} (h : p.Abides (fun _ => True) Q) : (storage p).Abides P Q := by
  refine (h.mono_requests fun r _ => ?_).through
  cases r with
  | now => exact hnow
  | store r => exact hstore r

end Working

namespace Engine

open Activity

/-- What is stored for a draft has its status. -/
theorem persist_abides (d : ArtifactDraft) :
    (Artifact.persist d).Abides (fun _ => True) (Yields (·.contentStatus = d.contentStatus)) := by
  unfold Artifact.persist Artifact.store
  refine abides_request_bind.mpr ⟨trivial, fun written => ?_⟩
  cases written with
  | error err => trivial
  | ok key =>
    refine ⟨trivial, fun now => ⟨trivial, fun described => ?_⟩⟩
    cases described with
    | error err => exact ⟨trivial, fun _ => trivial⟩
    | ok u => exact (rfl : d.contentStatus = d.contentStatus)

theorem persistAll_abides {P : Working.Request → Prop} (hnow : P (.tool .now))
    (hstore : ∀ r, P (.store r)) (ds : List ArtifactDraft) :
    (persistAll ds).Abides P
      (Yields (List.Forall₂ (fun d a => a.contentStatus = d.contentStatus) ds)) := by
  induction ds with
  | nil => exact List.Forall₂.nil
  | cons d rest ih =>
    rw [persistAll, abides_bind]
    refine (Working.storage_abides hnow hstore (persist_abides d)).mono fun x hx => ?_
    cases x with
    | error err => trivial
    | ok a =>
      dsimp only
      rw [abides_bind]
      refine ih.mono fun y hy => ?_
      cases y with
      | error err => trivial
      | ok as => exact List.Forall₂.cons hx hy

theorem stepResults_advance (e : Execution) (status : ExecutionStatus) (now : Timestamp) :
    (e.advance status now).stepResults = e.stepResults := by
  unfold Execution.advance
  split <;> rfl

theorem complete_yields {P : Working.Request → Prop} (hnow : P (.tool .now))
    (hstore : ∀ r, P (.store r)) (p : Playbook) (e : Execution) :
    (complete p e).Abides P (Yields fun r => ∃ final artifacts now,
      finalize p e (aggregate p.outputSchema e.successfulOutputs) = .ok final ∧
        List.Forall₂ (fun d a => a.contentStatus = d.contentStatus) final.artifacts artifacts ∧
        r = (e.advance final.status now).result p final.output final.flags artifacts []) := by
  unfold complete
  cases finalize p e (aggregate p.outputSchema e.successfulOutputs) with
  | error faults => trivial
  | ok final =>
    dsimp only
    rw [abides_bind]
    refine (persistAll_abides hnow hstore final.artifacts).mono fun x hx => ?_
    cases x with
    | error err => trivial
    | ok artifacts => exact ⟨hnow, fun now => ⟨final, artifacts, now, rfl, hx, rfl⟩⟩

theorem complete_abides {P : Working.Request → Prop} (hnow : P (.tool .now))
    (hstore : ∀ r, P (.store r)) (p : Playbook) (e : Execution) :
    (complete p e).Abides P (Yields fun r =>
      r.playbookCode = p.code ∧ r.locale = p.locale ∧ r.stepResults = e.stepResults) := by
  refine (complete_yields hnow hstore p e).mono fun x hx => ?_
  cases x with
  | error err => trivial
  | ok r =>
    obtain ⟨final, artifacts, now, -, -, rfl⟩ := hx
    exact ⟨rfl, rfl, stepResults_advance e final.status now⟩

namespace Staged

variable {g : Engine} {p : Playbook} {e : Execution}

/-- How far the steps came in order. -/
def Arrives (g : Engine) (p : Playbook) : Except EngineError Progress → Prop
  | .ok (.finished e) => e.Ready p ∧ e.nextStep = p.steps.length
  | .ok (.dispatched job e) => Suspended.Parked g ⟨job, p, e⟩
  | .error _ => True

theorem runSteps_abides (hheld : g.registry.Holds p) (hnodup : (p.steps.map (·.id)).Nodup)
    {steps : List Step} (hready : e.Ready p) (hsteps : p.steps.drop e.nextStep = steps) :
    (runSteps g.steps p steps e).Abides (Stage.Proper g) (Arrives g p) := by
  induction steps generalizing e with
  | nil =>
    refine ⟨hready, Nat.le_antisymm hready.inOrder.le ?_⟩
    exact List.drop_eq_nil_iff.mp hsteps
  | cons s rest ih =>
    have hs : p.steps[e.nextStep]? = some s := by
      have head := congrArg List.head? hsteps
      rwa [List.head?_drop] at head
    have hrest : p.steps.drop (e.nextStep + 1) = rest := by
      have tail := congrArg List.tail hsteps
      rwa [List.tail_drop] at tail
    have hexecuting := hready.executing hs
    have executing : Stage.Sound g (.executing p s { e with nextStep := e.nextStep + 1 }) :=
      ⟨hheld, _, hexecuting⟩
    rw [runSteps]
    refine Stage.abides_during_bind executing
      (Working.tooling_abides (s.execute_abides g.steps _)) fun x hx => ?_
    cases x with
    | ok r =>
      obtain ⟨hid, hskipped⟩ := hx
      dsimp only
      split
      · rename_i hstatus
        have awaits := hexecuting.awaits hnodup hid hskipped hstatus
        have parking : Stage.Sound g
            (.parking p (Execution.record { e with nextStep := e.nextStep + 1 } r)) :=
          ⟨hheld, s, _, awaits⟩
        refine Stage.abides_during_bind (R := fun _ => True) parking ⟨trivial, fun _ => trivial⟩
          fun id _ => ?_
        exact ⟨hheld, s, rfl, rfl, awaits⟩
      · rename_i hstatus
        exact ih (hexecuting.ready hnodup hid hskipped hstatus) hrest
    | error err =>
      refine Stage.abides_during_bind (R := fun _ => True) executing ⟨trivial, fun _ => trivial⟩
        fun now _ => ?_
      split
      · have ran : s.shouldRun { e with nextStep := e.nextStep + 1 } = true := hx
        have settled : StepStatus.failed ≠ .skipped ∧ StepStatus.failed ≠ .dispatched := by decide
        refine ih (hexecuting.ready hnodup rfl ?_ settled.2) hrest
        exact iff_of_false settled.1 (by rw [ran]; decide)
      · trivial

/-- An execution that is driven on comes to a complete result, if to any. -/
theorem drive_abides (hheld : g.registry.Holds p) (hnodup : (p.steps.map (·.id)).Nodup)
    (hready : e.Ready p) :
    (drive g.steps p e).Abides (Stage.Proper g) (Yields (Invocation.Sound g)) := by
  rw [drive, abides_bind]
  refine (runSteps_abides hheld hnodup hready rfl).mono fun x hx => ?_
  rcases x with err | e | ⟨job, e⟩
  case error => trivial
  case ok.dispatched =>
    have parked : Suspended.Parked g ⟨job, p, e⟩ := hx
    obtain ⟨-, s, -, -, awaits⟩ := hx
    have parking : Stage.Sound g (.parking p e) := ⟨hheld, s, _, awaits⟩
    refine Stage.abides_during_bind (R := fun _ => True) parking
      ⟨⟨rfl, rfl, parked⟩, fun _ => trivial⟩ fun free _ => ?_
    split
    · trivial
    · trivial
  case ok.finished =>
    obtain ⟨hready', hend⟩ := hx
    have completing : Stage.Sound g (.completing p e) := ⟨hheld, hready', hend⟩
    refine Stage.abides_during_bind completing
      (complete_abides trivial (fun _ => trivial) p e) fun y hy => ?_
    cases y with
    | error err => trivial
    | ok r =>
      obtain ⟨hcode, hlocale, hresults⟩ := hy
      refine ⟨p, hheld, hcode, hlocale, ?_, ?_⟩
      · rw [hresults, hready'.inOrder.ids, hend, List.take_length]
      · rw [hresults]
        exact hready'.settled

theorem settle_abides (job : JobHandle) (hheld : g.registry.Holds p)
    (hnodup : (p.steps.map (·.id)).Nodup) (hready : e.Ready p) :
    (settle g.steps job p e).Abides (Stage.Proper g) (JobStatus.Sound g) := by
  rw [settle, abides_bind]
  refine (drive_abides hheld hnodup hready).mono fun x hx => ?_
  rcases x with f | r | next
  case error => exact ⟨⟨trivial, trivial⟩, fun _ => trivial⟩
  case ok.completed => exact ⟨⟨trivial, hx⟩, fun _ => hx⟩
  case ok.dispatched => exact ⟨⟨trivial, trivial⟩, fun _ => trivial⟩

variable {s : Suspended}

theorem settleFailed_abides (hparked : s.Parked g)
    (hnodup : (s.playbook.steps.map (·.id)).Nodup) (attempts : Nat) (cause : ToolError) :
    (settleFailed g.steps s attempts cause).Abides (Stage.Proper g) (JobStatus.Sound g) := by
  obtain ⟨hheld, step, hid, -, awaits⟩ := id hparked
  rw [settleFailed]
  refine Stage.abides_during_bind (x := .polling s) (R := fun _ => True) hparked
    ⟨trivial, fun _ => trivial⟩ fun now _ => ?_
  split
  · have settled : StepStatus.failed ≠ .skipped ∧ StepStatus.failed ≠ .dispatched := by decide
    exact settle_abides _ hheld hnodup (awaits.ready hnodup hid.symm settled.1 settled.2)
  · exact ⟨⟨trivial, trivial⟩, fun _ => trivial⟩

theorem resume_abides (hparked : s.Parked g) (hnodup : (s.playbook.steps.map (·.id)).Nodup) :
    (resume g.steps s).Abides (Stage.Proper g) (JobStatus.Sound g) := by
  obtain ⟨hheld, step, hid, -, awaits⟩ := id hparked
  rw [resume]
  refine Stage.abides_during_bind (x := .polling s) (R := fun _ => True) hparked
    ⟨⟨rfl, rfl⟩, fun _ => trivial⟩ fun x _ => ?_
  rcases x with err | _ | output | reason
  case ok.running => exact ⟨⟨hparked, rfl⟩, fun _ => trivial⟩
  case ok.completed =>
    refine Stage.abides_during_bind (x := .polling s) (R := fun _ => True) hparked
      ⟨trivial, fun _ => trivial⟩ fun now _ => ?_
    have settled : StepStatus.success ≠ .skipped ∧ StepStatus.success ≠ .dispatched := by decide
    exact settle_abides _ hheld hnodup (awaits.ready hnodup hid.symm settled.1 settled.2)
  case ok.failed => exact settleFailed_abides hparked hnodup _ _
  case error =>
    dsimp only
    split
    · exact ⟨⟨hparked, rfl⟩, fun _ => trivial⟩
    · exact settleFailed_abides hparked hnodup _ _

/-- A plan with one answer only, which is sound. -/
def Single (g : Engine) : Plan → Prop
  | .answered r => Yields (Invocation.Sound g) r
  | .batch _ _ => False

theorem execute_abides (hg : g.registry.Loaded) {raw : Fields Json}
    (hmode : requestedMode raw ≠ .ok .batch) (code locale : String) :
    (execute g code locale raw).Abides (Stage.Proper g) (Single g) := by
  rw [execute]
  refine Stage.abides_during_bind (x := .outside) (R := fun _ => True) trivial
    ⟨trivial, fun _ => trivial⟩ fun traceId _ => ?_
  cases hresolve : g.registry.resolve code locale with
  | error err => trivial
  | ok p =>
    dsimp only
    rcases hread : requestedMode raw with err | mode
    case error => trivial
    cases mode with
    | batch => exact absurd hread hmode
    | single =>
      dsimp only
      cases bind p.inputSchema raw with
      | error err => trivial
      | ok inputs =>
        refine Stage.abides_during_bind (x := .outside) (R := fun _ => True) trivial
          ⟨trivial, fun _ => trivial⟩ fun id _ => ?_
        refine Stage.abides_during_bind (x := .outside) (R := fun _ => True) trivial
          ⟨trivial, fun _ => trivial⟩ fun now _ => ?_
        have hheld := Registry.holds_of_resolve hresolve
        have hready : (Execution.begin id traceId p inputs now).Ready p :=
          ⟨Execution.inOrder_nil rfl, fun _ hr => absurd hr List.not_mem_nil⟩
        rw [abides_bind]
        exact (drive_abides hheld (hg.nodup_steps hheld) hready).mono fun _ hr => hr

end Staged

end Engine

end PlaybookEngine
