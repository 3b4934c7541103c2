import PlaybookEngine.Proofs.Artifact.Outline
import PlaybookEngine.Proofs.Jobs.Trail
import PlaybookEngine.Proofs.Tool.Immediate

namespace PlaybookEngine

namespace Execution

variable {e e' : Execution}

/-- The execution after the outcome of a step; the error when it ends there. -/
def after (e : Execution) (p : Playbook) (s : Step) (now : Timestamp) :
    Except StepError StepResult → Except StepError Execution
  | .ok r => .ok (e.record r)
  | .error err =>
    if p.isOptionalTool s.tool then .ok (e.record (.failed s.id err.message err.attempts now now))
    else .error err

theorem record_congr (he : e.untimed = e'.untimed) {r r' : StepResult}
    (hr : r.untimed = r'.untimed) : (e.record r).untimed = (e'.record r').untimed := by
  rw [record_untimed, record_untimed, he, hr]

theorem nextStep_congr (he : e.untimed = e'.untimed) : e.nextStep = e'.nextStep := by
  have h := congrArg nextStep he
  exact h

def stepping (e : Execution) : Execution := { e with nextStep := e.nextStep + 1 }

theorem stepping_congr (he : e.untimed = e'.untimed) : e.stepping.untimed = e'.stepping.untimed :=
  congrArg stepping he

end Execution

namespace Engine

open ToolServer

variable {T T' S S' : Type} [ToolServer T] [ToolServer T'] [IdSource S] [IdSource S']
variable {R : T → T' → Prop} {settings : StepSettings} {p : Playbook}

/-- The steps after the outcome of one. -/
def goOn (settings : StepSettings) (p : Playbook) (s : Step) (rest : List Step) (e : Execution)
    (now : Instant) (w : World T S) (x : Except StepError StepResult) :
    Except EngineError Progress × Instant × World T S :=
  match e.after p s (.ofNanos now) x with
  | .ok e => (runSteps settings p rest e).run World.surroundings now w
  | .error err => (.error (.step err), now, w)

/-- Two worlds with tools that match and stores of one outline. -/
structure Alike (R : T → T' → Prop) (w : World T S) (w' : World T' S') : Prop where
  tools : R w.tools w'.tools
  store : w.store.outline = w'.store.outline

/-- The steps of a segment beside the straight steps: they end alike, or the segment waits for a
job and the straight steps go on with what the job comes to. Fewer steps than `bound` are left
then. -/
inductive StepsMatch (R : T → T' → Prop) (settings : StepSettings) (p : Playbook)
    (fail : EngineError → Failure) (bound : Nat) :
    Except EngineError Progress × Instant × World T S →
      Except EngineError Progress × Instant × World T' S' → Prop
  | finished {e e' : Execution} {now now' : Instant} {w : World T S} {w' : World T' S'}
    (same : e.untimed = e'.untimed) (worlds : Alike R w w') :
    StepsMatch R settings p fail bound (.ok (.finished e), now, w) (.ok (.finished e'), now', w')
  | failed {err : EngineError} {now now' : Instant} {w : World T S} {w' : World T' S'}
    (worlds : Alike R w w') :
    StepsMatch R settings p fail bound (.error err, now, w) (.error err, now', w')
  | waits {s : Step} {rest : List Step} {e e' : Execution} {job id : String} {attempts : Nat}
    {start stop : Timestamp} {now now' : Instant} {w : World T S} {w' : World T' S'}
    {x : Except ToolError ToolResponse} {y : Except StepError StepResult}
    {z : Except EngineError Progress × Instant × World T' S'}
    (same : e.untimed = e'.untimed) (origin : e'.failure = fail)
    (left : p.steps.drop e.nextStep = rest) (fewer : rest.length < bound)
    (ends : Ends R s.tool job x w'.tools w.tools) (store : w.store.outline = w'.store.outline)
    (told : y.map StepResult.untimed = s.told attempts x)
    (straight : z = goOn settings p s rest e' now' w' y) :
    StepsMatch R settings p fail bound
      (.ok (.dispatched (handle e p s (.dispatched s.id job attempts start stop) id)
        (e.record (.dispatched s.id job attempts start stop))), now, w) z

omit [IdSource S] in
theorem StepsMatch.mono {fail : EngineError → Failure} {n m : Nat} (hnm : n ≤ m)
    {y : Except EngineError Progress × Instant × World T S}
    {z : Except EngineError Progress × Instant × World T' S'}
    (h : StepsMatch R settings p fail n y z) :
    StepsMatch R settings p fail m y z := by
  cases h with
  | finished same worlds => exact .finished same worlds
  | failed worlds => exact .failed worlds
  | waits same origin left fewer ends store told straight =>
    exact .waits same origin left (Nat.lt_of_lt_of_le fewer hnm) ends store told straight

omit [ToolServer T] [ToolServer T'] [IdSource S] [IdSource S'] in
/-- Executions that agree without the times are completed alike on stores of one outline. -/
theorem completion_congr {e e' : Execution} (he : e.untimed = e'.untimed) {st st' : ArtifactStore}
    (hst : st.outline = st'.outline) (p : Playbook) (now now' : Timestamp) :
    (completion p e now st).1.map ExecutionResult.untimed =
      (completion p e' now' st').1.map ExecutionResult.untimed := by
  unfold completion
  rw [finalize_congr he p]
  cases finalize p e' (aggregate p.outputSchema e'.successfulOutputs) with
  | error faults => rfl
  | ok final =>
    have kept := ArtifactStore.persistAll_congr hst now now' final.artifacts
    revert kept
    dsimp only
    rcases st.persistAll now final.artifacts with ⟨x, st₁⟩
    rcases st'.persistAll now' final.artifacts with ⟨x', st₁'⟩
    intro kept
    rcases cases_of_map_eq kept with ⟨err, rfl, rfl⟩ | ⟨as, as', rfl, rfl, same⟩
    · rfl
    · apply congrArg Except.ok
      rw [Execution.result_untimed, Execution.result_untimed, Execution.advance_untimed,
        Execution.advance_untimed, he, same]

/-- Whatever answer ends the job: the parked execution becomes the rest of the straight run, of
which fewer steps than `bound` are left. -/
def Onward (settings : StepSettings) (bound : Nat) (s : Suspended)
    (x : Except ToolError ToolResponse) (now' : Instant) (w' : World T' S')
    (z : Except Failure Invocation × Instant × World T' S') : Prop :=
  ∀ now a, JobState.ending? a = some x →
    (∃ f, s.resumption now a = .fails f ∧ z = (.error f, now', w')) ∨
    ∃ e e', s.resumption now a = .continues e ∧ e.untimed = e'.untimed ∧
      (s.playbook.steps.drop e.nextStep).length < bound ∧
      z = (drive settings s.playbook e').run World.surroundings now' w'

/-- A parked execution beside a straight run: what its job comes to makes the rest of it. -/
def Awaits (R : T → T' → Prop) (settings : StepSettings) (bound : Nat) (s : Suspended)
    (w : World T S) (z : Except Failure Invocation × Instant × World T' S') : Prop :=
  ∃ x now' w', Ends R s.handle.tool s.handle.toolJobId x w'.tools w.tools ∧
    w.store.outline = w'.store.outline ∧ Onward settings bound s x now' w' z

def parked (e : Execution) (p : Playbook) (s : Step) (job id : String) (attempts : Nat)
    (start stop : Timestamp) : Suspended :=
  let r := StepResult.dispatched s.id job attempts start stop
  ⟨handle e p s r id, p, e.record r⟩

end Engine

end PlaybookEngine
