import PlaybookEngine.Engine.Invocation
import PlaybookEngine.Engine.Query
import PlaybookEngine.Proofs.Engine.Item

namespace PlaybookEngine

/-- What a call has done to the jobs since its turn began. -/
inductive Turn
  /-- Nothing; it may have drawn an id. -/
  | quiet (drawn : Option String)
  | parked (s : Suspended)
  | released
  /-- The claimed execution is parked on the next job. -/
  | movedOn (next : Suspended)
  | finished (status : JobStatus)

/-- Nothing was done to the jobs. -/
def Turn.Quiet (v : Turn) : Prop := ∃ drawn, v = .quiet drawn

namespace Working

/-- Whoever makes the request waits for the reply. -/
def pauses : EngineRequest → Bool
  | .freshId => false
  | .tool .now => false
  | .tool _ => true
  | .store _ => true
  | .job _ => false

/-- What a call may ask for in its turn when it has a claim, or none: it parks an execution under
the id that it has just drawn, and it settles the claimed execution only. -/
def turns (claim : Option Suspended) : Working.Spec Turn
  | .quiet _, .freshId, K => ∀ x : String, K x (.quiet (some x))
  | .quiet drawn, .tool .now, K => ∀ x, K x (.quiet drawn)
  | .quiet _, .tool _, K => ∀ x, K x (.quiet none)
  | .quiet _, .store _, K => ∀ x, K x (.quiet none)
  | .quiet drawn, .job (.suspend s), K => drawn = some s.handle.jobId ∧ K true (.parked s)
  | .quiet _, .job (.release s), K => claim = some s ∧ K () .released
  | .quiet _, .job (.finish id status), K =>
    (∃ s, claim = some s ∧ id = s.handle.jobId) ∧ status.isTerminal = true ∧
      K () (.finished status)
  | .parked next, .job (.forward id job), K =>
    (∃ s, claim = some s ∧ id = s.handle.jobId) ∧ job = next.handle.jobId ∧ K () (.movedOn next)
  | _, _, _ => False

open Activity

variable {claim : Option Suspended} {v : Turn} {α : Type}

theorem turns_mono (claim : Option Suspended) : (turns claim).Mono := by
  intro v r K K' hK h
  cases v with
  | quiet drawn =>
    cases r with
    | freshId =>
      intro x
      apply hK
      exact h x
    | tool r => cases r <;> exact fun x => hK _ _ (h x)
    | store r =>
      intro x
      apply hK
      exact h x
    | job r =>
      cases r with
      | suspend s => exact ⟨h.1, hK _ _ h.2⟩
      | release s => exact ⟨h.1, hK _ _ h.2⟩
      | forward id next => exact h
      | finish id status => exact ⟨h.1, h.2.1, hK _ _ h.2.2⟩
  | parked next =>
    cases r with
    | job r =>
      cases r with
      | forward id job => exact ⟨h.1, h.2.1, hK _ _ h.2.2⟩
      | _ => exact h
    | _ => exact h
  | released => cases r <;> exact h
  | movedOn next => cases r <;> exact h
  | finished status => cases r <;> exact h

theorem tooling_turns (p : Activity Tooling α) (hv : v.Quiet) :
    (tooling p).Assures (turns claim) v fun _ v' => v'.Quiet := by
  obtain ⟨drawn, rfl⟩ := hv
  unfold tooling
  induction p generalizing drawn with
  | done a => exact ⟨drawn, rfl⟩
  | ask r next ih =>
    cases r with
    | now => exact fun x => ih x drawn
    | sleep d => exact fun x => ih x none
    | call tool params limit => exact fun x => ih x none
    | poll tool job => exact fun x => ih x none

theorem storage_turns (p : Activity Storage α) (hv : v.Quiet) :
    (storage p).Assures (turns claim) v fun _ v' => v'.Quiet := by
  obtain ⟨drawn, rfl⟩ := hv
  unfold storage
  induction p generalizing drawn with
  | done a => exact ⟨drawn, rfl⟩
  | ask r next ih =>
    cases r with
    | now => exact fun x => ih x drawn
    | store r => exact fun x => ih x none

theorem now_turns {Q : Timestamp → Turn → Prop} {drawn : Option String} :
    now.Assures (turns claim) (.quiet drawn) Q ↔ ∀ x, Q x (.quiet drawn) := Iff.rfl

theorem freshId_turns {Q : String → Turn → Prop} {drawn : Option String} :
    freshId.Assures (turns claim) (.quiet drawn) Q ↔ ∀ x, Q x (.quiet (some x)) := Iff.rfl

end Working

namespace Engine

open Activity Working

variable {claim : Option Suspended} {v : Turn} (settings : StepSettings) (p : Playbook)

/-- Where steps have come to: with a job, its id is the one that was drawn last. -/
def Progress.Drew : Except EngineError Progress → Turn → Prop
  | .ok (.dispatched job _), v => v = .quiet (some job.jobId)
  | _, v => v.Quiet

theorem runSteps_turns (steps : List Step) (e : Execution) (hv : v.Quiet) :
    (runSteps settings p steps e).Assures (turns claim) v fun x v' => Progress.Drew x v' := by
  induction steps generalizing e v with
  | nil => exact hv
  | cons s rest ih =>
    rw [runSteps, assures_bind]
    apply (tooling_turns _ hv).mono (turns_mono claim)
    rintro x v' ⟨drawn, rfl⟩
    cases x with
    | ok r =>
      dsimp only
      split
      · rw [assures_bind, freshId_turns]
        intro id
        exact rfl
      · exact ih _ ⟨drawn, rfl⟩
    | error err =>
      dsimp only
      rw [assures_bind, now_turns]
      intro now
      split
      · exact ih _ ⟨drawn, rfl⟩
      · exact ⟨drawn, rfl⟩

theorem persistAll_turns (ds : List ArtifactDraft) (hv : v.Quiet) :
    (persistAll ds).Assures (turns claim) v fun _ v' => v'.Quiet := by
  induction ds generalizing v with
  | nil => exact hv
  | cons d rest ih =>
    rw [persistAll, assures_bind]
    apply (storage_turns _ hv).mono (turns_mono claim)
    intro x v' hv'
    cases x with
    | error err => exact hv'
    | ok a =>
      dsimp only
      rw [assures_bind]
      apply (ih hv').mono (turns_mono claim)
      intro y v'' hv''
      exact hv''

theorem complete_turns (e : Execution) (hv : v.Quiet) :
    (complete p e).Assures (turns claim) v fun _ v' => v'.Quiet := by
  unfold complete
  split
  · exact hv
  · rw [assures_bind]
    apply (persistAll_turns _ hv).mono (turns_mono claim)
    rintro x v' ⟨drawn, rfl⟩
    cases x with
    | error err => exact ⟨drawn, rfl⟩
    | ok as =>
      dsimp only
      rw [assures_bind, now_turns]
      intro now
      exact ⟨drawn, rfl⟩

/-- An invocation that is told to wait for a job has parked its execution there. -/
def Parks : Except Failure Invocation → Turn → Prop
  | .ok (.dispatched job), v => ∃ s, v = .parked s ∧ s.handle = job
  | _, v => v.Quiet

theorem drive_turns (e : Execution) (hv : v.Quiet) :
    (drive settings p e).Assures (turns claim) v fun x v' => Parks x v' := by
  rw [drive, assures_bind]
  apply (runSteps_turns settings p _ e hv).mono (turns_mono claim)
  rintro x v' hx
  cases x with
  | error err => exact hx
  | ok progress =>
    cases progress with
    | dispatched job e =>
      obtain rfl : v' = .quiet (some job.jobId) := hx
      dsimp only
      rw [assures_bind]
      exact ⟨rfl, ⟨job, p, e⟩, rfl, rfl⟩
    | finished e =>
      dsimp only
      rw [assures_bind]
      apply (complete_turns p e hx).mono (turns_mono claim)
      intro y v'' hv''
      cases y with
      | error err => exact hv''
      | ok r => exact hv''

/-- A status is told when the claimed execution was settled so. -/
def Settles (s : Suspended) : JobStatus → Turn → Prop
  | .pending job, v => v = .released ∧ job = s.handle ∨ ∃ next, v = .movedOn next ∧ job = next.handle
  | status, v => v = .finished status

variable (s : Suspended)

theorem settle_turns (e : Execution) (hv : v.Quiet) :
    (settle settings s.handle p e).Assures (turns (some s)) v fun x v' => Settles s x v' := by
  rw [settle, assures_bind]
  apply (drive_turns settings p e hv).mono (turns_mono _)
  intro x v' hx
  cases x with
  | error f =>
    obtain ⟨drawn, rfl⟩ := hx
    exact ⟨⟨s, rfl, rfl⟩, rfl, rfl⟩
  | ok r =>
    cases r with
    | completed r =>
      obtain ⟨drawn, rfl⟩ := hx
      exact ⟨⟨s, rfl, rfl⟩, rfl, rfl⟩
    | dispatched job =>
      obtain ⟨next, rfl, rfl⟩ := hx
      exact ⟨⟨s, rfl, rfl⟩, rfl, .inr ⟨next, rfl, rfl⟩⟩

theorem settleFailed_turns (attempts : Nat) (cause : ToolError) (hv : v.Quiet) :
    (settleFailed settings s attempts cause).Assures (turns (some s)) v
      fun x v' => Settles s x v' := by
  obtain ⟨drawn, rfl⟩ := hv
  rw [settleFailed, assures_bind, now_turns]
  intro now
  dsimp only
  split
  · exact settle_turns settings s.playbook s _ ⟨drawn, rfl⟩
  · exact ⟨⟨s, rfl, rfl⟩, rfl, rfl⟩

theorem resume_turns (hv : v.Quiet) :
    (resume settings s).Assures (turns (some s)) v fun x v' => Settles s x v' := by
  rw [resume, assures_bind]
  apply (tooling_turns _ hv).mono (turns_mono _)
  intro x v' hv'
  have hv'' := hv'
  obtain ⟨drawn, rfl⟩ := hv'
  rcases x with err | state
  · dsimp only
    split
    · exact ⟨rfl, .inl ⟨rfl, rfl⟩⟩
    · exact settleFailed_turns settings s _ _ hv''
  · cases state with
    | running => exact ⟨rfl, .inl ⟨rfl, rfl⟩⟩
    | failed reason => exact settleFailed_turns settings s _ _ hv''
    | completed output =>
      dsimp only
      rw [assures_bind, now_turns]
      intro now
      exact settle_turns settings s.playbook s _ hv''

theorem endItem_turns (index : Nat) (id : String) (e : Execution) (hv : v.Quiet) :
    (endItem p index id e).Assures (turns claim) v fun _ v' => v'.Quiet := by
  unfold endItem
  split
  · exact hv
  · rw [assures_bind]
    apply (complete_turns p e hv).mono (turns_mono claim)
    intro x v' hv'
    cases x with
    | error err => exact hv'
    | ok r => exact hv'

theorem runItem_turns (traceId : String) (index : Nat) (raw : Fields Json) (hv : v.Quiet) :
    (runItem settings p traceId index raw).Assures (turns claim) v fun _ v' => v'.Quiet := by
  obtain ⟨drawn, rfl⟩ := hv
  unfold runItem
  split
  · exact ⟨drawn, rfl⟩
  · rw [assures_bind, freshId_turns]
    intro id
    rw [assures_bind, now_turns]
    intro now
    dsimp only
    rw [assures_bind]
    apply (runSteps_turns settings p _ _ ⟨_, rfl⟩).mono (turns_mono claim)
    intro x v' hx
    rcases x with err | progress
    · exact hx
    · have quiet : v'.Quiet := by
        cases progress with
        | finished e => exact hx
        | dispatched job e => exact ⟨_, hx⟩
      change (endItem p index id progress.execution).Assures _ v' _
      exact endItem_turns p index id progress.execution quiet

/-- An invocation is answered when its execution is parked or nothing was done to the jobs, or it
comes to items that leave the jobs alone. -/
def Planned : Plan → Turn → Prop
  | .answered r, v => Parks r v
  | .batch items _, v => v.Quiet ∧
    ∀ q ∈ items, q.Assures (turns none) (.quiet none) fun _ v' => v'.Quiet

theorem planBatch_turns (raw : Fields Json) (traceId : String) (hv : v.Quiet) :
    (planBatch settings p raw traceId).Assures (turns claim) v fun x v' =>
      match x with
      | .error _ => v'.Quiet
      | .ok plan => Planned plan v' := by
  obtain ⟨drawn, rfl⟩ := hv
  unfold planBatch
  split
  · exact ⟨drawn, rfl⟩
  · split
    · exact ⟨drawn, rfl⟩
    · split
      · exact ⟨drawn, rfl⟩
      · rw [assures_bind, freshId_turns]
        intro id
        rw [assures_bind, now_turns]
        intro now
        refine ⟨⟨some id, rfl⟩, fun q hq => ?_⟩
        obtain ⟨index, hindex, rfl⟩ := List.mem_mapIdx.mp hq
        exact runItem_turns settings p traceId _ _ ⟨none, rfl⟩

theorem execute_turns (g : Engine) (code locale : String) (raw : Fields Json) (hv : v.Quiet) :
    (g.execute code locale raw).Assures (turns claim) v fun plan v' => Planned plan v' := by
  obtain ⟨drawn, rfl⟩ := hv
  rw [execute, assures_bind, freshId_turns]
  intro traceId
  split
  · exact ⟨_, rfl⟩
  · split
    · exact ⟨_, rfl⟩
    · rw [assures_bind]
      apply (planBatch_turns g.steps _ raw traceId ⟨_, rfl⟩).mono (turns_mono claim)
      intro x v' hx
      cases x with
      | error err => exact hx
      | ok plan => exact hx
    · split
      · exact ⟨_, rfl⟩
      · rw [assures_bind, freshId_turns]
        intro id
        rw [assures_bind, now_turns]
        intro now
        dsimp only
        rw [assures_bind]
        apply (drive_turns g.steps _ _ ⟨_, rfl⟩).mono (turns_mono claim)
        intro x v' hx
        exact hx

end Engine

end PlaybookEngine
