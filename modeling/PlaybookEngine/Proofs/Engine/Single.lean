import PlaybookEngine.Proofs.Engine.Item

namespace PlaybookEngine

namespace Engine.Segment

variable {T S : Type} [ToolServer T] [IdSource S] (g : Engine) (x : Segment T S)

/-- How far the steps of the segment come. -/
def steps : Except EngineError Progress × Instant × World T S :=
  (runSteps g.steps x.playbook (x.playbook.steps.drop x.execution.nextStep) x.execution).run
    World.surroundings x.now x.world

/-- The steps come to their end, and every one was skipped. -/
def AllSkipped : Prop := ∃ e, (x.steps g).1 = .ok (.finished e) ∧ Engine.AllSkipped e

/-- A step hands out a job, but the execution could be completed as it stands. -/
def Overlooks : Prop :=
  ∃ job e r, (x.steps g).1 = .ok (.dispatched job e) ∧
    (completion x.playbook e (.ofNanos (x.steps g).2.1) x.world.store).1 = .ok r

theorem run_eq_ending : x.run g = ending x.playbook x.execution (x.steps g) := run_drive ..

theorem steps_store : (x.steps g).2.2.store = x.world.store := (runSteps_frame ..).1

theorem steps_jobs : (x.steps g).2.2.jobs = x.world.jobs := (runSteps_frame ..).2

theorem steps_job {job : JobHandle} {e : Execution} {later : Instant} {w : World T S}
    (h : x.steps g = (.ok (.dispatched job e), later, w)) :
    job.jobId = (IdSource.fresh x.world.ids).1 := by
  have ids := runSteps_ids g.steps x.playbook x.execution x.now x.world
    (x.playbook.steps.drop x.execution.nextStep)
  unfold steps at h
  rw [h] at ids
  exact ids.1

end Engine.Segment

/-- An item of a batch agrees with what a single execution of its inputs answers, where `skipped`
tells that all steps of that were skipped. -/
structure ItemResult.Agrees (item : ItemResult) (p : Playbook)
    (single : Except Panic (Except Failure Invocation)) (skipped : Prop) : Prop where
  success : item.status = .success ↔ (∃ r, single = .ok (.ok (.completed r))) ∧ ¬ skipped
  output : ∀ r, item.status = .success → single = .ok (.ok (.completed r)) →
    item.output = some r.output ∧ item.score = Engine.score p r.output ∧
      item.artifacts.map Artifact.untimed = r.artifacts.map Artifact.untimed
  skipped : item.status = .skipped ↔ skipped
  failure : ∀ f, item.status = .failed → single = .ok (.error f) → item.error = some f

namespace ItemResult

variable {item : ItemResult} {p : Playbook}
variable {single : Except Panic (Except Failure Invocation)} {skipped : Prop}

theorem agrees_of_failed (hstatus : item.status = .failed)
    (hsingle : ∀ r, single ≠ .ok (.ok (.completed r)))
    (herror : ∀ f, single = .ok (.error f) → item.error = some f) (hskipped : ¬ skipped) :
    item.Agrees p single skipped where
  success := by
    rw [hstatus]
    exact iff_of_false nofun fun h => h.1.elim hsingle
  output r hsuccess := by
    rw [hstatus] at hsuccess
    cases hsuccess
  skipped := by
    rw [hstatus]
    exact iff_of_false nofun hskipped
  failure f _ := herror f

theorem agrees_of_skipped (hstatus : item.status = .skipped) (hskipped : skipped) :
    item.Agrees p single skipped where
  success := by
    rw [hstatus]
    exact iff_of_false nofun fun h => h.2 hskipped
  output r hsuccess := by
    rw [hstatus] at hsuccess
    cases hsuccess
  skipped := iff_of_true hstatus hskipped
  failure f hfailed := by
    rw [hstatus] at hfailed
    cases hfailed

theorem agrees_of_success {r : ExecutionResult} (hstatus : item.status = .success)
    (hsingle : single = .ok (.ok (.completed r))) (hskipped : ¬ skipped)
    (houtput : item.output = some r.output ∧ item.score = Engine.score p r.output ∧
      item.artifacts.map Artifact.untimed = r.artifacts.map Artifact.untimed) :
    item.Agrees p single skipped where
  success := iff_of_true hstatus ⟨⟨r, hsingle⟩, hskipped⟩
  output r' _ hr' := by
    rw [hsingle] at hr'
    cases hr'
    exact houtput
  skipped := by
    rw [hstatus]
    exact iff_of_false nofun hskipped
  failure f hfailed := by
    rw [hstatus] at hfailed
    cases hfailed

variable {e e₀ : Execution} {st st' : ArtifactStore} {now : Timestamp} {index : Nat} {id : String}

/-- An item whose steps have run agrees with the end of the execution. -/
theorem agrees_of_finished (he : e.untimed = e₀.untimed) (hst : st'.outline = st.outline)
    (hitem : item.untimed = (Engine.itemEnd p index id st e₀).untimed) :
    item.Agrees p
      (.ok (((Engine.completion p e now st').1.map Invocation.completed).mapError e.failure))
      (Engine.AllSkipped e₀) := by
  unfold Engine.itemEnd at hitem
  by_cases hs : Engine.AllSkipped e₀
  · rw [if_pos hs] at hitem
    exact agrees_of_skipped (congrArg status hitem) hs
  · rw [if_neg hs] at hitem
    have done := Engine.completion_congr he hst p now .zero
    rcases cases_of_map_eq done with ⟨err, h, h₀⟩ | ⟨r, r₀, h, h₀, same⟩
    · rw [h₀] at hitem
      rw [h]
      have herror : item.error = some (e₀.failure err) := congrArg error hitem
      have hstatus : item.status = .failed := congrArg status hitem
      apply agrees_of_failed hstatus
      · intro r hr
        cases hr
      · intro f hf
        obtain rfl := Except.error.inj (Except.ok.inj hf)
        rw [herror, ← Execution.failure_congr he]
      · exact hs
    · rw [h₀] at hitem
      rw [h]
      have hout := congrArg ExecutionResult.output same
      have hartifacts := congrArg ExecutionResult.artifacts same
      change r.output = r₀.output at hout
      change r.artifacts.map Artifact.untimed = r₀.artifacts.map Artifact.untimed at hartifacts
      refine agrees_of_success (congrArg status hitem) (r := r) rfl hs ⟨?_, ?_, ?_⟩
      · rw [hout]
        exact congrArg output hitem
      · rw [hout]
        exact congrArg score hitem
      · rw [hartifacts]
        exact congrArg artifacts hitem

/-- An item does not wait for a job: it agrees with the execution that is parked on one exactly when
that cannot be completed. -/
theorem agrees_parked_iff (he : e.untimed = e₀.untimed) (hst : st'.outline = st.outline)
    (hitem : item.untimed = (Engine.itemEnd p index id st e₀).untimed)
    (hs : ¬ Engine.AllSkipped e₀) (job : JobHandle) (hskipped : ¬ skipped) (now : Timestamp) :
    item.Agrees p (.ok (.ok (.dispatched job))) skipped ↔
      ¬ ∃ r, (Engine.completion p e now st').1 = .ok r := by
  unfold Engine.itemEnd at hitem
  rw [if_neg hs] at hitem
  have done := Engine.completion_congr he hst p now .zero
  rcases cases_of_map_eq done with ⟨err, h, h₀⟩ | ⟨r, r₀, h, h₀, same⟩
  · rw [h₀] at hitem
    rw [h]
    have hstatus : item.status = .failed := congrArg status hitem
    apply iff_of_true
    · apply agrees_of_failed hstatus
      · intro r hr
        cases hr
      · intro f hf
        cases hf
      · exact hskipped
    · intro hh
      obtain ⟨r, hr⟩ := hh
      cases hr
  · rw [h₀] at hitem
    rw [h]
    apply iff_of_false
    · intro agrees
      obtain ⟨⟨r, hr⟩, -⟩ := agrees.success.mp (congrArg status hitem)
      cases hr
    · rw [not_not]
      exact ⟨r, rfl⟩

end ItemResult

namespace World

open Engine

variable {T S : Type} [ToolServer T] [IdSource S]
variable {answers : ToolAnswers} {limit : Span} {usable : T → Prop}

/-- A world with one execution keeps to what its share tells. -/
theorem keeps_solo (h : ToolServer.Steady answers limit usable) (capability : String) :
    Activity.Keeps surroundings (Working.shared answers limit capability)
      fun (w : World T S) v => usable w.tools ∧ v.store = w.store := by
  rintro now r w v K ⟨husable, hstore⟩ hK
  cases r with
  | freshId => exact ⟨_, hK.2 _, husable, hstore⟩
  | tool r =>
    obtain ⟨reply, usable'⟩ := h.keeps husable now r v hK
    exact ⟨v, reply, usable', hstore⟩
  | store r =>
    have own : v.store.MayReply r (w.store.answer r).1 := by
      rw [hstore]
      cases r <;> trivial
    refine ⟨_, hK.2 _ own, husable, ?_⟩
    rw [Share.asked, hstore]
    rfl
  | job r => exact hK.elim

variable {g : Engine} {w : World T S}

/-- The steps of a single execution come to what the answers of the tools tell. -/
theorem begin_steps_seen (p : Playbook) (inputs : BoundInputs) (now : Instant)
    (h : ToolServer.Steady answers g.steps.timeout usable)
    (htools : usable w.tools) :
    ((w.begin now p inputs).steps g).1.map Progress.seen =
      (stepsOutcome answers g.steps p p.steps
        (.begin (IdSource.fresh (IdSource.fresh w.ids).2).1 (IdSource.fresh w.ids).1 p inputs
          .zero)).map fun o => (o.1, o.2.untimed) := by
  have same : (w.begin now p inputs).execution.untimed =
      (Execution.begin (IdSource.fresh (IdSource.fresh w.ids).2).1 (IdSource.fresh w.ids).1 p inputs
        .zero).untimed := rfl
  have steps := runSteps_assures answers g.steps p p.artifactCapability
    (v := ⟨some (IdSource.fresh (IdSource.fresh w.ids).2).1, w.store, 1⟩) p.steps same rfl
    Nat.one_pos
  obtain ⟨v, ⟨-, -, seen⟩, -⟩ := steps.run (keeps_solo h p.artifactCapability)
    (w := (w.begin now p inputs).world) ⟨htools, rfl⟩ now
  exact seen

/-- An item that follows from its inputs agrees with their single execution, unless that one is
parked although it could be completed. -/
theorem begin_agrees_iff (p : Playbook) (inputs : BoundInputs) (now : Instant)
    (h : ToolServer.Steady answers g.steps.timeout usable)
    (htools : usable w.tools) (hord : w.jobs.Ordered)
    (hfree : w.jobs.find? (IdSource.fresh (IdSource.fresh (IdSource.fresh w.ids).2).2).1 = none)
    {item : ItemResult} {index : Nat}
    (hitem : item.untimed = (itemOutcome answers g.steps p (IdSource.fresh w.ids).1 index inputs
      w.store (IdSource.fresh (IdSource.fresh w.ids).2).1).untimed) :
    item.Agrees p (.ok ((w.begin now p inputs).run g).1) ((w.begin now p inputs).AllSkipped g) ↔
      ¬ (w.begin now p inputs).Overlooks g := by
  have seen := begin_steps_seen p inputs now h htools
  have store := (w.begin now p inputs).steps_store g
  have jobs := (w.begin now p inputs).steps_jobs g
  have free (job : JobHandle) (e : Execution) (later : Instant) (v : World T S)
      (hx : (w.begin now p inputs).steps g = (.ok (.dispatched job e), later, v)) :
      w.jobs.find? job.jobId = none := by
    rw [(w.begin now p inputs).steps_job g hx]
    exact hfree
  rw [itemOutcome] at hitem
  rw [Segment.run_eq_ending, Segment.AllSkipped, Segment.Overlooks]
  revert seen store jobs free
  rcases (w.begin now p inputs).steps g with ⟨y, later, v⟩
  intro seen store jobs free
  rcases cases_of_map_eq seen with ⟨err, rfl, ho⟩ | ⟨progress, ⟨b, e₀⟩, rfl, ho, hseen⟩
  · rw [ho] at hitem
    have hstatus : item.status = .failed := congrArg ItemResult.status hitem
    have failure := congrArg ItemResult.error hitem
    apply iff_of_true
    · apply ItemResult.agrees_of_failed hstatus
      · intro r hr
        cases hr
      · intro f hf
        obtain rfl := Except.error.inj (Except.ok.inj hf)
        exact failure
      · intro hh
        obtain ⟨e, he, -⟩ := hh
        cases he
    · intro hh
      obtain ⟨job, e, r, he, -⟩ := hh
      cases he
  · rw [ho] at hitem
    have he : progress.execution.untimed = e₀.untimed := by
      cases progress <;> exact congrArg Prod.snd hseen
    cases progress with
    | finished e =>
      have skips : (∃ e', (.ok (.finished e) : Except EngineError Progress) = .ok (.finished e') ∧
          Engine.AllSkipped e') ↔ Engine.AllSkipped e₀ := by
        rw [← allSkipped_congr he]
        constructor
        · intro hh
          obtain ⟨e', h, hs⟩ := hh
          cases h
          exact hs
        · intro hs
          exact ⟨e, rfl, hs⟩
      rw [skips]
      apply iff_of_true
      · exact ItemResult.agrees_of_finished he (congrArg ArtifactStore.outline store) hitem
      · intro hh
        obtain ⟨job, e', r, h, -⟩ := hh
        cases h
    | dispatched job e =>
      obtain rfl : true = b := congrArg Prod.fst hseen
      have accepted : (v.jobs.suspend later ⟨job, p, e⟩).1 = true := by
        have absent : (w.jobs.evict later).find? job.jobId = none := by
          rw [JobTable.find?_evict hord, free job e later v rfl]
          rfl
        rw [show v.jobs = w.jobs from jobs]
        exact congrArg Prod.fst (JobTable.suspend_free (s := ⟨job, p, e⟩) absent)
      have skips : ¬ ∃ e', (.ok (.dispatched job e) : Except EngineError Progress) =
          .ok (.finished e') ∧ Engine.AllSkipped e' := by
        intro hh
        obtain ⟨e', h, -⟩ := hh
        cases h
      have parked := ItemResult.agrees_parked_iff he rfl hitem
        (not_allSkipped_of_dispatched answers g.steps p ho) job skips (.ofNanos later)
      dsimp only [ending]
      change ItemResult.Agrees item p (.ok (if (v.jobs.suspend later ⟨job, p, e⟩).1 then _ else _)) _
        ↔ _
      rw [if_pos accepted]
      refine parked.trans (not_congr ?_)
      constructor
      · intro hh
        obtain ⟨r, hr⟩ := hh
        exact ⟨job, e, r, rfl, hr⟩
      · intro hh
        obtain ⟨job', e', r, h, hr⟩ := hh
        cases h
        exact ⟨r, hr⟩

end World

end PlaybookEngine
