import PlaybookEngine.Proofs.Activity.Partway
import PlaybookEngine.Proofs.Binding.Patterns
import PlaybookEngine.Proofs.Engine.Batches
import PlaybookEngine.Proofs.Engine.Order

namespace PlaybookEngine

open Activity

namespace Execution

/-- The execution later on: what it was given and what it sums up are the same. -/
structure Continues (e₀ e : Execution) : Prop where
  inputs : e.inputs = e₀.inputs
  batchSummary : e.batchSummary = e₀.batchSummary

variable {e₀ e : Execution}

theorem Continues.refl (e : Execution) : e.Continues e := ⟨rfl, rfl⟩

theorem Continues.record (h : e₀.Continues e) (r : StepResult) : e₀.Continues (e.record r) :=
  ⟨h.inputs, h.batchSummary⟩

theorem Continues.next (h : e₀.Continues e) (n : Nat) :
    e₀.Continues { e with nextStep := n } := ⟨h.inputs, h.batchSummary⟩

theorem Continues.advance (h : e₀.Continues e) (status : ExecutionStatus) (now : Timestamp) :
    e₀.Continues (e.advance status now) := by
  unfold Execution.advance
  split
  · exact ⟨h.inputs, h.batchSummary⟩
  · exact h

end Execution

namespace Binding

/-- No mode is supplied, and the schema's default is batch. -/
def BatchByDefault (schema : Fields Param) (raw : Fields Json) : Prop :=
  supplied? "run_mode" raw = none ∧
    ∃ p, Fields.get? "run_mode" schema = some p ∧ p.default = some (.str "batch")

end Binding

namespace Engine

open Binding

variable {schema : Fields Param} {raw : Fields Json} {inputs : BoundInputs} {mode : RunMode}

theorem requestedMode_of_named
    (h : Fields.get? "run_mode" raw = some (.str (Named.text mode))) :
    requestedMode raw = .ok mode := by
  rw [requestedMode, show Pattern.field RunMode = "run_mode" from rfl, h]
  cases mode <;> rfl

theorem requestedMode_of_absent (h : supplied? "run_mode" raw = none) :
    requestedMode raw = .ok .single := by
  rw [requestedMode, show Pattern.field RunMode = "run_mode" from rfl]
  cases hfound : Fields.get? "run_mode" raw with
  | none => rfl
  | some v =>
    have hnull : v.isNull = true := by
      by_contra hv
      have hsupplied := supplied?_eq_some.mpr ⟨hfound, Bool.eq_false_iff.mpr hv⟩
      cases h.symm.trans hsupplied
    obtain rfl := (Json.isNull_iff v).mp hnull
    rfl

/-- The mode that inputs are bound to is the text that counts for it, or single without one. -/
theorem counted?_runMode (hschema : Fields.Ordered schema) (hraw : Fields.Ordered raw)
    (h : bind schema raw = .ok inputs) :
    counted? schema raw "run_mode" = some (.str (Named.text (BoundInputs.runMode inputs))) ∨
      counted? schema raw "run_mode" = none ∧ BoundInputs.runMode inputs = .single :=
  counted?_pattern_of_bind worded_runMode ruled_runMode hschema hraw h

theorem runMode_eq_batch_iff (hschema : Fields.Ordered schema) (hraw : Fields.Ordered raw)
    (h : bind schema raw = .ok inputs) :
    BoundInputs.runMode inputs = .batch ↔ counted? schema raw "run_mode" = some (.str "batch") := by
  rcases counted?_runMode hschema hraw h with hcounted | ⟨hcounted, hsingle⟩
  · rw [hcounted]
    cases BoundInputs.runMode inputs with
    | batch => exact iff_of_true rfl rfl
    | single =>
      refine iff_of_false RunMode.noConfusion fun heq => ?_
      exact absurd (Json.str.inj (Option.some.inj heq)) (by decide)
  · rw [hcounted, hsingle]
    exact iff_of_false RunMode.noConfusion fun heq => by cases heq

/-- When no mode is supplied, only the default of the schema can make it batch. -/
theorem batchByDefault_iff (hschema : Fields.Ordered schema) (hraw : Fields.Ordered raw)
    (h : bind schema raw = .ok inputs) (habsent : supplied? "run_mode" raw = none) :
    BatchByDefault schema raw ↔ BoundInputs.runMode inputs = .batch := by
  rw [runMode_eq_batch_iff hschema hraw h, counted?_of_absent habsent]
  constructor
  · rintro ⟨-, p, hp, hbatch⟩
    have hoptional : p.required = false := by
      obtain ⟨⟨hsuits, -⟩, -⟩ := (bind_eq_ok_iff hschema hraw).mp h
      have hpresent := (hsuits _ (Fields.mem_of_get? hp)).present
      rw [habsent] at hpresent
      simpa using hpresent
    rw [hp, Option.bind_some, hoptional, hbatch]
    rfl
  · intro hbatch
    obtain ⟨p, hp, hused⟩ := Option.bind_eq_some_iff.mp hbatch
    split at hused
    · cases hused
    · exact ⟨habsent, p, hp, hused⟩

/-- Inputs that bind ask for a mode: single when they are bound to batch by default only, and else
the one that they are bound to. -/
theorem requestedMode_of_bind (hschema : Fields.Ordered schema) (hraw : Fields.Ordered raw)
    (h : bind schema raw = .ok inputs) :
    ∃ mode, requestedMode raw = .ok mode ∧
      (BatchByDefault schema raw → mode = .single ∧ BoundInputs.runMode inputs = .batch) ∧
      (¬BatchByDefault schema raw → mode = BoundInputs.runMode inputs) := by
  cases hsupplied : supplied? "run_mode" raw with
  | some v =>
    have hgiven : ¬BatchByDefault schema raw := fun hdefault => by
      cases hdefault.1.symm.trans hsupplied
    have hcounted := counted?_runMode hschema hraw h
    rw [counted?_of_supplied hsupplied] at hcounted
    rcases hcounted with hv | ⟨hv, -⟩
    · obtain rfl := Option.some.inj hv
      refine ⟨_, requestedMode_of_named (supplied?_eq_some.mp hsupplied).1, ?_, fun _ => rfl⟩
      exact fun hdefault => absurd hdefault hgiven
    · cases hv
  | none =>
    have hiff := batchByDefault_iff hschema hraw h hsupplied
    refine ⟨.single, requestedMode_of_absent hsupplied, fun hd => ⟨rfl, hiff.mp hd⟩, fun hd => ?_⟩
    cases hbound : BoundInputs.runMode inputs with
    | single => rfl
    | batch => exact absurd (hiff.mpr hbound) hd

variable {g : Engine} {p : Playbook} {e : Execution}

/-- What is done for a playbook in a mode. -/
def planIn (g : Engine) (p : Playbook) (raw : Fields Json) (traceId : String) :
    RunMode → Activity Working Plan
  | .batch => do
    match ← planBatch g.steps p raw traceId with
    | .error err => return refused traceId err
    | .ok plan => return plan
  | .single =>
    match bind p.inputSchema raw with
    | .error err => return refused traceId (.validation err)
    | .ok inputs => do
      let e := Execution.begin (← Working.freshId) traceId p inputs (← Working.now)
      return .answered (← drive g.steps p e)

theorem execute_of_requestedMode {code locale : String}
    (hresolve : g.registry.resolve code locale = .ok p) (hmode : requestedMode raw = .ok mode) :
    g.execute code locale raw =
      Working.freshId >>= fun traceId => g.planIn p raw traceId mode := by
  unfold execute
  rw [hresolve]
  dsimp only
  rw [hmode]
  cases mode <;> rfl

/-- The answer of a batch: a result that sums up items, or a refusal before anything is executed.
Nothing but a batch panics. -/
def FromBatch : Except Panic (Except Failure Invocation) → Prop
  | .ok (.ok (.completed r)) => r.batchSummary.isSome = true
  | .ok (.ok (.dispatched _)) => False
  | .ok (.error f) => f.executionId = none
  | .error _ => True

instance : DecidablePred FromBatch
  | .ok (.ok (.completed r)) => inferInstanceAs (Decidable (r.batchSummary.isSome = true))
  | .ok (.ok (.dispatched _)) => inferInstanceAs (Decidable False)
  | .ok (.error f) => inferInstanceAs (Decidable (f.executionId = none))
  | .error _ => inferInstanceAs (Decidable True)

/-- What the plan leads to shows that it is one for the mode. -/
def Serves (mode : RunMode) : Plan → Prop
  | .answered answer => FromBatch (.ok answer) ↔ mode = .batch
  | .batch _ conclude =>
    mode = .batch ∧ ∀ results now, (conclude results now).batchSummary.isSome = true

/-- Steps ask for ids and for what tools do, and they keep what moving on and recording a result
keep. -/
theorem runSteps_keeps {P : Working.Request → Prop} (hid : P .freshId) (htool : ∀ r, P (.tool r))
    {K : Execution → Prop} (hnext : ∀ e n, K e → K { e with nextStep := n })
    (hrecord : ∀ e r, K e → K (e.record r)) (settings : StepSettings) (steps : List Step)
    (he : K e) :
    (runSteps settings p steps e).Abides P (Yields fun progress => K progress.execution) := by
  induction steps generalizing e with
  | nil => exact he
  | cons s rest ih =>
    have going := hnext e (e.nextStep + 1) he
    have executed := abides_all (Q := fun _ => True) (fun _ => trivial)
      (s.execute settings { e with nextStep := e.nextStep + 1 })
    rw [runSteps, abides_bind]
    refine (Working.tooling_abides (executed.mono_requests fun r _ => htool r)).mono fun x _ => ?_
    cases x with
    | ok r =>
      dsimp only
      split
      · exact ⟨hid, fun _ => hrecord _ r going⟩
      · exact ih (hrecord _ r going)
    | error err =>
      refine ⟨htool .now, fun now => ?_⟩
      dsimp only
      split
      · exact ih (hrecord _ _ going)
      · trivial

theorem runSteps_continues {P : Working.Request → Prop} (hid : P .freshId)
    (htool : ∀ r, P (.tool r)) (settings : StepSettings) (steps : List Step) {e₀ : Execution}
    (he : e₀.Continues e) :
    (runSteps settings p steps e).Abides P
      (Yields fun progress => e₀.Continues progress.execution) :=
  runSteps_keeps hid htool (fun _ n h => h.next n) (fun _ r h => h.record r) settings steps he

/-- An execution that sums up no items answers as one: its failures bear its name, and so does the
handle of a job. -/
theorem drive_single (settings : StepSettings) (he : e.batchSummary = none) :
    (drive settings p e).Abides (fun _ => True) fun answer => ¬FromBatch (.ok answer) := by
  have steps := runSteps_continues (p := p) (P := fun _ => True) trivial (fun _ => trivial) settings
    (p.steps.drop e.nextStep) (.refl e)
  refine abides_bind.mpr (steps.mono fun x hx => ?_)
  rcases x with err | e' | ⟨job, e'⟩
  case error => exact Option.some_ne_none _
  case ok.dispatched =>
    refine abides_request_bind.mpr ⟨trivial, fun free => ?_⟩
    split
    · exact not_false
    · exact Option.some_ne_none _
  case ok.finished =>
    have hnone : e'.batchSummary = none := (hx : e.Continues e').batchSummary.trans he
    refine abides_bind.mpr ((complete_yields trivial (fun _ => trivial) p e').mono fun y hy => ?_)
    cases y with
    | error err => exact Option.some_ne_none _
    | ok r =>
      obtain ⟨final, artifacts, now, -, -, rfl⟩ := hy
      have hsummary := (Execution.Continues.refl e').advance final.status now |>.batchSummary
      change ¬(e'.advance final.status now).batchSummary.isSome = true
      rw [hsummary, hnone]
      exact Bool.false_ne_true

theorem planBatch_serves (settings : StepSettings) (p : Playbook) (raw : Fields Json)
    (traceId : String) :
    (planBatch settings p raw traceId).Abides (fun _ => True) (Yields (Serves .batch)) := by
  unfold planBatch
  split
  · trivial
  · split
    · trivial
    · split
      · trivial
      · exact ⟨trivial, fun id => ⟨trivial, fun now => ⟨rfl, fun results now => rfl⟩⟩⟩

/-- Once the inputs bind, what is done in a mode shows the mode. -/
theorem planIn_serves (hbind : bind p.inputSchema raw = .ok inputs)
    (traceId : String) (mode : RunMode) :
    (g.planIn p raw traceId mode).Abides (fun _ => True) (Serves mode) := by
  cases mode with
  | batch =>
    refine abides_bind.mpr ((planBatch_serves g.steps p raw traceId).mono fun x hx => ?_)
    cases x with
    | error err => exact iff_of_true (rfl : (none : Option String) = none) rfl
    | ok plan => exact hx
  | single =>
    rw [planIn, hbind]
    refine ⟨trivial, fun id => ⟨trivial, fun now => ?_⟩⟩
    change (drive g.steps p (Execution.begin id traceId p inputs now) >>= _).Abides _ _
    refine abides_bind.mpr ((drive_single g.steps rfl).mono fun answer hanswer => ?_)
    exact iff_of_false hanswer RunMode.noConfusion

theorem fromBatch_execute_iff {T S : Type} [ToolServer T] [IdSource S] {code locale : String}
    (h : (g.execute code locale raw).Abides (fun _ => True) (Serves mode)) (w : World T S)
    (now : Instant) : FromBatch (w.execute g now code locale raw).1 ↔ mode = .batch := by
  have hplan := h.run World.surroundings now w
  unfold World.execute
  revert hplan
  rcases (g.execute code locale raw).run World.surroundings now w with ⟨plan, now', w'⟩
  intro hplan
  cases plan with
  | answered answer => exact hplan
  | batch items conclude =>
    dsimp only
    cases Batch.process g.batch (IdSource.task w'.ids) World.surroundings items now' w' with
    | error why => exact iff_of_true trivial hplan.1
    | ok x => exact iff_of_true (hplan.2 _ _) hplan.1

/-- Inputs that bind are run in one mode, and every answer shows which. It is the mode that they are
bound to, unless only the default of the schema makes this batch: then they are run as single. -/
theorem run_mode_used {code locale : String}
    (hresolve : g.registry.resolve code locale = .ok p)
    (hschema : Fields.Ordered p.inputSchema) (hraw : Fields.Ordered raw)
    (hbind : bind p.inputSchema raw = .ok inputs) :
    ∃ mode, g.execute code locale raw =
        (Working.freshId >>= fun traceId => g.planIn p raw traceId mode) ∧
      (∀ {T S : Type} [ToolServer T] [IdSource S] (w : World T S) (now : Instant),
        FromBatch (w.execute g now code locale raw).1 ↔ mode = .batch) ∧
      (BatchByDefault p.inputSchema raw → mode = .single ∧ BoundInputs.runMode inputs = .batch) ∧
      (¬BatchByDefault p.inputSchema raw → mode = BoundInputs.runMode inputs) := by
  obtain ⟨mode, hmode, hdefault, hother⟩ := requestedMode_of_bind hschema hraw hbind
  have hplan := execute_of_requestedMode hresolve hmode
  have hserves : (g.execute code locale raw).Abides (fun _ => True) (Serves mode) := by
    rw [hplan]
    exact ⟨trivial, fun traceId => planIn_serves hbind traceId mode⟩
  exact ⟨mode, hplan, fun w now => fromBatch_execute_iff hserves w now, hdefault, hother⟩

def clipsPlaybook : Playbook :=
  { World.oneStep ⟨"text", "write"⟩ with
    inputSchema := [("run_mode", ⟨.enumeration, false, some (.str "batch"), ["single", "batch"], none⟩)] }

def clipsEngine : Engine := ⟨.ofPlaybooks "en" [clipsPlaybook], .default, .default⟩

/-- Told to run a batch, it does. -/
theorem clips_batch_used :
    ∃ inputs, bind clipsPlaybook.inputSchema (World.clipBatch [.obj []]) = .ok inputs ∧
      BoundInputs.runMode inputs = .batch ∧
      FromBatch ((World.studioWorld (Identifier.Supply.mk 0)).execute clipsEngine 0 "clip" "en"
        (World.clipBatch [.obj []])).1 := by
  have hschema : Fields.Ordered clipsPlaybook.inputSchema := by decide +kernel
  have hraw : Fields.Ordered (World.clipBatch [.obj []]) := by decide +kernel
  have hresolve : clipsEngine.registry.resolve "clip" "en" = .ok clipsPlaybook := rfl
  have hbind : bind clipsPlaybook.inputSchema (World.clipBatch [.obj []]) = .ok _ := rfl
  obtain ⟨mode, -, hanswer, -, hbound⟩ := run_mode_used hresolve hschema hraw hbind
  have hgiven : ¬BatchByDefault clipsPlaybook.inputSchema (World.clipBatch [.obj []]) := by
    rintro ⟨habsent, -⟩
    cases habsent
  have served := hanswer (World.studioWorld (Identifier.Supply.mk 0)) 0
  exact ⟨_, hbind, rfl, served.mpr (hbound hgiven)⟩

/-- Told nothing, its inputs are bound to batch, and it runs as single. -/
theorem clips_default_ignored :
    ∃ inputs, clipsEngine.registry.resolve "clip" "en" = .ok clipsPlaybook ∧
      bind clipsPlaybook.inputSchema [("items", .arr [.obj []])] = .ok inputs ∧
      BoundInputs.runMode inputs = .batch ∧
      ¬FromBatch ((World.studioWorld (Identifier.Supply.mk 0)).execute clipsEngine 0 "clip" "en"
        [("items", .arr [.obj []])]).1 :=
  ⟨_, rfl, rfl, rfl, by decide +kernel⟩

end Engine

end PlaybookEngine
