import PlaybookEngine.Proofs.Batch.Orderly
import PlaybookEngine.Proofs.Engine.Mode

namespace PlaybookEngine

open Activity

/-- If the item failed, it tells the trace. -/
def ItemResult.Traced (traceId : String) (item : ItemResult) : Prop :=
  ∀ f, item.error = some f → f.traceId = some traceId

/-- The item failed, and does not tell a trace. -/
def ItemResult.Untraced (item : ItemResult) : Prop := ∃ f, item.error = some f ∧ f.traceId = none

/-- The answer of a single execution tells the trace: its failure does, or its result. -/
def Invocation.Traced (traceId : String) : Except Failure Invocation → Prop
  | .error f => f.traceId = some traceId
  | .ok (.completed r) => r.traceId = traceId ∧ r.items = []
  | .ok (.dispatched _) => True

/-- Whatever becomes of the plan tells the trace, unless an item is given up. -/
def Plan.Traced (traceId : String) : Plan → Prop
  | .answered answer => Invocation.Traced traceId answer
  | .batch items conclude =>
    (∀ (i : Nat) (p : Activity Working ItemResult), items[i]? = some p →
      p.Abides (fun _ => True) (ItemResult.Traced traceId)) ∧
    ∀ results now, (conclude results now).traceId = traceId ∧
      (conclude results now).items = results

theorem Execution.traceId_advance (e : Execution) (status : ExecutionStatus) (now : Timestamp) :
    (e.advance status now).traceId = e.traceId := by
  unfold Execution.advance
  split <;> rfl

/-- When an activity goes on that is blocked. -/
def Pause.wake? {I : Interface} {α : Type} : Pause I α → Option Instant
  | .ended _ => none
  | .blocked wake _ => some wake

theorem Pause.wake?_eq_some {I : Interface} {α : Type} {x : Pause I α} {wake : Instant} :
    x.wake? = some wake ↔ ∃ rest, x = .blocked wake rest := by
  cases x <;> simp [wake?]

namespace ItemResult

variable {traceId : String}

theorem traced_of_error {item : ItemResult} (h : item.error = none) : item.Traced traceId := by
  intro f hf
  rw [h] at hf
  cases hf

theorem traced_failed (index : Nat) (id : Option String) {f : Failure}
    (h : f.traceId = some traceId) : (failed index id f).Traced traceId := by
  intro f' hf'
  obtain rfl := Option.some_inj.mp hf'
  exact h

end ItemResult

namespace Engine

variable {g : Engine} {settings : StepSettings} {p : Playbook} {e : Execution} {traceId : String}

theorem runSteps_traced (settings : StepSettings) (p : Playbook) (steps : List Step)
    (he : e.traceId = traceId) :
    (runSteps settings p steps e).Abides (fun _ => True)
      (Yields fun progress => progress.execution.traceId = traceId) :=
  runSteps_keeps (K := (·.traceId = traceId)) trivial (fun _ => trivial) (fun _ _ h => h)
    (fun _ _ h => h) settings steps he

theorem complete_traced (p : Playbook) (he : e.traceId = traceId) :
    (complete p e).Abides (fun _ => True)
      (Yields fun r => r.traceId = traceId ∧ r.items = []) := by
  refine (complete_yields trivial (fun _ => trivial) p e).mono fun x hx => ?_
  cases x with
  | error err => trivial
  | ok r =>
    obtain ⟨final, artifacts, now, -, -, rfl⟩ := hx
    exact ⟨(e.traceId_advance final.status now).trans he, rfl⟩

theorem traceId_failure (he : e.traceId = traceId) (cause : EngineError) :
    (e.failure cause).traceId = some traceId := congrArg some he

theorem drive_traced (settings : StepSettings) (p : Playbook) (he : e.traceId = traceId) :
    (drive settings p e).Abides (fun _ => True) (Invocation.Traced traceId) := by
  rw [drive, abides_bind]
  refine (runSteps_traced settings p _ he).mono fun x hx => ?_
  rcases x with err | e' | ⟨job, e'⟩
  case error => exact traceId_failure he _
  case ok.dispatched =>
    refine abides_request_bind.mpr ⟨trivial, fun free => ?_⟩
    split
    · trivial
    · exact traceId_failure hx _
  case ok.finished =>
    refine abides_bind.mpr ((complete_traced p hx).mono fun y hy => ?_)
    cases y with
    | error err => exact traceId_failure hx err
    | ok r => exact hy

theorem endItem_traced (p : Playbook) (index : Nat) (id : String) (he : e.traceId = traceId) :
    (endItem p index id e).Abides (fun _ => True) (ItemResult.Traced traceId) := by
  unfold endItem
  split
  · exact ItemResult.traced_of_error rfl
  · refine abides_bind.mpr ((complete_traced p he).mono fun y _ => ?_)
    cases y with
    | error err => exact ItemResult.traced_failed index _ (traceId_failure he err)
    | ok r => exact ItemResult.traced_of_error rfl

theorem runItem_traced (settings : StepSettings) (p : Playbook) (traceId : String) (index : Nat)
    (raw : Fields Json) :
    (runItem settings p traceId index raw).Abides (fun _ => True) (ItemResult.Traced traceId) := by
  unfold runItem
  split
  · exact ItemResult.traced_failed index none rfl
  · refine abides_bind.mpr (abides_all (fun id => ?_) _)
    refine abides_bind.mpr (abides_all (fun now => ?_) _)
    rename_i inputs _
    have begun : (Execution.begin id traceId p inputs now).traceId = traceId := rfl
    refine abides_bind.mpr ((runSteps_traced settings p p.steps begun).mono fun x hx => ?_)
    cases x with
    | error err => exact ItemResult.traced_failed index _ (traceId_failure begun _)
    | ok progress => exact endItem_traced p index id hx

theorem batchResult_traced (p : Playbook) (he : e.traceId = traceId) (results : List ItemResult)
    (now : Timestamp) :
    (batchResult p e results now).traceId = traceId ∧
      (batchResult p e results now).items = results := by
  refine ⟨?_, rfl⟩
  change (Execution.advance e _ now).traceId = traceId
  rw [Execution.traceId_advance, he]

theorem planBatch_traced (settings : StepSettings) (p : Playbook) (raw : Fields Json)
    (traceId : String) :
    (planBatch settings p raw traceId).Abides (fun _ => True) (Yields (Plan.Traced traceId)) := by
  unfold planBatch
  split
  · trivial
  · split
    · trivial
    · split
      · trivial
      · refine ⟨trivial, fun id => ⟨trivial, fun now => ⟨fun i a ha => ?_, fun results now' => ?_⟩⟩⟩
        · rw [List.getElem?_mapIdx, Option.map_eq_some_iff] at ha
          obtain ⟨raw, -, rfl⟩ := ha
          exact runItem_traced settings p traceId i raw
        · exact batchResult_traced p rfl results now'

theorem refused_traced (traceId : String) (err : EngineError) :
    (refused traceId err).Traced traceId := rfl

theorem execute_traced (g : Engine) (code locale : String) (raw : Fields Json) :
    ∃ rest, g.execute code locale raw = Working.freshId >>= rest ∧
      ∀ traceId, (rest traceId).Abides (fun _ => True) (Plan.Traced traceId) := by
  refine ⟨_, rfl, fun traceId => ?_⟩
  cases g.registry.resolve code locale with
  | error err => exact refused_traced traceId _
  | ok p =>
    dsimp only
    rcases requestedMode raw with err | mode
    case error => exact refused_traced traceId _
    cases mode with
    | batch =>
      refine abides_bind.mpr ((planBatch_traced g.steps p raw traceId).mono fun x hx => ?_)
      cases x with
      | error err => exact refused_traced traceId err
      | ok plan => exact hx
    | single =>
      dsimp only
      cases bind p.inputSchema raw with
      | error err => exact refused_traced traceId _
      | ok inputs =>
        refine ⟨trivial, fun id => ⟨trivial, fun now => ?_⟩⟩
        change (drive g.steps p (Execution.begin id traceId p inputs now) >>= _).Abides _ _
        refine abides_bind.mpr ((drive_traced g.steps p ?_).mono fun answer hanswer => hanswer)
        rfl

end Engine

namespace Batch

variable {I : Interface} {W : Type}

def Late (h : List Event) (i : Nat) : Prop := ∃ t limit, ⟨t, i, .timedOut limit⟩ ∈ h

def Crashed (h : List Event) (i : Nat) : Prop := ∃ t, ⟨t, i, .crashed⟩ ∈ h

/-- The batch has given the item up. -/
def Abandoned (h : List Event) (i : Nat) : Prop := Late h i ∨ Crashed h i

theorem abandoned_iff_eventsOf {h : List Event} {i : Nat} :
    Abandoned h i ↔ (∃ t limit, ⟨t, i, .timedOut limit⟩ ∈ eventsOf h i) ∨
      ∃ t, ⟨t, i, .crashed⟩ ∈ eventsOf h i := by
  simp [Abandoned, Late, Crashed, eventsOf]

/-- The result of an item is its own, or it was given up and failed for that. -/
theorem Orderly.result {settings : BatchSettings} {task : Nat → Nat} {s : Surroundings I W}
    {begun : Instant} {items : List (Activity I ItemResult)} {h : List Event}
    {results : List ItemResult} (ordered : Orderly settings task s begun items h results) {i : Nat}
    {p : Activity I ItemResult} (hp : items[i]? = some p) {Q : ItemResult → Prop}
    (hQ : p.Abides (fun _ => True) Q) :
    ∃ r, results[i]? = some r ∧ (¬ Abandoned h i ∧ Q r ∨ Abandoned h i ∧ r.Untraced) := by
  obtain ⟨r, hr, life⟩ := ordered.life i p hp
  refine ⟨_, hr, ?_⟩
  rw [abandoned_iff_eventsOf]
  generalize eventsOf h i = own at life
  cases life with
  | finished _ _ _ _ ends => exact .inl ⟨by simp, ends.abides hQ⟩
  | timedOut =>
    exact .inr ⟨.inl ⟨_, _, List.mem_cons_of_mem _ List.mem_cons_self⟩, _, rfl, rfl⟩
  | neverStarted => exact .inr ⟨.inl ⟨_, _, List.mem_cons_self⟩, _, rfl, rfl⟩
  | crashed => exact .inr ⟨.inr ⟨_, List.mem_cons_self⟩, _, rfl, rfl⟩

end Batch

namespace World

variable {T S : Type} [ToolServer T] [IdSource S]

/-- What happens to the items of an execution, if it is a batch. -/
def history (w : World T S) (g : Engine) (now : Instant) (code locale : String)
    (raw : Fields Json) : List Batch.Event :=
  match (g.execute code locale raw).run surroundings now w with
  | (.answered _, _, _) => []
  | (.batch items _, now, w) => Batch.history g.batch surroundings items now w

end World

/-- How the failures of the items tell the trace of the result, after this happened to them. -/
structure ExecutionResult.TracedBut (r : ExecutionResult) (traceId : String)
    (h : List Batch.Event) : Prop where
  own : r.traceId = traceId
  kept : ∀ (i : Nat) (item : ItemResult), r.items[i]? = some item → ¬ Batch.Abandoned h i →
    item.Traced traceId
  abandoned : ∀ i, Batch.Abandoned h i → ∃ item, r.items[i]? = some item ∧ item.Untraced

namespace ExecutionResult

variable {r : ExecutionResult} {traceId : String} {h : List Batch.Event}

theorem TracedBut.untraced (t : r.TracedBut traceId h) {i : Nat} {item : ItemResult} {f : Failure}
    (hitem : r.items[i]? = some item) (hf : item.error = some f) (given : Batch.Abandoned h i) :
    f.traceId = none := by
  obtain ⟨item', hitem', f', hf', htrace⟩ := t.abandoned i given
  obtain rfl := Option.some_inj.mp (hitem.symm.trans hitem')
  obtain rfl := Option.some_inj.mp (hf.symm.trans hf')
  exact htrace

theorem TracedBut.traced_iff (t : r.TracedBut traceId h) :
    (∀ item ∈ r.items, item.Traced traceId) ↔ ∀ i, ¬ Batch.Abandoned h i := by
  constructor
  · intro traced i given
    obtain ⟨item, hitem, f, hf, htrace⟩ := t.abandoned i given
    have told := traced item (List.mem_of_getElem? hitem) f hf
    cases htrace.symm.trans told
  · intro kept item hitem
    obtain ⟨i, hi⟩ := List.mem_iff_getElem?.mp hitem
    exact t.kept i item hi (kept i)

end ExecutionResult

namespace World

open Engine

variable {T S : Type} [ToolServer T] [IdSource S]

/-- The answer of an execution tells its trace, but for the items that were given up. -/
theorem execute_traced (w : World T S) (g : Engine) (now : Instant) (code locale : String)
    (raw : Fields Json) :
    match (w.execute g now code locale raw).1 with
    | .ok (.error f) => f.traceId = some (IdSource.fresh w.ids).1
    | .ok (.ok (.completed r)) =>
      r.TracedBut (IdSource.fresh w.ids).1 (w.history g now code locale raw)
    | .ok (.ok (.dispatched _)) => True
    | .error _ => True := by
  obtain ⟨rest, hexecute, htraced⟩ := Engine.execute_traced g code locale raw
  generalize hid : (IdSource.fresh w.ids).1 = traceId
  have hplan : ((g.execute code locale raw).run surroundings now w).1.Traced traceId := by
    rw [hexecute, run_bind, run_freshId, hid]
    exact (htraced traceId).run surroundings now _
  unfold execute history
  revert hplan
  rcases (g.execute code locale raw).run surroundings now w with ⟨plan, now', w'⟩
  intro hplan
  cases plan with
  | answered answer =>
    dsimp only
    rcases answer with f | r | job
    · exact hplan
    · obtain ⟨htrace, hitems⟩ := hplan
      refine ⟨htrace, fun i item hitem => ?_, ?_⟩
      · rw [hitems] at hitem
        cases hitem
      · rintro i (⟨t, limit, hmem⟩ | ⟨t, hmem⟩)
        · cases hmem
        · cases hmem
    · trivial
  | batch items conclude =>
    obtain ⟨hitems, hconclude⟩ := hplan
    dsimp only
    cases hprocess : Batch.process g.batch (IdSource.task w'.ids) surroundings items now' w' with
    | error why => trivial
    | ok x =>
      obtain ⟨results, later, w''⟩ := x
      have ordered := Batch.process_orderly hprocess
      dsimp only
      obtain ⟨htrace, hresults⟩ := hconclude results (.ofNanos later)
      refine ⟨htrace, fun i item hitem kept => ?_, fun i given => ?_⟩
      · rw [hresults] at hitem
        have hlt := (List.getElem?_eq_some_iff.mp hitem).1
        rw [ordered.length] at hlt
        have hp := List.getElem?_eq_getElem hlt
        obtain ⟨r, hr, own⟩ := ordered.result hp (hitems i _ hp)
        obtain rfl := Option.some_inj.mp (hitem.symm.trans hr)
        rcases own with ⟨-, traced⟩ | ⟨given, -⟩
        · exact traced
        · exact absurd given kept
      · have known : i < items.length := by
          rcases given with ⟨t, limit, hmem⟩ | ⟨t, hmem⟩
          · exact ordered.known _ hmem
          · exact ordered.known _ hmem
        have hp := List.getElem?_eq_getElem known
        obtain ⟨r, hr, own⟩ := ordered.result hp (hitems i _ hp)
        rcases own with ⟨kept, -⟩ | ⟨-, untraced⟩
        · exact absurd given kept
        · rw [hresults]
          exact ⟨r, hr, untraced⟩

/-- Every invocation has one trace. A failure that is its answer tells it, and so does its result.
The failures of the items of a batch tell the trace of the batch exactly when their time was not up
and their tasks did not panic: an item that was given up tells none. -/
theorem failures_traced_iff_kept (w : World T S) (g : Engine) (now : Instant)
    (code locale : String) (raw : Fields Json) :
    let traceId := (IdSource.fresh w.ids).1
    let h := w.history g now code locale raw
    (∀ f, (w.execute g now code locale raw).1 = .ok (.error f) → f.traceId = some traceId) ∧
    ∀ r, (w.execute g now code locale raw).1 = .ok (.ok (.completed r)) →
      r.traceId = traceId ∧
      (∀ (i : Nat) item f, r.items[i]? = some item → item.error = some f →
        (¬ Batch.Abandoned h i → f.traceId = some traceId) ∧
        (Batch.Abandoned h i → f.traceId = none)) ∧
      ((∀ item ∈ r.items, ∀ f, item.error = some f → f.traceId = some r.traceId) ↔
        ∀ i, ¬ Batch.Abandoned h i) := by
  have traced := w.execute_traced g now code locale raw
  intro traceId h
  constructor
  · intro f hf
    rw [hf] at traced
    exact traced
  · intro r hr
    rw [hr] at traced
    have tells : r.TracedBut traceId h := traced
    refine ⟨tells.own, fun i item f hitem hf => ⟨fun kept => ?_, tells.untraced hitem hf⟩, ?_⟩
    · exact tells.kept i item hitem kept f hf
    · rw [tells.own]
      exact tells.traced_iff

/-- A tool that takes five seconds to answer. -/
structure Dawdler where

instance : ToolServer Dawdler where
  call t _ _ _ := (⟨Span.ofSecs 5, .ok (.completed (.obj []))⟩, t)
  poll t _ _ job := (⟨0, .error (.unknownJob job)⟩, t)

def hurriedEngine : Engine :=
  { clipEngine ⟨"text", "write"⟩ with batch := ⟨4, Span.ofSecs 1, Span.ofSecs 600⟩ }

def dawdlerWorld (drawn : Nat) : World Dawdler Identifier.Supply where
  tools := ⟨⟩
  store := .memory .empty
  jobs := .empty JobTable.defaultTtl
  ids := ⟨drawn⟩

/-- The failure of a playbook that is not there tells the first id. -/
theorem unknown_clip_traced :
    ∃ f, ((dawdlerWorld 0).execute hurriedEngine 0 "clap" "en" []).1 = .ok (.error f) ∧
      f.kind = .notFound ∧ f.traceId = some (Identifier.text 0) := by
  have refused : ((dawdlerWorld 0).execute hurriedEngine 0 "clap" "en" []).1 = .ok (.error _) := rfl
  have traced := (failures_traced_iff_kept (dawdlerWorld 0) hurriedEngine 0 "clap" "en" []).1
  exact ⟨_, refused, rfl, traced _ refused⟩

/-- The only item of a batch takes too long, and its failure does not tell the trace. -/
theorem late_clip_untraced :
    ∃ r item f, ((dawdlerWorld 0).execute hurriedEngine 0 "clip" "en" (clipBatch [.obj []])).1 =
        .ok (.ok (.completed r)) ∧
      r.items = [item] ∧ item.error = some f ∧ f.kind = .retryable ∧
      f.traceId ≠ some r.traceId := by
  have waiting : ((runItem .default (oneStep ⟨"text", "write"⟩) (Identifier.text 0) 0
      (Batch.singleMode [])).advance surroundings 0 (dawdlerWorld 2)).1.wake? =
        some (Span.ofSecs 5) := by
    decide +kernel
  obtain ⟨rest, blocked⟩ := Pause.wake?_eq_some.mp waiting
  have fits : Batch.Fits hurriedEngine.batch 0 := ⟨by decide, by decide⟩
  have positive : 0 < hurriedEngine.batch.itemTimeout := by decide
  have shorter : hurriedEngine.batch.itemTimeout < hurriedEngine.batch.batchTimeout := by decide
  have late : 0 + hurriedEngine.batch.itemTimeout < Span.ofSecs 5 := by decide
  have processed := Batch.process_singleton_of_blocked (IdSource.task (Identifier.Supply.mk 2))
    (Prod.ext blocked rfl) fits positive shorter late
  have expanded : Batch.expandItems (clipBatch [.obj []]) = .ok [Batch.singleMode []] := rfl
  have resolved : hurriedEngine.registry.resolve "clip" "en" =
      .ok (oneStep ⟨"text", "write"⟩) := rfl
  obtain ⟨r, completed, hitems⟩ :=
    completed_of_process (w := dawdlerWorld 0) resolved rfl rfl expanded rfl rfl processed
  exact ⟨r, _, _, completed, hitems, rfl, rfl, nofun⟩

end World

end PlaybookEngine
