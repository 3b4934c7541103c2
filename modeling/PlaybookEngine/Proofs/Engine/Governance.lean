import PlaybookEngine.Proofs.Engine.Discipline
import PlaybookEngine.Proofs.Engine.Mode
import PlaybookEngine.Proofs.Engine.Tally
import PlaybookEngine.Proofs.Fields.Folded
import PlaybookEngine.Proofs.Output.Flags

namespace PlaybookEngine

open Activity

/-- The flags of content with the status. -/
structure GovernanceFlags.Tell (f : GovernanceFlags) (s : ContentStatus) : Prop where
  shouldEmbed : f.shouldEmbed = true ↔ s = .published
  isFinal : f.isFinal = true ↔ s = .published ∨ s = .archived

/-- No flag tells the two apart. -/
def ContentStatus.Alike (s t : ContentStatus) : Prop :=
  (s = .published ↔ t = .published) ∧ (s = .archived ↔ t = .archived)

namespace GovernanceFlags

theorem tell_derive (s : ContentStatus) (artifacts : Nat) (output : Fields Json) :
    (derive s artifacts output).Tell s := by
  constructor <;> cases s <;> simp [derive]

theorem Tell.iff_alike {f : GovernanceFlags} {s t : ContentStatus} (h : f.Tell t) :
    f.Tell s ↔ s.Alike t := by
  constructor
  · intro hs
    have hpublished := hs.shouldEmbed.symm.trans h.shouldEmbed
    have hfinal := hs.isFinal.symm.trans h.isFinal
    refine ⟨hpublished, ?_⟩
    revert hpublished hfinal
    cases s <;> cases t <;> decide
  · rintro ⟨hpublished, harchived⟩
    exact ⟨h.shouldEmbed.trans hpublished.symm,
      h.isFinal.trans (or_congr hpublished.symm harchived.symm)⟩

end GovernanceFlags

/-- When all artifacts of the result have one status, the flags are those of that status. -/
def ExecutionResult.Governed (r : ExecutionResult) : Prop :=
  ∀ s, r.artifacts ≠ [] → (∀ a ∈ r.artifacts, a.contentStatus = s) → r.flags.Tell s

theorem ExecutionResult.governed_of_tell {r : ExecutionResult} {s : ContentStatus}
    (hflags : r.flags.Tell s) (hstatus : ∀ a ∈ r.artifacts, a.contentStatus = s) :
    r.Governed := by
  intro t hne ht
  obtain ⟨a, ha⟩ := List.exists_mem_of_ne_nil _ hne
  exact (hstatus a ha).symm.trans (ht a ha) ▸ hflags

namespace Engine

/-- The flags and the artifacts of a completed execution come from the same inputs. -/
theorem complete_tells {P : Working.Request → Prop} (hnow : P (.tool .now))
    (hstore : ∀ r, P (.store r)) (p : Playbook) (e : Execution) :
    (complete p e).Abides P (Yields fun r => r.flags.Tell (BoundInputs.contentStatus e.inputs) ∧
      ∀ a ∈ r.artifacts, a.contentStatus = BoundInputs.contentStatus e.inputs) := by
  refine (complete_yields hnow hstore p e).mono fun x hx => ?_
  cases x with
  | error err => trivial
  | ok r =>
    obtain ⟨final, artifacts, now, hfinal, hstored, rfl⟩ := hx
    constructor
    · change final.flags.Tell _
      rw [(flags_of_finalize hfinal).1]
      exact GovernanceFlags.tell_derive _ _ _
    · have hdrafts : ∀ d ∈ final.artifacts,
          d.contentStatus = BoundInputs.contentStatus e.inputs := fun d hd => by
        obtain ⟨x, -, hkeeps⟩ := exists_of_mem_forall₂ (projects_of_finalize hfinal).drafts hd
        exact hkeeps.status
      intro a ha
      obtain ⟨d, hd, hstatus⟩ := exists_of_mem_forall₂ hstored ha
      exact hstatus.trans (hdrafts d hd)

/-- Whoever makes the request records governed results only. -/
def Governing : Working.Request → Prop :=
  EngineRequest.Within (fun _ _ => True) ExecutionResult.Governed

theorem drive_governed (settings : StepSettings) (p : Playbook) (e : Execution) :
    (drive settings p e).Abides Governing
      (Yields (Invocation.Within ExecutionResult.Governed)) := by
  have steps := runSteps_continues (p := p) (P := Governing) trivial (fun _ => trivial) settings
    (p.steps.drop e.nextStep) (.refl e)
  rw [drive, abides_bind]
  refine steps.mono fun x _ => ?_
  rcases x with err | e' | ⟨job, e'⟩
  case error => trivial
  case ok.dispatched =>
    refine abides_request_bind.mpr ⟨trivial, fun free => ?_⟩
    split <;> trivial
  case ok.finished =>
    dsimp only
    rw [abides_bind]
    refine (complete_tells trivial (fun _ => trivial) p e').mono fun y hy => ?_
    cases y with
    | error err => trivial
    | ok r => exact ExecutionResult.governed_of_tell hy.1 hy.2

theorem settle_governed (settings : StepSettings) (job : JobHandle) (p : Playbook)
    (e : Execution) :
    (settle settings job p e).Abides Governing
      (JobStatus.Within ExecutionResult.Governed) := by
  rw [settle, abides_bind]
  refine (drive_governed settings p e).mono fun x hx => ?_
  rcases x with f | r | next
  case error => exact ⟨trivial, fun _ => trivial⟩
  case ok.completed => exact ⟨hx, fun _ => hx⟩
  case ok.dispatched => exact ⟨trivial, fun _ => trivial⟩

theorem settleFailed_governed (settings : StepSettings) (s : Suspended) (attempts : Nat)
    (cause : ToolError) :
    (settleFailed settings s attempts cause).Abides Governing
      (JobStatus.Within ExecutionResult.Governed) := by
  refine ⟨trivial, fun now => ?_⟩
  dsimp only
  split
  · exact settle_governed settings _ _ _
  · exact ⟨trivial, fun _ => trivial⟩

theorem resume_governed (settings : StepSettings) (s : Suspended) :
    (resume settings s).Abides Governing (JobStatus.Within ExecutionResult.Governed) := by
  refine abides_request_bind.mpr ⟨trivial, fun x => ?_⟩
  rcases x with err | _ | output | reason
  case ok.running => exact ⟨trivial, fun _ => trivial⟩
  case ok.completed => exact ⟨trivial, fun now => settle_governed settings _ _ _⟩
  case ok.failed => exact settleFailed_governed settings s _ _
  case error =>
    dsimp only
    split
    · exact ⟨trivial, fun _ => trivial⟩
    · exact settleFailed_governed settings s _ _

theorem execute_governed (g : Engine) {raw : Fields Json}
    (hmode : requestedMode raw ≠ .ok .batch) (code locale : String) :
    (g.execute code locale raw).Abides Governing (Plan.Within ExecutionResult.Governed) := by
  refine ⟨trivial, fun traceId => ?_⟩
  dsimp only
  cases g.registry.resolve code locale with
  | error err => trivial
  | ok p =>
    dsimp only
    rcases hread : requestedMode raw with err | mode
    case error => trivial
    cases mode with
    | batch => exact absurd hread hmode
    | single =>
      dsimp only
      cases bind p.inputSchema raw with
      | error err => trivial
      | ok inputs =>
        refine ⟨trivial, fun id => ⟨trivial, fun now => ?_⟩⟩
        change (drive g.steps p (Execution.begin id traceId p inputs now) >>= _).Abides _ _
        rw [abides_bind]
        refine (drive_governed g.steps p _).mono fun r hr => ?_
        cases r with
        | error f => trivial
        | ok i => exact hr

/-- The calls of an engine record and tell governed results only. -/
def governance (g : Engine) : Discipline .bare g where
  parked _ _ := True
  completed := ExecutionResult.Governed
  executing rest := rest.Abides Governing (Plan.Within ExecutionResult.Governed)
  querying _ rest := rest.Abides Governing (JobStatus.Within ExecutionResult.Governed)
  execute code locale _ hmode := execute_governed g hmode code locale
  resume _ s _ := resume_governed g.steps s
  executing_ask _ _ h := h
  querying_ask _ _ _ h := h
  executing_done _ h := h
  querying_done _ _ h := h

theorem batchResult_tells (p : Playbook) (e : Execution) (items : List ItemResult)
    (now : Timestamp) :
    (batchResult p e items now).flags.Tell (BoundInputs.contentStatus e.inputs) := by
  have hinputs := ((Execution.Continues.refl e).advance
    (if (BatchSummary.ofItems items).failed = 0 then .success else .partialFailure) now).inputs
  rw [← hinputs]
  exact GovernanceFlags.tell_derive _ _ _

/-- Every artifact of the item has the status that these inputs are bound to. -/
def Marked (p : Playbook) (raw : Fields Json) (item : ItemResult) : Prop :=
  ∀ a ∈ item.artifacts, ∃ inputs, bind p.inputSchema raw = .ok inputs ∧
    a.contentStatus = BoundInputs.contentStatus inputs

theorem runItem_marked (settings : StepSettings) (p : Playbook) (traceId : String) (index : Nat)
    (raw : Fields Json) :
    (runItem settings p traceId index raw).Abides (fun _ => True) (Marked p raw) := by
  have nothing : ∀ item : ItemResult, item.artifacts = [] → Marked p raw item := by
    intro item hnil a ha
    rw [hnil] at ha
    cases ha
  unfold runItem
  cases hbind : bind p.inputSchema raw with
  | error err => exact nothing _ rfl
  | ok inputs =>
    refine ⟨trivial, fun id => ⟨trivial, fun now => ?_⟩⟩
    have steps := runSteps_continues (p := p) (P := fun _ => True) trivial (fun _ => trivial) settings
      p.steps (.refl (Execution.begin id traceId p inputs now))
    change (runSteps settings p p.steps (Execution.begin id traceId p inputs now) >>= _).Abides _ _
    refine abides_bind.mpr (steps.mono fun x hx => ?_)
    cases x with
    | error err => exact nothing _ rfl
    | ok progress =>
      have hinputs : progress.execution.inputs = inputs :=
        Execution.Continues.inputs hx
      change (endItem p index id progress.execution).Abides _ _
      unfold endItem
      split
      · exact nothing _ rfl
      · rw [abides_bind]
        refine (complete_tells trivial (fun _ => trivial) p progress.execution).mono fun y hy => ?_
        cases y with
        | error err => exact nothing _ rfl
        | ok r => exact fun a ha => ⟨inputs, hbind, hinputs ▸ hy.2 a ha⟩

end Engine

namespace Batch

theorem itemInputs_ordered {shared inputs : Fields Json} {v : Json}
    (hshared : Fields.Ordered shared) (h : itemInputs? shared v = some inputs) :
    Fields.Ordered inputs := by
  unfold itemInputs? at h
  split at h
  · cases h
    exact (Fields.ordered_foldl (fun m q hm => hm.insert _ _) hshared).insert _ _
  · cases h
    exact (hshared.insert _ _).insert _ _
  · cases h

theorem expandItems_ordered {raw : Fields Json} {items : List (Fields Json)}
    (hraw : Fields.Ordered raw) (h : expandItems raw = .ok items) :
    ∀ inputs ∈ items, Fields.Ordered inputs :=
  expandItems_forall (fun _ _ => itemInputs_ordered ((hraw.filter _).insert _ _)) h

end Batch

/-- Where the flags of a batch come from, and where its artifacts do: the flags from the inputs that
its items share, each artifact from the inputs of its own item. -/
structure ExecutionResult.OfBatch (p : Playbook) (inputs : List (Fields Json))
    (shared : BoundInputs) (r : ExecutionResult) : Prop where
  flags : r.flags.Tell (BoundInputs.contentStatus shared)
  artifacts : r.artifacts = r.items.flatMap (·.artifacts)
  length : r.items.length = inputs.length
  marked : ∀ (i : Nat) (item : ItemResult) (own : Fields Json), r.items[i]? = some item →
    inputs[i]? = some own → Engine.Marked p own item

namespace ExecutionResult

open Binding

variable {p : Playbook} {inputs : List (Fields Json)} {raw : Fields Json} {shared : BoundInputs}
variable {r : ExecutionResult}

theorem OfBatch.governed_iff (h : r.OfBatch p inputs shared) :
    r.Governed ↔ ∀ s, r.artifacts ≠ [] → (∀ a ∈ r.artifacts, a.contentStatus = s) →
      s.Alike (BoundInputs.contentStatus shared) :=
  forall_congr' fun _ => imp_congr_right fun _ => imp_congr_right fun _ => h.flags.iff_alike

theorem OfBatch.governed_of_same (h : r.OfBatch p inputs shared) (hraw : Fields.Ordered raw)
    (hexpanded : Batch.expandItems raw = .ok inputs) (hshared : bind [] raw = .ok shared)
    (hschema : Fields.Ordered p.inputSchema)
    (hsame : ∀ own ∈ inputs,
      counted? p.inputSchema own "content_status" = supplied? "content_status" raw) :
    r.Governed := by
  refine governed_of_tell h.flags fun a ha => ?_
  rw [h.artifacts] at ha
  obtain ⟨item, hitem, ha⟩ := List.mem_flatMap.mp ha
  obtain ⟨i, hi⟩ := List.mem_iff_getElem?.mp hitem
  have hlt := (List.getElem?_eq_some_iff.mp hi).1
  rw [h.length] at hlt
  have hown : inputs[i]? = some inputs[i] := List.getElem?_eq_getElem hlt
  obtain ⟨bound, hbound, hstatus⟩ := h.marked i item _ hi hown a ha
  have hordered := Batch.expandItems_ordered hraw hexpanded _ (List.getElem_mem hlt)
  rw [hstatus]
  exact pattern_eq_of_counted? worded_contentStatus ruled_contentStatus hschema hordered hbound
    Fields.ordered_nil hraw hshared (hsame _ (List.getElem_mem hlt))

end ExecutionResult

namespace World

open Engine

variable {T S : Type} [ToolServer T] [IdSource S] {g : Engine} {w : World T S} {now : Instant}
variable {code locale : String} {raw : Fields Json} {r : ExecutionResult}

theorem ofBatch_of_completed (batch : requestedMode raw = .ok .batch)
    (completed : (w.execute g now code locale raw).1 = .ok (.ok (.completed r))) :
    ∃ p inputs shared, g.registry.resolve code locale = .ok p ∧
      Batch.expandItems raw = .ok inputs ∧ bind [] raw = .ok shared ∧
      r.OfBatch p inputs shared := by
  obtain ⟨p, inputs, shared, resolved, sync, expanded, bound⟩ :=
    planned_of_completed batch completed
  rw [execute_batch resolved sync batch expanded bound] at completed
  dsimp only at completed
  generalize (IdSource.fresh w.ids).1 = traceId at completed
  split at completed
  · cases completed
  rename_i results later w' hprocess
  cases completed
  have items_marked (i : Nat) (a : Activity Working ItemResult)
      (ha : (inputs.mapIdx (runItem g.steps p traceId))[i]? = some a) :
      a.Abides (fun _ => True) fun item => ∀ own, inputs[i]? = some own → Marked p own item := by
    rw [List.getElem?_mapIdx, Option.map_eq_some_iff] at ha
    obtain ⟨own, hown, rfl⟩ := ha
    refine (runItem_marked g.steps p traceId i own).mono fun item hitem own' hown' => ?_
    exact Option.some_inj.mp (hown.symm.trans hown') ▸ hitem
  have length := (Batch.length_process hprocess).trans List.length_mapIdx
  refine ⟨p, inputs, shared, resolved, expanded, bound, batchResult_tells _ _ _ _, rfl, length,
    fun i item own hitem hown => ?_⟩
  obtain ⟨x, rfl, comes⟩ := Batch.process_abides items_marked hprocess i item hitem
  cases x with
  | error why => exact fun a ha => absurd ha List.not_mem_nil
  | ok item =>
    rcases comes with hmarked | ⟨span, rfl⟩
    · exact hmarked own hown
    · exact fun a ha => absurd ha List.not_mem_nil

end World

/-- In every session the flags of a result are those of its artifacts, whether it is told at once,
told to a query or kept for one. The flags of a batch are those of the status that its items share:
they are wrong exactly when all artifacts have a status that comes from the items or the schema and
is not like it, and right when neither says anything else. -/
theorem flags_govern_artifacts {T S : Type} [ToolServer T] [IdSource S] (g : Engine)
    (w : World T S) (now : Instant) :
    (∀ {C : Type} [DecidableEq C] {ttl : Span} {evs : List (Event C)} {σ : Session Working T S C},
      w.jobs = .empty ttl → (Session.init w now).run? .bare g evs = some σ → ∀ r,
      ((∃ c, (σ.clients c).result? = some r) ∨
        ∃ id since, σ.world.jobs.find? id = some (.finished (.completed r) since)) → r.Governed) ∧
    ∀ {code locale : String} {raw : Fields Json} {r : ExecutionResult},
      Engine.requestedMode raw = .ok .batch →
      (w.execute g now code locale raw).1 = .ok (.ok (.completed r)) →
      ∃ p inputs shared, g.registry.resolve code locale = .ok p ∧
        Batch.expandItems raw = .ok inputs ∧ bind [] raw = .ok shared ∧
        r.OfBatch p inputs shared ∧
        (r.Governed ↔ ∀ s, r.artifacts ≠ [] → (∀ a ∈ r.artifacts, a.contentStatus = s) →
          s.Alike (BoundInputs.contentStatus shared)) ∧
        (Fields.Ordered raw → Fields.Ordered p.inputSchema →
          (∀ own ∈ inputs, Binding.counted? p.inputSchema own "content_status" =
            Binding.supplied? "content_status" raw) → r.Governed) := by
  constructor
  · intro C _ ttl evs σ hjobs hrun r hr
    exact ((Discipline.holds_init (K := g.governance) hjobs now).run hrun).result hr
  · intro code locale raw r batch completed
    obtain ⟨p, inputs, shared, resolved, expanded, bound, hbatch⟩ :=
      World.ofBatch_of_completed batch completed
    refine ⟨p, inputs, shared, resolved, expanded, bound, hbatch, hbatch.governed_iff, ?_⟩
    exact fun hraw hschema hsame => hbatch.governed_of_same hraw expanded bound hschema hsame

namespace World

open Engine

structure Press where

instance : ToolServer Press where
  call t _ _ _ := (⟨0, .ok (.completed (.obj [("body", .str "text")]))⟩, t)
  poll t _ _ job := (⟨0, .error (.unknownJob job)⟩, t)

/-- A playbook that publishes a text unless it is told otherwise. -/
def bulletin : Playbook :=
  { oneStep ⟨"text", "write"⟩ with
    steps := [⟨"make", "", ⟨"text", "write"⟩, none, false, [], some ⟨"news", "body", "md"⟩⟩]
    inputSchema :=
      [("content_status", ⟨.enumeration, false, some (.str "published"), ["draft", "published"], none⟩)] }

def bulletinEngine : Engine := ⟨.ofPlaybooks "en" [bulletin], .default, .default⟩

def pressWorld (drawn : Nat) : World Press Identifier.Supply where
  tools := ⟨⟩
  store := .memory .empty
  jobs := .empty JobTable.defaultTtl
  ids := ⟨drawn⟩

def bulletinEvents : List (Event Unit) :=
  .execute () "clip" "en" [] :: List.replicate 11 (.proceed ())

/-- A batch of one bulletin that is told to be published. -/
def bulletinBatch : Fields Json :=
  [("content_status", .str "published"), ("items", .arr [.obj []]), ("run_mode", .str "batch")]

/-- The client is told of a published bulletin, and so is whoever has a batch of them published. -/
theorem bulletins_governed :
    (∃ r, (∃ σ : Session Working Press Identifier.Supply Unit,
        (Session.init (pressWorld 0) 0).run? .bare bulletinEngine bulletinEvents = some σ ∧
          (σ.clients ()).result? = some r) ∧ r.artifacts ≠ [] ∧ r.Governed) ∧
    ∃ r, ((pressWorld 0).execute bulletinEngine 0 "clip" "en" bulletinBatch).1 =
      .ok (.ok (.completed r)) ∧ r.Governed := by
  obtain ⟨singles, batches⟩ := flags_govern_artifacts bulletinEngine (pressWorld 0) 0
  constructor
  · let first : Session Working Press Identifier.Supply Unit := Session.init (pressWorld 0) 0
    have happens : (first.run? .bare bulletinEngine bulletinEvents).any (fun σ =>
        (σ.clients ()).result?.any fun r => !r.artifacts.isEmpty) = true := by
      decide +kernel
    obtain ⟨σ, hσ, told⟩ := (Option.any_eq_true _ _).mp happens
    obtain ⟨r, hr, stored⟩ := (Option.any_eq_true _ _).mp told
    exact ⟨r, ⟨σ, hσ, hr⟩, by simpa using stored, singles rfl hσ r (.inl ⟨(), hr⟩)⟩
  · have expanded : Batch.expandItems bulletinBatch =
        .ok [[("content_status", .str "published"), ("run_mode", .str "single")]] := rfl
    have resolved : bulletinEngine.registry.resolve "clip" "en" = .ok bulletin := rfl
    obtain ⟨⟨results, last⟩, processed⟩ := Batch.process_ok_iff.mpr (.inr Batch.fits_default)
    obtain ⟨r, completed, -⟩ :=
      completed_of_process (w := pressWorld 0) resolved rfl rfl expanded rfl rfl processed
    obtain ⟨p, inputs, shared, hp, hinputs, -, -, -, governed⟩ := batches rfl completed
    obtain rfl := Except.ok.inj (resolved.symm.trans hp)
    obtain rfl := Except.ok.inj (expanded.symm.trans hinputs)
    refine ⟨_, completed, governed (by decide +kernel) (by decide +kernel) fun own hown => ?_⟩
    obtain rfl := List.mem_singleton.mp hown
    rfl

/-- The only bulletin of a batch is published, as its playbook has it, and the flags of the batch
are those of a draft. -/
theorem default_bulletin_misreported :
    ∃ r, ((pressWorld 0).execute bulletinEngine 0 "clip" "en" (clipBatch [.obj []])).1 =
        .ok (.ok (.completed r)) ∧
      r.artifacts ≠ [] ∧ (∀ a ∈ r.artifacts, a.contentStatus = .published) ∧
      r.flags.shouldEmbed = false ∧ r.flags.isFinal = false := by
  have ended : ((runItem .default bulletin (Identifier.text 0) 0
      (Batch.singleMode [])).advance surroundings 0 (pressWorld 2)).1.ended?.map
        (fun item => item.artifacts.map (·.contentStatus)) = some [.published] := by
    decide +kernel
  obtain ⟨item, hitem, hstatuses⟩ := Option.map_eq_some_iff.mp ended
  have own : 0 + BatchSettings.default.itemTimeout < Instant.clockEnd := by decide
  have processed := Batch.process_singleton_of_ended (IdSource.task (Identifier.Supply.mk 2))
    (Prod.ext (Pause.ended?_eq_some.mp hitem) rfl) Batch.fits_default own
  have expanded : Batch.expandItems (clipBatch [.obj []]) = .ok [Batch.singleMode []] := rfl
  have resolved : bulletinEngine.registry.resolve "clip" "en" = .ok bulletin := rfl
  obtain ⟨r, completed, hitems⟩ :=
    completed_of_process (w := pressWorld 0) resolved rfl rfl expanded rfl rfl processed
  obtain ⟨_, _, shared, -, -, bound, batch⟩ := ofBatch_of_completed rfl completed
  have hdraft : BoundInputs.contentStatus shared = .draft := by
    cases bound
    rfl
  have hflags : r.flags.Tell .draft := hdraft ▸ batch.flags
  have hpublished : r.artifacts.map (·.contentStatus) = [.published] := by
    rw [batch.artifacts, hitems, List.flatMap_singleton]
    exact hstatuses
  refine ⟨r, completed, fun hnil => ?_, fun a ha => ?_, ?_, ?_⟩
  · rw [hnil] at hpublished
    cases hpublished
  · have hmem : a.contentStatus ∈ r.artifacts.map (·.contentStatus) := List.mem_map_of_mem ha
    rw [hpublished] at hmem
    exact List.mem_singleton.mp hmem
  · exact Bool.eq_false_iff.mpr fun h => ContentStatus.noConfusion (hflags.shouldEmbed.mp h)
  · refine Bool.eq_false_iff.mpr fun h => ?_
    rcases hflags.isFinal.mp h with hs | hs <;> cases hs

end World

end PlaybookEngine
