import PlaybookEngine.Proofs.Artifact.Persistence
import PlaybookEngine.Proofs.Engine.Segments

namespace PlaybookEngine

/-- The artifacts that the answer to an invocation lists. -/
def Invocation.listed : Except Panic (Except Failure Invocation) → List Artifact
  | .ok (.ok (.completed r)) => r.artifacts
  | _ => []

/-- The artifacts that the answer to a query lists. -/
def JobStatus.listed : Except Failure JobStatus → List Artifact
  | .ok (.completed r) => r.artifacts
  | _ => []

/-- The store is what it was, with the listed artifacts and nothing else. -/
def MemoryStore.AllOrNothing (m : MemoryStore) (listed : List Artifact) (st : ArtifactStore) :
    Prop := ∃ m', st = .memory m' ∧ Gained m listed m'

namespace Engine

/-- The drafts that are to be stored when the steps of an execution have run. -/
def finalDrafts (p : Playbook) (e : Execution) : List ArtifactDraft :=
  match finalize p e (aggregate p.outputSchema e.successfulOutputs) with
  | .ok final => final.artifacts
  | .error _ => []

variable {m : MemoryStore}

theorem all_or_nothing_self (m : MemoryStore) : m.AllOrNothing [] (.memory m) :=
  ⟨m, rfl, .nil m⟩

theorem not_torn_nil (taken : String → Prop) : ¬ ArtifactDraft.Torn taken [] := id

theorem completion_all_or_nothing (p : Playbook) (e : Execution) (now : Timestamp) :
    m.AllOrNothing (Invocation.listed (.ok (((completion p e now (.memory m)).1.map
        Invocation.completed).mapError e.failure))) (completion p e now (.memory m)).2 ↔
      ¬ ArtifactDraft.Torn m.Taken (finalDrafts p e) := by
  unfold completion finalDrafts
  cases finalize p e (aggregate p.outputSchema e.successfulOutputs) with
  | error faults => exact iff_of_true (all_or_nothing_self m) (not_torn_nil _)
  | ok final =>
    obtain ⟨kept, m', -, hgained, hout⟩ := m.persistAll_memory now final.artifacts
    dsimp only
    rcases hout with ⟨hall, rfl, hout⟩ | ⟨-, htorn, err, hout⟩
    · rw [hout]
      refine iff_of_true ⟨m', rfl, hgained⟩ ?_
      intro h
      cases hds : final.artifacts with
      | nil => rw [hds] at h; exact h
      | cons d rest =>
        rw [hds] at h hall
        exact h.2 hall.2
    · rw [hout, ← htorn]
      constructor
      · intro hh
        obtain ⟨_, hm, hnone⟩ := hh
        cases hm
        rw [hnone.eq_of_nil] at hgained
        exact List.map_eq_nil_iff.mp hgained.eq_nil
      · intro hh
        subst hh
        exact ⟨m', rfl, hgained⟩

variable {T S : Type} [ToolServer T] [IdSource S]

/-- The drafts that are to be stored when the steps of the segment come to an end. -/
def Segment.drafts (g : Engine) (x : Segment T S) : List ArtifactDraft :=
  match (runSteps g.steps x.playbook (x.playbook.steps.drop x.execution.nextStep) x.execution).run
    World.surroundings x.now x.world with
  | (.ok (.finished e), _, _) => finalDrafts x.playbook e
  | _ => []

theorem Segment.all_or_nothing (g : Engine) (x : Segment T S) (hstore : x.world.store = .memory m) :
    m.AllOrNothing (Invocation.listed (.ok (x.run g).1)) (x.run g).2.2.store ↔
      ¬ ArtifactDraft.Torn m.Taken (x.drafts g) := by
  rw [Segment.run, Segment.drafts, run_drive]
  have frame := (runSteps_frame g.steps x.playbook x.execution x.now x.world
    (x.playbook.steps.drop x.execution.nextStep)).1
  revert frame
  rcases (runSteps g.steps x.playbook (x.playbook.steps.drop x.execution.nextStep)
    x.execution).run World.surroundings x.now x.world with ⟨r, now, w⟩
  intro frame
  replace frame : w.store = .memory m := frame.trans hstore
  cases r with
  | error err =>
    dsimp only [ending]
    rw [frame]
    exact iff_of_true (all_or_nothing_self m) (not_torn_nil _)
  | ok progress =>
    cases progress with
    | dispatched job e =>
      dsimp only [ending]
      rw [frame]
      refine iff_of_true ?_ (not_torn_nil _)
      split
      · exact all_or_nothing_self m
      · exact all_or_nothing_self m
    | finished e =>
      dsimp only [ending]
      rw [frame]
      exact completion_all_or_nothing x.playbook e (.ofNanos now)

/-- An execution that is parked has stored nothing. -/
theorem Segment.store_of_dispatched {g : Engine} {x : Segment T S} {job : JobHandle}
    (h : (x.run g).1 = .ok (.dispatched job)) : (x.run g).2.2.store = x.world.store := by
  rw [Segment.run, run_drive] at h ⊢
  have frame := (runSteps_frame g.steps x.playbook x.execution x.now x.world
    (x.playbook.steps.drop x.execution.nextStep)).1
  revert frame h
  rcases (runSteps g.steps x.playbook (x.playbook.steps.drop x.execution.nextStep)
    x.execution).run World.surroundings x.now x.world with ⟨r, now, w⟩
  intro h frame
  cases r with
  | error err => exact frame
  | ok progress =>
    cases progress with
    | dispatched job e => exact frame
    | finished e =>
      dsimp only [ending] at h
      cases hc : (completion x.playbook e (.ofNanos now) w.store).1 with
      | error err => simp [hc, Except.map, Except.mapError] at h
      | ok r => simp [hc, Except.map, Except.mapError] at h

/-- A settled job has the answer and the store of its segment. -/
theorem Segment.settle_eq (g : Engine) (x : Segment T S) (job : JobHandle) :
    JobStatus.listed (.ok (x.settle g job).1) = Invocation.listed (.ok (x.run g).1) ∧
      (x.settle g job).2.2.store = (x.run g).2.2.store := by
  rw [settle_eq_match]
  rcases x.run g with ⟨r, now, w⟩
  cases r with
  | error f => exact ⟨rfl, rfl⟩
  | ok answer =>
    cases answer with
    | completed r => exact ⟨rfl, rfl⟩
    | dispatched next => exact ⟨rfl, rfl⟩

theorem Segment.settle_store_of_pending {g : Engine} {x : Segment T S} {job next : JobHandle}
    (h : (x.settle g job).1 = .pending next) :
    (x.settle g job).2.2.store = x.world.store := by
  have dispatched : (x.run g).1 = .ok (.dispatched next) := by
    rw [settle_eq_match] at h
    revert h
    rcases x.run g with ⟨r, now, w⟩
    intro h
    cases r with
    | error f => cases h
    | ok answer =>
      cases answer with
      | completed r => cases h
      | dispatched next' =>
        cases h
        rfl
  rw [(x.settle_eq g job).2, store_of_dispatched dispatched]

end Engine

namespace World

open Engine

variable {T S : Type} [ToolServer T] [IdSource S] {m : MemoryStore}

/-- A query is answered from the table, ends without going on, or settles its segment. -/
theorem query_cases (w : World T S) (g : Engine) (now : Instant) (id : String) :
    (∃ r w', w.beginQuery g now id = (.answered r, w') ∧ w'.store = w.store) ∨
    (∃ status now' w', w.query g now id = (.ok status, now', w') ∧ w.resumed? now id = none ∧
      w'.store = w.store ∧ JobStatus.listed (.ok status) = []) ∨
    ∃ (x : Segment T S) (job : JobHandle) (id' : String), w.resumed? now id = some x ∧
      x.world.store = w.store ∧
      w.query g now id =
        (.ok (x.settle g job).1, (x.settle g job).2.1, (x.settle g job).2.2.dropClaim id') := by
  by_cases howned : ∃ s, (w.jobs.claimCurrent now id).2.1 = .owned s
  · obtain ⟨s, hs⟩ := howned
    rcases hclaim : w.jobs.claimCurrent now id with ⟨id', c, t⟩
    rw [hclaim] at hs
    obtain rfl : c = .owned s := hs
    rcases hpoll : (Tooling.poll s.handle.tool s.handle.toolJobId).run
      ToolServer.surroundings now w.tools with ⟨r, now₁, tools⟩
    right
    rw [query_of_owned hclaim, resumed?, hclaim]
    dsimp only
    rw [hpoll]
    dsimp only
    cases s.resumption (.ofNanos now₁) r with
    | waits => exact .inl ⟨_, _, _, rfl, rfl, rfl, rfl⟩
    | fails f => exact .inl ⟨_, _, _, rfl, rfl, rfl, rfl⟩
    | continues e =>
      exact .inr ⟨⟨s.playbook, e, now₁, { w with tools := tools, jobs := t }⟩, s.handle, id', rfl,
        rfl, rfl⟩
  · obtain ⟨r, hr⟩ := beginQuery_of_not_owned (g := g) fun s hs => howned ⟨s, hs⟩
    exact .inl ⟨r, _, hr, rfl⟩

theorem query_all_or_nothing {w w' : World T S} {g : Engine} {now : Instant} {id job : String}
    {rest : Activity Working JobStatus} (hstore : w.store = .memory m)
    (hbegin : w.beginQuery g now id = (.resuming job rest, w')) :
    m.AllOrNothing (JobStatus.listed (w.query g now id).1) (w.query g now id).2.2.store ↔
      ¬ ArtifactDraft.Torn m.Taken ((w.resumed? now id).elim [] (·.drafts g)) := by
  rcases w.query_cases g now id with
    ⟨r, _, hr, -⟩ | ⟨status, _, w', hq, hx, hw, hlisted⟩ | ⟨x, job, id', hx, hw, hq⟩
  · rw [hr] at hbegin
    cases hbegin
  · rw [hq, hx, hlisted]
    dsimp only
    rw [hw, hstore]
    exact iff_of_true (all_or_nothing_self m) (not_torn_nil _)
  · have segment := x.all_or_nothing g (hw.trans hstore)
    rw [← (x.settle_eq g job).1, ← (x.settle_eq g job).2] at segment
    rw [hq, hx]
    exact segment

/-- A query that ends no execution stores nothing. -/
theorem query_store_of_pending {w : World T S} {g : Engine} {now : Instant} {id : String}
    {job : JobHandle} (h : (w.query g now id).1 = .ok (.pending job)) :
    (w.query g now id).2.2.store = w.store := by
  rcases w.query_cases g now id with
    ⟨r, _, hr, hw⟩ | ⟨status, _, w', hq, -, hw, -⟩ | ⟨x, job', id', -, hw, hq⟩
  · rw [query_of_answered hr]
    exact hw
  · rw [hq]
    exact hw
  · rw [hq] at h ⊢
    have pending := Except.ok.inj h
    rw [← hw]
    exact x.settle_store_of_pending pending

/-- Queries one after the other. -/
def queryAll (g : Engine) : World T S → List (Instant × String) →
    List (Except Failure JobStatus) × World T S
  | w, [] => ([], w)
  | w, (now, id) :: rest =>
    let (r, _, w) := w.query g now id
    let (rs, w) := w.queryAll g rest
    (r :: rs, w)

theorem queryAll_store_of_pending {g : Engine} {w : World T S} {qs : List (Instant × String)}
    (h : ∀ r ∈ (w.queryAll g qs).1, ∃ job, r = .ok (.pending job)) :
    (w.queryAll g qs).2.store = w.store := by
  induction qs generalizing w with
  | nil => rfl
  | cons q rest ih =>
    obtain ⟨now, id⟩ := q
    rw [queryAll] at h ⊢
    obtain ⟨job, hjob⟩ := h _ List.mem_cons_self
    rw [ih fun r hr => h r (List.mem_cons_of_mem _ hr)]
    exact query_store_of_pending hjob

theorem execute_store_of_dispatched {w : World T S} {g : Engine} {now : Instant}
    {code locale : String} {raw : Fields Json} {job : JobHandle}
    (hmode : requestedMode raw ≠ .ok .batch)
    (h : (w.execute g now code locale raw).1 = .ok (.ok (.dispatched job))) :
    (w.execute g now code locale raw).2.2.store = w.store := by
  rw [execute_single hmode] at h ⊢
  revert h
  cases g.accept code locale raw with
  | error err => exact nofun
  | ok x =>
    intro h
    exact Segment.store_of_dispatched (Except.ok.inj h)

theorem execute_all_or_nothing {w : World T S} {g : Engine} {now : Instant}
    {code locale : String} {raw : Fields Json} (hmode : requestedMode raw ≠ .ok .batch)
    (hstore : w.store = .memory m) :
    m.AllOrNothing (Invocation.listed (w.execute g now code locale raw).1)
        (w.execute g now code locale raw).2.2.store ↔
      ¬ ArtifactDraft.Torn m.Taken ((w.begun? g now code locale raw).elim [] (·.drafts g)) := by
  rw [execute_single hmode, begun?]
  cases g.accept code locale raw with
  | error err => exact iff_of_true ⟨m, hstore, .nil m⟩ (not_torn_nil _)
  | ok x => exact (w.begin now x.1 x.2).all_or_nothing g hstore

/-- Whether an execution ends at once or, after any queries that leave it pending, in a query: the
store in memory gains what the answer lists and nothing else, unless the drafts are torn. -/
theorem single_execution_all_or_nothing {w : World T S} {g : Engine} {now : Instant}
    {code locale : String} {raw : Fields Json} (hmode : requestedMode raw ≠ .ok .batch)
    (hstore : w.store = .memory m) :
    (m.AllOrNothing (Invocation.listed (w.execute g now code locale raw).1)
        (w.execute g now code locale raw).2.2.store ↔
      ¬ ArtifactDraft.Torn m.Taken ((w.begun? g now code locale raw).elim [] (·.drafts g))) ∧
    ∀ job, (w.execute g now code locale raw).1 = .ok (.ok (.dispatched job)) → ∀ qs v,
      (∃ rs, (w.execute g now code locale raw).2.2.queryAll g qs = (rs, v) ∧
        ∀ r ∈ rs, ∃ job, r = .ok (.pending job)) →
      ∀ now' id claim rest v', v.beginQuery g now' id = (.resuming claim rest, v') →
        (m.AllOrNothing (JobStatus.listed (v.query g now' id).1) (v.query g now' id).2.2.store ↔
          ¬ ArtifactDraft.Torn m.Taken ((v.resumed? now' id).elim [] (·.drafts g))) := by
  refine ⟨execute_all_or_nothing hmode hstore, ?_⟩
  rintro job hjob qs v ⟨rs, hqs, hrs⟩ now' id claim rest v' hbegin
  have parked := execute_store_of_dispatched hmode hjob
  have waiting : v.store = (w.execute g now code locale raw).2.2.store := by
    have pending : ((w.execute g now code locale raw).2.2.queryAll g qs).2.store =
        (w.execute g now code locale raw).2.2.store :=
      queryAll_store_of_pending (by rw [hqs]; exact hrs)
    rwa [hqs] at pending
  exact query_all_or_nothing (waiting.trans (parked.trans hstore)) hbegin

/-- A playbook with two artifacts of one name. -/
def twoReports : Playbook where
  code := "reports"
  version := "1.0.0"
  name := "Reports"
  description := ""
  kind := .userWorkflow
  capabilityCode := none
  locale := "en"
  supportedLocales := ["en"]
  defaultLocale := "en"
  requiredTools := [⟨"writer", "write"⟩]
  optionalTools := []
  steps := ["first", "second"].map fun id =>
    ⟨id, "", ⟨"writer", "write"⟩, none, false, [], some ⟨"report", "body", "md"⟩⟩
  inputSchema := []
  outputSchema := []
  primaryScore := "score"
  tags := []
  sections := []

def reportEngine : Engine := ⟨.ofPlaybooks "en" [twoReports], .default, .default⟩

def reportWorld : World where
  tools := ToolSet.empty.register ⟨"writer", "write"⟩
    ⟨"writer.write", .static (.obj [("body", .str "text")]), 0, 0⟩
  store := .memory .empty
  jobs := .empty JobTable.defaultTtl
  ids := ⟨0⟩

theorem reports_all_or_nothing_iff :
    MemoryStore.empty.AllOrNothing
        (Invocation.listed (reportWorld.execute reportEngine 0 "reports" "en" []).1)
        (reportWorld.execute reportEngine 0 "reports" "en" []).2.2.store ↔
      ¬ ArtifactDraft.Torn MemoryStore.empty.Taken
        ((reportWorld.begun? reportEngine 0 "reports" "en" []).elim [] (·.drafts reportEngine)) :=
  (single_execution_all_or_nothing (by simp [requestedMode]) rfl).1

/-- The second report is refused, and the first one stays. -/
theorem failed_execution_keeps_report :
    (reportWorld.execute reportEngine 0 "reports" "en" []).1.toOption.map (·.isOk) = some false ∧
      (reportWorld.execute reportEngine 0 "reports" "en" []).2.2.store.keys =
        ["reports/generated/draft/00000000-0000-4000-8000-000000000001-report-v1.md",
          "reports/metadata/00000000-0000-4000-8000-000000000001-report-v1.json"] := by
  decide +kernel

end World

end PlaybookEngine
