import PlaybookEngine.Proofs.Artifact.Interruption
import PlaybookEngine.Proofs.Engine.Answers
import PlaybookEngine.Proofs.Engine.Rounds
import PlaybookEngine.Proofs.Engine.Storage
import PlaybookEngine.Proofs.Engine.Turns

namespace PlaybookEngine

open Activity

namespace World

variable {T S α : Type} [ToolServer T] [IdSource S] {w w' : World T S}

theorem comesTo_tooling {p : Activity Tooling α} {q : Activity Working α}
    (h : ComesTo surroundings (Working.tooling p) w q w') :
    ∃ p' t, q = Working.tooling p' ∧ ComesTo ToolServer.surroundings p w.tools p' t ∧
      w' = { w with tools := t } :=
  ComesTo.of_through (fun t => { w with tools := t }) (fun _ _ _ => rfl) (fun _ _ _ => rfl) h

theorem comesTo_storage {p : Activity Storage α} {q : Activity Working α}
    (h : ComesTo surroundings (Working.storage p) w q w') :
    ∃ p' st, q = Working.storage p' ∧ ComesTo ArtifactStore.surroundings p w.store p' st ∧
      w' = { w with store := st } := by
  refine ComesTo.of_through (fun st => { w with store := st }) (fun now r st => ?_)
    (fun now r st => ?_) h
  · cases r <;> rfl
  · cases r <;> rfl

end World

namespace Engine

open Working World

variable {T S : Type} [ToolServer T] [IdSource S] {w w' : World T S} {settings : StepSettings}
  {s : Suspended} {r : EngineRequest} {next : r.Reply → Activity Working JobStatus}

theorem persistAll_eq_storage (ds : List ArtifactDraft) :
    persistAll ds = storage (Artifact.persistAll ds) := by
  induction ds with
  | nil => rfl
  | cons d rest ih =>
    rw [persistAll, Artifact.persistAll, storage_bind]
    refine congrArg (storage (Artifact.persist d) >>= ·) (funext fun x => ?_)
    cases x with
    | error err => rfl
    | ok a =>
      dsimp only
      rw [ih, storage_bind]
      rfl

/-- Nobody waits for a reply any more. -/
def Concludes (p : Activity Working JobStatus) : Prop :=
  p.Abides (fun r => pauses r = false) fun _ => True

theorem concludes_conclusion (s : Suspended) (e : Execution)
    (x : Except EngineError ExecutionResult) : Concludes (conclusion s e x) := by
  cases x with
  | error err => exact ⟨rfl, fun _ => trivial⟩
  | ok r => exact ⟨rfl, fun _ => trivial⟩

theorem concludes_act (s : Suspended) {x : Heard} (hx : ∀ e, x ≠ .finished e) :
    Concludes (act s x) := by
  cases x with
  | waits => exact ⟨rfl, fun _ => trivial⟩
  | fails f => exact ⟨rfl, fun _ => trivial⟩
  | finished e => exact absurd rfl (hx e)
  | dispatched step r e =>
    refine ⟨rfl, fun id => ⟨rfl, fun free => ?_⟩⟩
    cases free with
    | true => exact ⟨rfl, fun _ => trivial⟩
    | false => exact ⟨rfl, fun _ => trivial⟩

theorem not_waits_of_concludes {p : Activity Working JobStatus} (hp : Concludes p)
    (hr : pauses r = true) : ¬ ComesTo World.surroundings p w (.ask r next) w' := by
  intro h
  have quiet : pauses r = false := (h.abides hp).1
  rw [hr] at quiet
  cases quiet

/-- Whoever waits while an execution is completed is storing its drafts. -/
theorem comesTo_completion {e : Execution}
    (h : ComesTo World.surroundings (act s (.finished e)) w (.ask r next) w')
    (hr : pauses r = true) :
    ∃ r' next' st, ComesTo ArtifactStore.surroundings
        (Artifact.persistAll (finalDrafts s.playbook e)) w.store (.ask r' next') st ∧
      w' = { w with store := st } := by
  have last (p : Activity Working JobStatus) {v : World T S} (hp : Concludes p)
      (hv : ComesTo World.surroundings p v (.ask r next) w') :
      ∃ r' next' st, ComesTo ArtifactStore.surroundings
          (Artifact.persistAll (finalDrafts s.playbook e)) w.store (.ask r' next') st ∧
        w' = { w with store := st } :=
    absurd hv (not_waits_of_concludes hp hr)
  rw [act, complete] at h
  unfold finalDrafts at last ⊢
  cases hfinal : finalize s.playbook e (aggregate s.playbook.outputSchema e.successfulOutputs) with
  | error faults =>
    rw [hfinal] at h last
    change ComesTo _ (conclusion s e (.error (.schemaMismatch faults))) w _ w' at h
    exact last _ (concludes_conclusion s e _) h
  | ok final =>
    rw [hfinal] at h last
    dsimp only at h last ⊢
    rw [LawfulMonad.bind_assoc, persistAll_eq_storage] at h
    rcases h.of_bind with ⟨next', first⟩ | ⟨x, v, -, later⟩
    · obtain ⟨p', st, hp', hstore, rfl⟩ := comesTo_storage first
      cases p' with
      | done a => cases hp'
      | ask r' next'' => exact ⟨r', next'', st, hstore, rfl⟩
    · cases x with
      | error err =>
        change ComesTo _ (conclusion s e (.error (.storage err))) v _ w' at later
        exact last _ (concludes_conclusion s e _) later
      | ok as =>
        refine last _ ?_ later
        exact ⟨rfl, fun now => concludes_conclusion s e
          (.ok ((e.advance final.status now).result s.playbook final.output final.flags as []))⟩

/-- Whoever waits in a query is asking tools, and nothing else has changed yet; or the steps have
run and it is storing drafts. -/
theorem comesTo_resume
    (h : ComesTo World.surroundings (resume settings s) w (.ask r next) w')
    (hr : pauses r = true) :
    (∃ t, w' = { w with tools := t }) ∨
      ∃ e t r' next' st, ComesTo ToolServer.surroundings (hear settings s) w.tools
          (.done (.finished e)) t ∧
        ComesTo ArtifactStore.surroundings (Artifact.persistAll (finalDrafts s.playbook e))
          w.store (.ask r' next') st ∧
        w' = { w with tools := t, store := st } := by
  rw [resume_eq] at h
  rcases h.of_bind with ⟨next', first⟩ | ⟨x, v, first, later⟩
  · obtain ⟨p', t, -, -, rfl⟩ := comesTo_tooling first
    exact .inl ⟨t, rfl⟩
  · obtain ⟨p', t, hp', hheard, rfl⟩ := comesTo_tooling first
    cases p' with
    | ask r' next' => cases hp'
    | done y =>
      cases hp'
      by_cases hx : ∃ e, x = .finished e
      · obtain ⟨e, rfl⟩ := hx
        obtain ⟨r', next', st, hstore, rfl⟩ := comesTo_completion later hr
        exact .inr ⟨e, t, r', next', st, hheard, hstore, rfl⟩
      · have quiet : Concludes (act s x) := concludes_act s fun e he => hx ⟨e, he⟩
        exact absurd later (not_waits_of_concludes quiet hr)

theorem completion_refused {p : Playbook} {e : Execution} {d : ArtifactDraft}
    {rest : List ArtifactDraft} (hdrafts : finalDrafts p e = d :: rest) {st : ArtifactStore}
    {err : StorageError} (h : st.Refuses (.ofDraft d) err) (now : Timestamp) :
    (completion p e now st).1 = .error (.storage err) := by
  unfold finalDrafts at hdrafts
  unfold completion
  cases hfinal : finalize p e (aggregate p.outputSchema e.successfulOutputs) with
  | error faults =>
    rw [hfinal] at hdrafts
    cases hdrafts
  | ok final =>
    rw [hfinal] at hdrafts
    have refused : (ArtifactStore.run now (Artifact.persist d) st).1 = .error err := by
      unfold ArtifactStore.Refuses at h
      rw [Artifact.persist]
      rcases hanswer : st.answer (.writeArtifact (Artifact.Version.ofDraft d).key
        (Artifact.Version.ofDraft d).content (Artifact.Version.ofDraft d).status) with ⟨x, st₁⟩
      rw [hanswer] at h
      obtain rfl : x = .error err := h
      rw [ArtifactStore.run_store_of_content_refused hanswer]
    dsimp only at hdrafts ⊢
    rw [hdrafts, ArtifactStore.persistAll]
    revert refused
    rcases ArtifactStore.run now (Artifact.persist d) st with ⟨x, st₁⟩
    rintro rfl
    rfl

theorem finalDrafts_congr {e e' : Execution} (he : e.untimed = e'.untimed) (p : Playbook) :
    finalDrafts p e = finalDrafts p e' := by
  unfold finalDrafts
  rw [finalize_congr he p]

end Engine

namespace World

open Engine ToolServer

variable {T S : Type} [ToolServer T] [IdSource S] {R : T → T → Prop} {g : Engine} {id : String}
  {now now₁ limit later : Instant} {w w' : World T S} {s : Suspended} {path : List String}

/-- An activity was given up where it waited for a reply; the tools have come to whatever they have
become since. -/
inductive GivenUp {α : Type} (p : Activity Working α) (w : World T S) : World T S → Prop
  | waiting {r : EngineRequest} {next : r.Reply → Activity Working α} {w₁ : World T S}
    (comes : ComesTo surroundings p w (.ask r next) w₁) (hr : Working.pauses r = true) (t : T) :
    GivenUp p w { w₁ with tools := t }

/-- A query of the job was begun and given up, and its claim was dropped. -/
def Abandoned (g : Engine) (now : Instant) (id : String) (w w' : World T S) : Prop :=
  ∃ job rest w₁ w₂, w.beginQuery g now id = (.resuming job rest, w₁) ∧ GivenUp rest w₁ w₂ ∧
    w' = w₂.dropClaim job

section Limits

variable {α : Type} {left : Nat} {p : Activity Working α} {r : EngineRequest}
  {next : r.Reply → Activity Working α}

theorem GivenUp.ask
    (h : GivenUp (next (surroundings now r w).reply) (surroundings now r w).world w') :
    GivenUp (.ask r next) w w' := by
  cases h with
  | waiting comes hr t => exact .waiting (.ask now comes) hr t

theorem givenUp_here (hr : Working.pauses r = true) (t : T) :
    GivenUp (.ask r next) w { w with tools := t } := .waiting (.here _ _) hr t

theorem givenUp_of_runUntil (h : runUntil limit left p now w = (none, later, w')) :
    GivenUp p w w' := by
  induction p generalizing left now w with
  | done a => simp [runUntil] at h
  | ask r next ih =>
    unfold runUntil at h
    dsimp only at h
    split at h
    · split at h
      · exact (ih _ h).ask
      · split at h
        · cases h
          exact givenUp_here rfl _
        · exact (ih _ h).ask
    · split at h
      · cases h
        exact givenUp_here rfl _
      · exact (ih _ h).ask
    · exact (ih _ h).ask
    · rename_i r _ _ _ t hstore harrival
      split at h
      · cases h
        cases r with
        | freshId => cases harrival
        | store r => exact absurd HEq.rfl (hstore r _ rfl)
        | job r => cases r <;> cases harrival
        | tool r =>
          cases r with
          | now => cases harrival
          | _ => exact givenUp_here rfl _
      · exact (ih _ h).ask

def isWaiting : Activity Working α → Bool
  | .done _ => false
  | .ask r _ => Working.pauses r

theorem givenUp_answered (times : List Instant)
    (h : isWaiting (answered surroundings times p w).1 = true) :
    GivenUp p w (answered surroundings times p w).2 := by
  have comes := comesTo_answered (s := surroundings) times p w
  revert h comes
  rcases answered surroundings times p w with ⟨q, w₁⟩
  intro h comes
  cases q with
  | done a => cases h
  | ask r next => exact .waiting comes h w₁.tools

/-- A query that is given up at a limit is abandoned. -/
theorem abandoned_of_queryUntil (h : w.queryUntil g now limit id = (none, later, w')) :
    w.Abandoned g now id w' := by
  unfold queryUntil at h
  rcases hbegun : w.beginQuery g now id with ⟨q, w₁⟩
  rw [hbegun] at h
  cases q with
  | answered r => cases h
  | resuming job rest =>
    dsimp only at h
    rcases hrun : runUntil limit turnLength rest now w₁ with ⟨status, later', w₂⟩
    rw [hrun] at h
    cases status with
    | some status => cases h
    | none =>
      cases h
      exact ⟨job, rest, w₁, w₂, hbegun, givenUp_of_runUntil hrun, rfl⟩

end Limits

/-- The abandoned query has stored something: the store refuses to take it again, and for that
reason every later query fails. -/
def Spoilt (g : Engine) (id : String) (s : Suspended) (w w' : World T S) : Prop :=
  ∃ v err, w.store.Takes v ∧ w'.store.Refuses v err ∧
    ∀ later, w'.jobs.InTime later id →
      (w'.query g later id).1 = .ok (.failed (s.execution.failure (.storage err)))

omit [ToolServer T] [IdSource S] in
theorem inTime_of_resuming {job : String} {rest : Activity Working JobStatus}
    (leads : w.jobs.LeadsTo now id path s)
    (h : w.beginQuery g now₁ id = (.resuming job rest, w')) : w.jobs.InTime now₁ id := by
  by_contra hlate
  have unknown : w.jobs.claimCurrent now₁ id = (id, .unknown, w.jobs.evict now₁) := by
    rw [JobTable.claimCurrent, JobTable.claimLast_eq, JobTable.claim_eq,
      JobTable.find?_evict_of_not_inTime leads.ordered hlate]
  rw [beginQuery, Engine.query, unknown] at h
  cases h

/-- Whatever an abandoned query has done: the execution is parked as before, and nothing has changed
but the tools and the store. -/
theorem abandoned_cases (leads : w.jobs.LeadsTo now id path s) (h : w.Abandoned g now₁ id w') :
    w.jobs.InTime now₁ id ∧ w'.jobs = w.jobs.evict now₁ ∧ w'.ids = w.ids ∧
      (w'.store = w.store ∨ ∃ e t d rest,
        ComesTo ToolServer.surroundings (hear g.steps s) w.tools (.done (.finished e)) t ∧
        finalDrafts s.playbook e = d :: rest ∧
        ArtifactStore.Wrote w.store w'.store (.ofDraft d)) := by
  obtain ⟨job, rest, w₁, w₂, begun, hgivenUp, rfl⟩ := h
  have hin := inTime_of_resuming leads begun
  simp only [beginQuery, Engine.query, leads.claim hin, Prod.mk.injEq, Query.resuming.injEq]
    at begun
  obtain ⟨⟨rfl, rfl⟩, rfl⟩ := begun
  have restored := leads.restore now₁
  cases hgivenUp with
  | waiting comes hr t =>
    rcases comesTo_resume comes hr with ⟨t, rfl⟩ | ⟨e, t, r', next', st, hheard, hstore, rfl⟩
    · exact ⟨hin, restored, rfl, .inl rfl⟩
    · refine ⟨hin, restored, rfl, ?_⟩
      rcases ArtifactStore.persistAll_interrupted hstore with rfl | ⟨d, rest, hdrafts, hwrote⟩
      · exact .inl rfl
      · exact .inr ⟨e, t, d, rest, hheard, hdrafts, hwrote⟩

/-- Where the first draft is there already, every query that comes in time fails to store it. -/
theorem query_of_refused (hR : Agreeing R g.steps.timeout) (tools : R w.tools w'.tools)
    (leads : w'.jobs.LeadsTo now id path s) {e : Execution} {t : T} {d : ArtifactDraft}
    {rest : List ArtifactDraft} {err : StorageError}
    (hheard : ComesTo ToolServer.surroundings (hear g.steps s) w.tools (.done (.finished e)) t)
    (hdrafts : finalDrafts s.playbook e = d :: rest)
    (hrefused : w'.store.Refuses (.ofDraft d) err) (hin : w'.jobs.InTime later id) :
    (w'.query g later id).1 = .ok (.failed (s.execution.failure (.storage err))) := by
  have again := ((hear_twin g.steps rfl).run hR tools hheard later).1
  have fails := (comesTo_run (s := ToolServer.surroundings) (hear g.steps s) later w'.tools).abides
    (hear_failsAs g.steps s)
  rw [query_of_leads leads hin]
  dsimp only
  generalize (hear g.steps s).run ToolServer.surroundings later w'.tools = y at again fails ⊢
  rcases y with ⟨x, later', t'⟩
  cases again with
  | @finished _ e' he =>
    obtain ⟨v, hconcluded⟩ := concluded_finished s e' later' (w'.held later s t')
    have drafts : finalDrafts s.playbook e' = d :: rest :=
      (finalDrafts_congr he _).symm.trans hdrafts
    have refused := completion_refused drafts hrefused (.ofNanos later')
    have failure : e'.failure = s.execution.failure := fails
    rw [hconcluded]
    change Except.ok (statusOf e' (completion s.playbook e' (.ofNanos later') w'.store).1) = _
    rw [refused, statusOf, failure]

/-- An abandoned query leaves the execution parked under its job, whatever it was waiting for. If it
has not stored anything, later queries with tools that give the same answers tell the same as if it
had never been made; if it has, every later query fails, since the first draft is there already. -/
theorem abandoned_query_outcome (hR : Agreeing R g.steps.timeout)
    (leads : w.jobs.LeadsTo now id path s) (hle : now ≤ now₁) (unused : ∀ n, w.Unused n)
    (h : w.Abandoned g now₁ id w') (tools : R w.tools w'.tools) :
    w'.jobs = w.jobs.evict now₁ ∧ w'.ids = w.ids ∧
      (∀ later, w'.jobs.InTime later id →
        ∃ t, w'.jobs.claimCurrent later id = (s.handle.jobId, .owned s, t)) ∧
      (w'.store = w.store → ∀ n, TellAlike g id n now w now₁ w') ∧
      (w'.store ≠ w.store → Spoilt g id s w w') := by
  obtain ⟨hin, hjobs, hids, hstore⟩ := abandoned_cases leads h
  have parked : w'.jobs.LeadsTo now₁ id path s := hjobs ▸ leads.evict hin hle
  refine ⟨hjobs, hids, fun later hlater => ⟨_, parked.claim hlater⟩, fun hsame => ?_, fun hne => ?_⟩
  · have waiting : w.Waiting now id s := ⟨.inr ⟨path, leads⟩, unused⟩
    have waiting' : w'.Waiting now₁ id s := by
      refine ⟨.inr ⟨path, parked⟩, fun n => (unused n).congr hids fun k hk => ?_⟩
      rw [hjobs, JobTable.find?_evict leads.ordered, hk]
      rfl
    have paired : Paired R id now w now₁ w' s s :=
      ⟨rfl, tools, congrArg ArtifactStore.outline hsame.symm, hids.symm, waiting, waiting'⟩
    exact paired.tellAlike hR
  · rcases hstore with hsame | ⟨e, t, d, rest, hheard, hdrafts, hwrote⟩
    · exact absurd hsame hne
    · obtain ⟨err, hrefused⟩ := hwrote.refuses
      refine ⟨.ofDraft d, err, hwrote.takes, hrefused, fun later hlater => ?_⟩
      exact query_of_refused hR tools parked hheard hdrafts hrefused hlater

/-- Tools that hand out a job for each call; the job has ended with a text. -/
structure Printing where

instance : ToolServer Printing where
  call t _ _ _ := (⟨0, .ok (.dispatched "print-1")⟩, t)
  poll t _ _ _ := (⟨0, .ok (.completed (.obj [("body", .str "text")]))⟩, t)

theorem printing_agreeing (limit : Span) : Agreeing (fun _ _ : Printing => True) limit where
  call _ _ _ _ _ := ⟨rfl, trivial⟩
  poll _ _ _ _ _ := ⟨rfl, trivial⟩

def printEngine : Engine :=
  ⟨.ofPlaybooks "en" [{ twoReports with steps := twoReports.steps.take 1 }], .default, .default⟩

def printedReport : Suspended where
  handle := ⟨"job", "print-1", "exec", "trace", "reports", "first", ⟨"writer", "write"⟩, .zero⟩
  playbook := { twoReports with steps := twoReports.steps.take 1 }
  execution := (Execution.begin "exec" "trace" twoReports [] .zero).stepping.record
    (.dispatched "first" "print-1" 1 .zero .zero)

def printedWorld : World Printing Service.Tally where
  tools := ⟨⟩
  store := .memory .empty
  jobs := (JobTable.empty JobTable.defaultTtl).put "job" (.suspended printedReport)
  ids := ⟨4⟩

theorem printed_leadsTo : printedWorld.jobs.LeadsTo 0 "job" [] printedReport where
  ordered := (JobTable.ordered_empty _).put _ _
  nodup := List.nodup_singleton _
  last := rfl
  trail := trivial
  parked := rfl

theorem printed_inTime : printedWorld.jobs.InTime 0 "job" := ⟨_, printed_leadsTo.parked, rfl⟩

theorem printed_unused (n : Nat) : printedWorld.Unused n := by
  refine ⟨Service.Tally.distinct 4 n, fun k hk => ?_⟩
  have long := Service.Tally.le_length hk
  have other : "job" ≠ k := by
    rintro rfl
    exact absurd long (by decide)
  exact (JobTable.find?_put ..).trans (if_neg other)

/-- A query of the job is given up after the content of the report was written. -/
def interruptedWorld : World Printing Service.Tally :=
  (answered surroundings [0, 0, 0, 0] (resume printEngine.steps printedReport)
    (printedWorld.held 0 printedReport ⟨⟩)).2.dropClaim "job"

theorem interrupted_abandoned : printedWorld.Abandoned printEngine 0 "job" interruptedWorld := by
  refine ⟨"job", resume printEngine.steps printedReport, printedWorld.held 0 printedReport ⟨⟩, _,
    ?_, givenUp_answered [0, 0, 0, 0] ?_, rfl⟩
  · simp only [beginQuery, Engine.query, printed_leadsTo.claim printed_inTime]
    rfl
  · decide +kernel

/-- The report is stored already, and every later query fails. -/
theorem interrupted_report_spoilt :
    Agreeing (fun _ _ : Printing => True) printEngine.steps.timeout ∧
      printedWorld.jobs.LeadsTo 0 "job" [] printedReport ∧ (∀ n, printedWorld.Unused n) ∧
      printedWorld.Abandoned printEngine 0 "job" interruptedWorld ∧
      Spoilt printEngine "job" printedReport printedWorld interruptedWorld := by
  have changed : interruptedWorld.store.keys ≠ printedWorld.store.keys := by decide +kernel
  have outcome := abandoned_query_outcome (printing_agreeing _) printed_leadsTo le_rfl
    printed_unused interrupted_abandoned trivial
  refine ⟨printing_agreeing _, printed_leadsTo, printed_unused, interrupted_abandoned, ?_⟩
  exact outcome.2.2.2.2 fun same => changed (congrArg ArtifactStore.keys same)

def hasFailed : JobStatus → Bool
  | .failed _ => true
  | _ => false

/-- The later query fails; if the abandoned one had never been made, it would not have failed. -/
theorem interrupted_report_not_alike :
    printedWorld.Abandoned printEngine 0 "job" interruptedWorld ∧
      interruptedWorld.tools = printedWorld.tools ∧
      ¬ TellAlike printEngine "job" 1 0 printedWorld 0 interruptedWorld := by
  refine ⟨interrupted_abandoned, rfl, fun alike => ?_⟩
  obtain ⟨-, hjobs, -, -⟩ := abandoned_cases printed_leadsTo interrupted_abandoned
  have inTime' : interruptedWorld.jobs.InTime 0 "job" := by
    rw [hjobs]
    exact ⟨_, (printed_leadsTo.evict printed_inTime le_rfl).parked, rfl⟩
  obtain ⟨status, status', hquery, hquery', same, -⟩ := alike 0 0 printed_inTime inTime'
  have completes : (printedWorld.query printEngine 0 "job").1.toOption.map hasFailed =
      some false := by decide +kernel
  have fails : (interruptedWorld.query printEngine 0 "job").1.toOption.map hasFailed =
      some true := by decide +kernel
  have untimed (status : JobStatus) : hasFailed status.untimed = hasFailed status := by
    cases status <;> rfl
  rw [hquery] at completes
  rw [hquery'] at fails
  have before : hasFailed status = false := Option.some_inj.mp completes
  have after : hasFailed status' = true := Option.some_inj.mp fails
  rw [← untimed, same, untimed, after] at before
  cases before

end World

end PlaybookEngine
