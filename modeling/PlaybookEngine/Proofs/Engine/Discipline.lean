import PlaybookEngine.Proofs.Engine.Session
import PlaybookEngine.Proofs.Jobs.Trail

namespace PlaybookEngine

section Within

variable (parked : String → Suspended → Prop) (completed : ExecutionResult → Prop)

/-- If there is a result, it is such a one. -/
def JobStatus.Within : JobStatus → Prop
  | .completed r => completed r
  | _ => True

def Invocation.Within : Invocation → Prop
  | .completed r => completed r
  | .dispatched _ => True

/-- If there is an invocation with a result, it is such a one. -/
def Plan.Within : Plan → Prop
  | .answered (.ok i) => i.Within completed
  | _ => True

/-- The entry of the job has such an execution, or a result of that kind. -/
def JobEntry.Within (job : String) : JobEntry → Prop
  | .suspended s => parked job s
  | .resuming s => parked job s
  | .forwarded _ _ => True
  | .finished status _ => status.Within completed

/-- A claim on the job tells of such an execution, or of a result of that kind. -/
def Claim.Within (job : String) : Claim → Prop
  | .owned s => parked job s
  | .finished status => status.Within completed
  | _ => True

/-- Only such an execution is parked, under its own job, and only a result of that kind is
recorded. -/
def EngineRequest.Within : EngineRequest → Prop
  | .job (.suspend s) => parked s.handle.jobId s
  | .job (.release s) => parked s.handle.jobId s
  | .job (.finish _ status) => status.Within completed
  | _ => True

structure JobTable.Within (t : JobTable) : Prop where
  ordered : t.Ordered
  entries : ∀ id e, t.find? id = some e → e.Within parked completed id

end Within

variable {parked : String → Suspended → Prop} {completed : ExecutionResult → Prop}

namespace JobTable

variable {t : JobTable}

theorem within_empty (ttl : Span) : (empty ttl).Within parked completed := by
  refine ⟨ordered_empty ttl, fun id e he => ?_⟩
  rw [find?_empty] at he
  cases he

theorem Within.evict (h : t.Within parked completed) (now : Instant) :
    (t.evict now).Within parked completed :=
  ⟨h.ordered.evict now, fun id e he => h.entries id e (find?_of_evict h.ordered he)⟩

theorem Within.put (h : t.Within parked completed) {id : String} {e : JobEntry}
    (he : e.Within parked completed id) : (t.put id e).Within parked completed := by
  refine ⟨h.ordered.put id e, fun j x hx => ?_⟩
  rw [find?_put] at hx
  split at hx
  · rename_i hid
    obtain rfl := Option.some_inj.mp hx
    exact hid ▸ he
  · exact h.entries j x hx

theorem Within.suspend (h : t.Within parked completed) (now : Instant) {s : Suspended}
    (hs : parked s.handle.jobId s) : (t.suspend now s).2.Within parked completed := by
  cases hfind : (t.evict now).find? s.handle.jobId with
  | none =>
    rw [suspend_free hfind]
    exact (h.evict now).put hs
  | some e =>
    rw [suspend_taken hfind]
    exact h.evict now

theorem Within.restore (h : t.Within parked completed) (id : String) :
    (t.restore id).Within parked completed := by
  rw [restore_eq]
  split
  · rename_i s hs
    have held : parked id s := h.entries id _ hs
    exact h.put (e := .suspended s) held
  · exact h

theorem Within.claim (h : t.Within parked completed) (now : Instant) (id : String) :
    (t.claim now id).1.Within parked completed id ∧
      (t.claim now id).2.Within parked completed := by
  have kept := h.evict now
  rw [claim_eq]
  cases hfind : (t.evict now).find? id with
  | none => exact ⟨trivial, kept⟩
  | some e =>
    have he := kept.entries id e hfind
    cases e with
    | suspended s => exact ⟨he, kept.put he⟩
    | resuming s => exact ⟨trivial, kept⟩
    | forwarded next since => exact ⟨trivial, kept⟩
    | finished status since => exact ⟨he, kept⟩

theorem Within.claimLast (h : t.Within parked completed) (links : Nat) (now : Instant)
    (id : String) :
    (claimLast links t now id).2.1.Within parked completed (claimLast links t now id).1 ∧
      (claimLast links t now id).2.2.Within parked completed := by
  induction links generalizing t id with
  | zero =>
    obtain ⟨hclaim, htable⟩ := h.claim now id
    rw [claimLast_eq]
    rcases hc : t.claim now id with ⟨c, t'⟩
    rw [hc] at hclaim htable
    cases c with
    | forwarded next => exact ⟨trivial, htable⟩
    | _ => exact ⟨hclaim, htable⟩
  | succ links ih =>
    obtain ⟨hclaim, htable⟩ := h.claim now id
    rw [claimLast_eq]
    rcases hc : t.claim now id with ⟨c, t'⟩
    rw [hc] at hclaim htable
    cases c with
    | forwarded next => exact ih htable next
    | _ => exact ⟨hclaim, htable⟩

end JobTable

/-- A request of that kind leaves such jobs. -/
theorem World.jobs_within {T S : Type} [ToolServer T] [IdSource S] {w : World T S}
    (h : w.jobs.Within parked completed) {r : Working.Request}
    (hr : EngineRequest.Within parked completed r) (now : Instant) :
    (surroundings now r w).world.jobs.Within parked completed := by
  cases r with
  | freshId => exact h
  | tool r => exact h
  | store r => exact h
  | job r =>
    cases r with
    | suspend s => exact h.suspend now hr
    | release s => exact h.put hr
    | forward id next => exact h.put trivial
    | finish id status => exact h.put hr

/-- What the calls of an engine keep to in some guise. -/
structure Discipline {I : Interface} (A : Guise I) (g : Engine) where
  /-- What is parked under a job. -/
  parked : String → Suspended → Prop
  completed : ExecutionResult → Prop
  /-- What is left of the execution of a playbook. -/
  executing : Activity I Plan → Prop
  /-- What is left of the query that has claimed a job. -/
  querying : String → Activity I JobStatus → Prop
  execute : ∀ code locale raw, Engine.requestedMode raw ≠ .ok .batch →
    executing (A.execute g code locale raw)
  resume : ∀ job s, parked job s → querying job (A.resume g.steps s)
  executing_ask : ∀ r next, executing (.ask r next) →
    EngineRequest.Within parked completed (A.send r) ∧ ∀ x, executing (next x)
  querying_ask : ∀ job r next, querying job (.ask r next) →
    EngineRequest.Within parked completed (A.send r) ∧ ∀ x, querying job (next x)
  executing_done : ∀ plan, executing (.done plan) → plan.Within completed
  querying_done : ∀ job status, querying job (.done status) → status.Within completed

namespace Discipline

variable {I : Interface} {A : Guise I} {g : Engine} (K : Discipline A g)

/-- The client keeps to it, and was told nothing else. -/
def Client : Caller I → Prop
  | .idle => True
  | .executing rest => K.executing rest
  | .executed (.ok i) => i.Within K.completed
  | .executed (.error _) => True
  | .querying job rest => K.querying job rest
  | .queried (.ok status) => status.Within K.completed
  | .queried (.error _) => True

variable {T S C : Type}

structure Holds (σ : Session I T S C) : Prop where
  jobs : σ.world.jobs.Within K.parked K.completed
  clients : ∀ c, K.Client (σ.clients c)

variable {K} {σ τ : Session I T S C}

theorem holds_init {w : World T S} {ttl : Span} (hw : w.jobs = .empty ttl) (now : Instant) :
    K.Holds (Session.init w now : Session I T S C) := by
  refine ⟨?_, fun _ => trivial⟩
  change w.jobs.Within K.parked K.completed
  rw [hw]
  exact JobTable.within_empty ttl

/-- What a client was told, and what is recorded of a job, is such a result. -/
theorem Holds.result (h : K.Holds σ) {r : ExecutionResult}
    (hr : (∃ c, (σ.clients c).result? = some r) ∨
      ∃ id since, σ.world.jobs.find? id = some (.finished (.completed r) since)) :
    K.completed r := by
  rcases hr with ⟨c, hr⟩ | ⟨id, since, hr⟩
  · have hclient := h.clients c
    unfold Caller.result? at hr
    split at hr
    · rename_i hc
      cases hr
      rw [hc] at hclient
      exact hclient
    · rename_i hc
      cases hr
      rw [hc] at hclient
      exact hclient
    · cases hr
  · exact h.jobs.entries id _ hr

variable [DecidableEq C]

theorem Holds.put (h : K.Holds σ) (c : C) {x : Caller I} {w : World T S} (hx : K.Client x)
    (hw : w.jobs.Within K.parked K.completed) : K.Holds (σ.put c x w) := by
  refine ⟨hw, fun d => ?_⟩
  change K.Client (Function.update σ.clients c x d)
  by_cases hd : d = c
  · subst hd
    rw [Function.update_self]
    exact hx
  · rw [Function.update_of_ne hd]
    exact h.clients d

omit [DecidableEq C] in
theorem Holds.query (h : K.Holds σ) (id : String) :
    K.Client (A.query g σ.world.jobs σ.now id).1 ∧
      (A.query g σ.world.jobs σ.now id).2.Within K.parked K.completed := by
  obtain ⟨hclaim, htable⟩ := h.jobs.claimLast σ.world.jobs.entries.length σ.now id
  unfold Guise.query JobTable.claimCurrent
  rcases hc : JobTable.claimLast σ.world.jobs.entries.length σ.world.jobs σ.now id with
    ⟨job, claim, t⟩
  rw [hc] at hclaim htable
  cases claim with
  | unknown => exact ⟨trivial, htable⟩
  | forwarded next => exact ⟨trivial, htable⟩
  | busy job => exact ⟨trivial, htable⟩
  | finished status => exact ⟨hclaim, htable⟩
  | owned s =>
    have hparked : K.parked job s := hclaim
    exact ⟨K.resume job s hparked, htable⟩

variable [ToolServer T] [IdSource S]

theorem Holds.proceed (h : K.Holds σ) {c : C} (hstep : σ.step? A g (.proceed c) = some τ) :
    K.Holds τ := by
  have hclient := h.clients c
  rw [Session.step?] at hstep
  cases hc : σ.clients c with
  | idle =>
    rw [hc] at hstep
    cases hstep
  | executed r =>
    rw [hc] at hstep
    cases hstep
  | queried r =>
    rw [hc] at hstep
    cases hstep
  | executing rest =>
    rw [hc] at hstep hclient
    cases rest with
    | done plan =>
      have hplan := K.executing_done plan hclient
      cases plan with
      | answered r =>
        cases hstep
        cases r with
        | error f => exact h.put c trivial h.jobs
        | ok i => exact h.put c (x := .executed (.ok i)) hplan h.jobs
      | batch items conclude => cases hstep
    | ask r next =>
      cases hstep
      obtain ⟨hr, hnext⟩ := K.executing_ask r next hclient
      exact h.put c (x := .executing _) (hnext _) (World.jobs_within h.jobs hr σ.now)
  | querying job rest =>
    rw [hc] at hstep hclient
    cases rest with
    | done status =>
      cases hstep
      have hstatus := K.querying_done job status hclient
      exact h.put c (x := .queried (.ok status)) hstatus (h.jobs.restore job)
    | ask r next =>
      cases hstep
      obtain ⟨hr, hnext⟩ := K.querying_ask job r next hclient
      exact h.put c (x := .querying job _) (hnext _) (World.jobs_within h.jobs hr σ.now)

/-- Every event keeps to it. -/
theorem Holds.step (h : K.Holds σ) {ev : Event C} (hstep : σ.step? A g ev = some τ) :
    K.Holds τ := by
  cases ev with
  | wait d =>
    cases hstep
    exact ⟨h.jobs, h.clients⟩
  | execute c code locale raw =>
    rw [Session.step?] at hstep
    split at hstep
    · split at hstep
      · cases hstep
      · rename_i hmode
        cases hstep
        exact h.put c (x := .executing _) (K.execute code locale raw hmode) h.jobs
    · cases hstep
  | query c id =>
    rw [Session.step?] at hstep
    split at hstep
    · cases hstep
      obtain ⟨hx, htable⟩ := h.query id
      exact h.put c hx htable
    · cases hstep
  | proceed c => exact h.proceed hstep
  | abandon c =>
    rw [Session.step?] at hstep
    cases hc : σ.clients c with
    | executing rest =>
      rw [hc] at hstep
      cases hstep
      exact h.put c (x := .idle) trivial h.jobs
    | querying job rest =>
      rw [hc] at hstep
      cases hstep
      exact h.put c (x := .idle) trivial (h.jobs.restore job)
    | idle =>
      rw [hc] at hstep
      cases hstep
    | executed r =>
      rw [hc] at hstep
      cases hstep
    | queried r =>
      rw [hc] at hstep
      cases hstep

/-- Whatever the clients do, they keep to it. -/
theorem Holds.run (h : K.Holds σ) {evs : List (Event C)} (hrun : σ.run? A g evs = some τ) :
    K.Holds τ := by
  induction evs generalizing σ with
  | nil =>
    cases hrun
    exact h
  | cons ev rest ih =>
    obtain ⟨ρ, hstep, hrest⟩ := Option.bind_eq_some_iff.mp hrun
    exact ih (h.step hstep) hrest

end Discipline

end PlaybookEngine
