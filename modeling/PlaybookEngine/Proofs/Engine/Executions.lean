import PlaybookEngine.Proofs.Engine.Discipline
import PlaybookEngine.Proofs.Engine.Order
import PlaybookEngine.Proofs.Engine.Transparency

namespace PlaybookEngine

def JobEntry.Sound (g : Engine) : JobEntry → Prop
  | .suspended s => s.Parked g
  | .resuming s => s.Parked g
  | .forwarded _ _ => True
  | .finished status _ => status.Sound g

namespace JobTable

/-- What is parked is parked in order, and what has ended is complete. -/
structure Sound (g : Engine) (t : JobTable) : Prop where
  ordered : t.Ordered
  entries : ∀ id e, t.find? id = some e → e.Sound g

variable {g : Engine} {t : JobTable}

theorem sound_empty (g : Engine) (ttl : Span) : (empty ttl).Sound g := by
  refine ⟨ordered_empty ttl, fun id e he => ?_⟩
  rw [find?_empty] at he
  cases he

end JobTable

namespace Caller

/-- What the client will ask for is in order, and so is what it was told. -/
def Sound (g : Engine) : Caller Working.Staged → Prop
  | .idle => True
  | .executing rest => rest.Abides (Stage.Proper g) (Engine.Staged.Single g)
  | .executed r => Yields (Invocation.Sound g) r
  | .querying _ rest => rest.Abides (Stage.Proper g) (JobStatus.Sound g)
  | .queried r => Yields (JobStatus.Sound g) r

end Caller

namespace Session

variable {T S C : Type} {g : Engine} {σ τ : Session Working.Staged T S C}

structure Sound (g : Engine) (σ : Session Working.Staged T S C) : Prop where
  jobs : σ.world.jobs.Sound g
  clients : ∀ c, (σ.clients c).Sound g

theorem sound_init (g : Engine) {w : World T S} (hw : w.jobs.Sound g) (now : Instant) :
    (init w now : Session Working.Staged T S C).Sound g :=
  ⟨hw, fun _ => trivial⟩

theorem status_sound_iff {status : JobStatus} :
    status.Sound g ↔ status.Within (ExecutionResult.Complete g) := by
  cases status <;> rfl

theorem entry_sound_iff {id : String} {e : JobEntry} :
    e.Sound g ↔ e.Within (fun _ s => s.Parked g) (ExecutionResult.Complete g) id := by
  cases e with
  | finished status since => exact status_sound_iff
  | _ => rfl

/-- A request that is made in order parks and records what is in order. -/
theorem within_of_proper {r : Working.Staged.Request} (h : Stage.Proper g r) :
    EngineRequest.Within (fun _ s => s.Parked g) (ExecutionResult.Complete g) r.2 := by
  obtain ⟨x, r⟩ := r
  obtain ⟨hx, hallows⟩ := h
  match r with
  | .job (.suspend s) =>
    cases x with
    | parking p e => exact hallows.2.2
    | _ => exact hallows.elim
  | .job (.release s) =>
    cases x with
    | polling t =>
      obtain rfl : s = t := hallows
      exact hx
    | _ => exact hallows.elim
  | .job (.finish id status) =>
    cases x with
    | outside => exact status_sound_iff.mp hallows
    | _ => exact hallows.elim
  | .job (.forward _ _) => trivial
  | .freshId => trivial
  | .tool _ => trivial
  | .store _ => trivial

def ordering (hg : g.registry.Loaded) : Discipline .staged g where
  parked _ s := s.Parked g
  completed := ExecutionResult.Complete g
  executing rest := rest.Abides (Stage.Proper g) (Engine.Staged.Single g)
  querying _ rest := rest.Abides (Stage.Proper g) (JobStatus.Sound g)
  execute code locale _ hmode := Engine.Staged.execute_abides hg hmode code locale
  resume _ _ hs := Engine.Staged.resume_abides hs (hg.nodup_steps hs.1)
  executing_ask _ _ h := ⟨within_of_proper h.1, h.2⟩
  querying_ask _ _ _ h := ⟨within_of_proper h.1, h.2⟩
  executing_done plan h := by
    match plan with
    | .answered (.ok (.completed r)) => exact h
    | .answered (.ok (.dispatched job)) => trivial
    | .answered (.error f) => trivial
    | .batch items conclude => trivial
  querying_done _ _ h := status_sound_iff.mp h

theorem client_sound_iff (hg : g.registry.Loaded) {x : Caller Working.Staged} :
    x.Sound g ↔ (ordering hg).Client x := by
  match x with
  | .executed (.ok (.completed r)) => rfl
  | .executed (.ok (.dispatched job)) => rfl
  | .queried (.ok status) => exact status_sound_iff
  | .executed (.error f) => rfl
  | .queried (.error f) => rfl
  | .idle => rfl
  | .executing rest => rfl
  | .querying job rest => rfl

theorem sound_iff (hg : g.registry.Loaded) : σ.Sound g ↔ (ordering hg).Holds σ := by
  constructor
  · intro h
    exact ⟨⟨h.jobs.ordered, fun id e he => entry_sound_iff.mp (h.jobs.entries id e he)⟩,
      fun c => (client_sound_iff hg).mp (h.clients c)⟩
  · intro h
    exact ⟨⟨h.jobs.ordered, fun id e he => entry_sound_iff.mpr (h.jobs.entries id e he)⟩,
      fun c => (client_sound_iff hg).mpr (h.clients c)⟩

variable [DecidableEq C] [ToolServer T] [IdSource S]

theorem Sound.run (h : σ.Sound g) (hg : g.registry.Loaded) {evs : List (Event C)}
    (hrun : σ.run? .staged g evs = some τ) : τ.Sound g :=
  (sound_iff hg).mpr (((sound_iff hg).mp h).run hrun)

theorem sound_of_run (hg : g.registry.Loaded) {w : World T S} {ttl : Span}
    (hjobs : w.jobs = .empty ttl) {now : Instant} {evs : List (Event C)}
    (hrun : (init w now).run? .staged g evs = some τ) : τ.Sound g := by
  have start : (init w now : Session Working.Staged T S C).Sound g := by
    apply sound_init
    rw [hjobs]
    exact JobTable.sound_empty g ttl
  exact start.run hg hrun

/-- Every execution has its results in order. -/
structure InOrder (g : Engine) (σ : Session Working.Staged T S C) : Prop where
  /-- Who asks for something is in a stage that is sound, and may ask for it there. -/
  working : ∀ c r, (σ.clients c).request? = some r → r.1.Sound g ∧ r.1.Allows g r.2
  /-- A parked execution waits for the job of its last step, also while a query claims it. -/
  parked : ∀ id s, σ.world.jobs.find? id = some (.suspended s) ∨
    σ.world.jobs.find? id = some (.resuming s) → s.Parked g
  /-- A completed execution has a result for each step. -/
  completed : ∀ r, (∃ c, (σ.clients c).result? = some r) ∨
    (∃ id since, σ.world.jobs.find? id = some (.finished (.completed r) since)) → r.Complete g

omit [DecidableEq C] [ToolServer T] [IdSource S] in
theorem Sound.inOrder (h : σ.Sound g) : σ.InOrder g where
  working c r hr := by
    have hclient := h.clients c
    unfold Caller.request? at hr
    split at hr
    · rename_i next hc
      cases hr
      rw [hc] at hclient
      exact hclient.1
    · rename_i next hc
      cases hr
      rw [hc] at hclient
      exact hclient.1
    · cases hr
  parked id s hs := by
    rcases hs with hs | hs
    · exact h.jobs.entries id _ hs
    · exact h.jobs.entries id _ hs
  completed r hr := by
    rcases hr with ⟨c, hr⟩ | ⟨id, since, hr⟩
    · have hclient := h.clients c
      unfold Caller.result? at hr
      split at hr
      · rename_i hc
        cases hr
        rw [hc] at hclient
        exact hclient
      · rename_i hc
        cases hr
        rw [hc] at hclient
        exact hclient
      · cases hr
    · exact h.jobs.entries id _ hr

/-- In every session of an engine, whatever the tools answer and whenever a client is given up, all
executions have their results in order. The stages that tell so are those of the same session. -/
theorem executions_in_order (hg : g.registry.Loaded) {w : World T S} {ttl : Span}
    (hjobs : w.jobs = .empty ttl) (now : Instant) {evs : List (Event C)}
    {σ : Session Working T S C} (hrun : (init w now).run? .bare g evs = some σ) :
    ∃ τ : Session Working.Staged T S C, (init w now).run? .staged g evs = some τ ∧
      τ.bare .staged = σ ∧ τ.InOrder g := by
  obtain ⟨τ, hτ, hbare⟩ := exists_of_bare .staged hrun
  exact ⟨τ, hτ, hbare, (sound_of_run hg hjobs hτ).inOrder⟩

open World in
/-- One client executes the review until it is parked. The other one queries the job and is given
up while the second step is run; then the first one queries it. -/
def reviewEvents : List (Event Bool) :=
  .execute true "review" "en" [] :: List.replicate 9 (.proceed true)
    ++ .query false "00000000-0000-4000-8000-000000000002" :: List.replicate 2 (.proceed false)
    ++ .abandon false :: .wait 5 :: .query true "00000000-0000-4000-8000-000000000002"
      :: List.replicate 4 (.proceed true)

open World in
theorem review_in_order :
    reviewEngine.registry.Loaded ∧
      (reviewWorld (Deferring.mk 0)).jobs = .empty JobTable.defaultTtl ∧
      ∃ σ : Session Working (Logged Deferring) Identifier.Supply Bool,
        (init (reviewWorld (Deferring.mk 0)) 0).run? .bare reviewEngine reviewEvents = some σ ∧
          ∃ τ : Session Working.Staged (Logged Deferring) Identifier.Supply Bool,
            (init (reviewWorld (Deferring.mk 0)) 0).run? .staged reviewEngine reviewEvents =
              some τ ∧ τ.bare .staged = σ ∧ τ.InOrder reviewEngine := by
  have loaded : reviewEngine.registry.Loaded := .playbooks "en" [twoSteps]
  let first : Session Working (Logged Deferring) Identifier.Supply Bool :=
    init (reviewWorld (Deferring.mk 0)) 0
  have happens : (first.run? .bare reviewEngine reviewEvents).isSome = true := by
    decide +kernel
  obtain ⟨σ, hσ⟩ := Option.isSome_iff_exists.mp happens
  exact ⟨loaded, rfl, σ, hσ, executions_in_order loaded rfl 0 hσ⟩

end Session

end PlaybookEngine
