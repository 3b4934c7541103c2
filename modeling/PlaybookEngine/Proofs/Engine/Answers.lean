import PlaybookEngine.Proofs.Engine.Service
import PlaybookEngine.Proofs.Engine.Transparency

namespace PlaybookEngine.Service

open IdSource

variable {T S C : Type}

section Run

variable [ToolServer T] [IdSource S] [DecidableEq C] {g : Engine} {σ σ' : Service T S C}
  {id : String}

/-- The events lead from one state to another one. -/
def Reaches (g : Engine) (σ σ' : Service T S C) : Prop := ∃ evs, σ.run? g evs = some σ'

theorem reaches_refl (g : Engine) (σ : Service T S C) : σ.Reaches g σ := ⟨[], rfl⟩

theorem Reaches.head {ev : Event C} {σ₁ : Service T S C} (hstep : σ.step? g ev = some σ₁)
    (h : σ₁.Reaches g σ') : σ.Reaches g σ' := by
  obtain ⟨evs, hrun⟩ := h
  refine ⟨ev :: evs, ?_⟩
  rw [run?, hstep]
  exact hrun

theorem Reaches.keeps {P : Service T S C → Prop} (h : σ.Reaches g σ') (hσ : P σ)
    (hstep : ∀ σ₁ σ₂ ev, P σ₁ → σ₁.step? g ev = some σ₂ → P σ₂) : P σ' := by
  obtain ⟨evs, hrun⟩ := h
  induction evs generalizing σ with
  | nil =>
    obtain rfl := Option.some_inj.mp hrun
    exact hσ
  | cons ev rest ih =>
    obtain ⟨σ₁, hfirst, hrest⟩ := Option.bind_eq_some_iff.mp hrun
    exact ih (hstep σ σ₁ ev hσ hfirst) hrest

theorem Reaches.trans {σ₁ : Service T S C} (h : σ.Reaches g σ₁) (h' : σ₁.Reaches g σ') :
    σ.Reaches g σ' := by
  obtain ⟨evs, hrun⟩ := h
  induction evs generalizing σ with
  | nil =>
    obtain rfl := Option.some_inj.mp hrun
    exact h'
  | cons ev rest ih =>
    obtain ⟨σ₂, hfirst, hrest⟩ := Option.bind_eq_some_iff.mp hrun
    exact .head hfirst (ih hrest)

theorem Reaches.tail {ev : Event C} {σ₁ : Service T S C} (h : σ.Reaches g σ₁)
    (hstep : σ₁.step? g ev = some σ') : σ.Reaches g σ' :=
  h.trans (.head hstep (reaches_refl g σ'))

theorem Sound.run (h : σ.Sound) (hrun : σ.Reaches g σ') : σ'.Sound :=
  hrun.keeps h fun _ _ _ h₁ hstep => (h₁.step hstep).1

/-- A job that has ended so answers so from then on. -/
theorem Sound.answers (h : σ.Sound) {status : JobStatus} (hrun : σ.Reaches g σ')
    (hanswers : σ.world.jobs.Answers σ.now id status) (hspent : Spent σ.world.ids id) :
    σ'.world.jobs.Answers σ'.now id status := by
  have kept := hrun.keeps (P := fun σ => σ.Sound ∧ Spent σ.world.ids id ∧
    σ.world.jobs.Answers σ.now id status) ⟨h, hspent, hanswers⟩ ?_
  · exact kept.2.2
  · rintro σ₁ σ₂ ev ⟨h₁, hspent₁, hanswers₁⟩ hstep
    obtain ⟨h₂, hle, ⟨own, hchanges⟩, hspent₂⟩ := h₁.step hstep
    exact ⟨h₂, hspent₂ id hspent₁,
      hchanges.answers (h₁.linked.mono hle) (hanswers₁.mono hle) (not_not_intro hspent₁)⟩

/-- The job had an entry in the run, and what it had has expired by now. -/
def Outlived (g : Engine) (first σ : Service T S C) (id : String) : Prop :=
  ∃ σ₁ e, first.Reaches g σ₁ ∧ σ₁.Reaches g σ ∧ σ₁.world.jobs.find? id = some e ∧
    JobTable.isFresh σ.world.jobs.resultTtl σ.now e = false

/-- An entry stays until it has expired. -/
theorem Sound.inTime_or_outlived (h : σ.Sound) (hid : σ.world.jobs.find? id ≠ none)
    (hrun : σ.Reaches g σ') : σ'.world.jobs.InTime σ'.now id ∨ Outlived g σ σ' id := by
  have now (σ₂ : Service T S C) (hreach : σ.Reaches g σ₂) {e : JobEntry}
      (he : σ₂.world.jobs.find? id = some e) :
      σ₂.world.jobs.InTime σ₂.now id ∨ Outlived g σ σ₂ id := by
    by_cases hfresh : JobTable.isFresh σ₂.world.jobs.resultTtl σ₂.now e = true
    · exact .inl ⟨e, he, hfresh⟩
    · exact .inr ⟨σ₂, e, hreach, reaches_refl g σ₂, he, by simpa using hfresh⟩
  have kept := hrun.keeps (P := fun σ₁ => σ₁.Sound ∧ σ.Reaches g σ₁ ∧
    (σ₁.world.jobs.InTime σ₁.now id ∨ Outlived g σ σ₁ id)) ⟨h, reaches_refl g σ, ?_⟩ ?_
  · exact kept.2.2
  · obtain ⟨e, he⟩ := Option.ne_none_iff_exists'.mp hid
    exact now σ (reaches_refl g σ) he
  · rintro σ₁ σ₂ ev ⟨h₁, hreach, hold⟩ hstep
    obtain ⟨h₂, hle, ⟨own, hchanges⟩, -⟩ := h₁.step hstep
    have hreach₂ := hreach.tail hstep
    refine ⟨h₂, hreach₂, ?_⟩
    rcases hold with ⟨e, he, -⟩ | ⟨σ₃, e, hfirst, hlater, he, hexpired⟩
    · rcases hchanges.find? (h₁.linked.mono hle) he with ⟨e', he', -⟩ | hexpired
      · exact now σ₂ hreach₂ he'
      · refine .inr ⟨σ₁, e, hreach, .head hstep (reaches_refl g σ₂), he, ?_⟩
        rw [hchanges.resultTtl]
        exact hexpired
    · refine .inr ⟨σ₃, e, hfirst, hlater.tail hstep, he, ?_⟩
      rw [hchanges.resultTtl]
      by_contra hfresh
      rw [JobTable.isFresh_before hle (by simpa using hfresh)] at hexpired
      cases hexpired

/-- Whoever was told of a job was told when it was parked or claimed. -/
theorem Sound.found_of_told (h : σ.Sound) (hnone : ∀ c, (σ.guests c).told? = none)
    (hrun : σ.Reaches g σ') {c : C} (htold : (σ'.guests c).told? = some id) :
    ∃ σ₁, σ.Reaches g σ₁ ∧ σ₁.Reaches g σ' ∧ σ₁.world.jobs.find? id ≠ none := by
  have kept := hrun.keeps (P := fun σ₂ => σ₂.Sound ∧ σ.Reaches g σ₂ ∧
    ∀ c, (σ₂.guests c).told? = some id →
      ∃ σ₁, σ.Reaches g σ₁ ∧ σ₁.Reaches g σ₂ ∧ σ₁.world.jobs.find? id ≠ none)
    ⟨h, reaches_refl g σ, ?_⟩ ?_
  · exact kept.2.2 c htold
  · intro c hc
    rw [hnone c] at hc
    cases hc
  · rintro σ₂ σ₃ ev ⟨h₂, hreach, hold⟩ hstep
    have hreach₃ := hreach.tail hstep
    refine ⟨(h₂.step hstep).1, hreach₃, fun c hc => ?_⟩
    have before (hc : (σ₂.guests c).told? = some id) :
        ∃ σ₁, σ.Reaches g σ₁ ∧ σ₁.Reaches g σ₃ ∧ σ₁.world.jobs.find? id ≠ none := by
      obtain ⟨σ₁, hfirst, hlater, hfound⟩ := hold c hc
      exact ⟨σ₁, hfirst, hlater.tail hstep, hfound⟩
    rcases h₂.step_cases hstep with ⟨d, rfl⟩ | ⟨c', x, w, rfl, hx⟩
    · exact before hc
    · change (Function.update σ₂.guests c' x c).told? = some id at hc
      by_cases hcc' : c = c'
      · subst hcc'
        rw [Function.update_self] at hc
        exact ⟨_, hreach₃, reaches_refl g _, hx.told id hc⟩
      · rw [Function.update_of_ne hcc'] at hc
        exact before hc

end Run

section Stability

variable [IdSource S]

theorem Sound.unknown_iff {σ : Service T S C} (h : σ.Sound) (g : Engine) (id : String) :
    (g.query σ.world.jobs σ.now id).1 =
      .answered (.error ((EngineError.jobNotFound id).toFailure none)) ↔
        ¬ σ.world.jobs.InTime σ.now id := by
  constructor
  · intro hquery hin
    obtain ⟨path, e, -, -, hend, hclaim⟩ := h.linked.claimCurrent_cases hin
    rw [Engine.query, hclaim] at hquery
    cases e with
    | forwarded next since => exact hend next since rfl
    | _ => cases hquery
  · intro hin
    rw [query_unknown h.linked g hin]

variable [ToolServer T] [DecidableEq C]

/-- Parked and claimed executions outlive every eviction, and no event takes their entry away. -/
def Keeps (g : Engine) (σ : Service T S C) : Prop :=
  ∀ id e, σ.world.jobs.find? id = some e → e.isLive →
    (∀ t, (σ.world.jobs.evict t).find? id = some e) ∧
    ∀ ev σ', σ.step? g ev = some σ' →
      ∃ e', σ'.world.jobs.find? id = some e' ∧ JobTable.SettledFrom σ.now e'

/-- Links never lead in a circle, but to entries that are there for longer; claims follow them to
their end; and only those jobs are unknown that have no entry in time. A job that somebody was told
of has one, or had one that has expired. -/
structure Resolves (g : Engine) (σ first : Service T S C) : Prop where
  acyclic : ∀ id, ¬ Relation.TransGen
    (fun a b => ∃ since, σ.world.jobs.find? a = some (.forwarded b since)) id id
  leads : ∀ id next since, σ.world.jobs.find? id = some (.forwarded next since) →
    ∃ e, σ.world.jobs.find? next = some e ∧ JobTable.SettledFrom since e ∧
      ∀ t, JobTable.isFresh σ.world.jobs.resultTtl t (.forwarded next since) = true →
        JobTable.isFresh σ.world.jobs.resultTtl t e = true
  ends : ∀ id links, σ.world.jobs.entries.length ≤ links →
    JobTable.claimLast links σ.world.jobs σ.now id = σ.world.jobs.claimCurrent σ.now id
  unknown : ∀ id, (g.query σ.world.jobs σ.now id).1 =
    .answered (.error ((EngineError.jobNotFound id).toFailure none)) ↔
      ¬ σ.world.jobs.InTime σ.now id
  told : ∀ σ₁ c id, first.Reaches g σ₁ → σ₁.Reaches g σ → (σ₁.guests c).told? = some id →
    σ.world.jobs.InTime σ.now id ∨ Outlived g first σ id

/-- Where a query was told the end of an execution, every later query of the same job is told the
same at once, as long as the job's own entry has not expired. -/
def Lasts (g : Engine) (σ : Service T S C) : Prop :=
  ∀ c id status, σ.guests c = .queried id (.ok status) → status.isTerminal = true →
    ∀ σ', σ.Reaches g σ' → σ'.world.jobs.InTime σ'.now id → ∀ d, (σ'.guests d).isFree →
      σ'.step? g (.query d id) = some (σ'.put d (.queried id (.ok status))
        { σ'.world with jobs := σ'.world.jobs.evict σ'.now })

variable {g : Engine} {σ : Service T S C}

theorem Sound.keeps (h : σ.Sound) : σ.Keeps g := by
  intro id e he hlive
  refine ⟨fun t => JobTable.find?_evict_live h.linked.ordered hlive he t, fun ev σ' hstep => ?_⟩
  obtain ⟨h', hle, ⟨own, hchanges⟩, -⟩ := h.step hstep
  rcases hchanges.find? (h.linked.mono hle) he with ⟨e', he', hsame⟩ | hexpired
  · refine ⟨e', he', fun since hsince => ?_⟩
    rcases hsame with rfl | ⟨-, hnow⟩
    · rw [hlive] at hsince
      cases hsince
    · rw [hnow since hsince]
      exact hle
  · rw [JobTable.isFresh_of_isLive hlive] at hexpired
    cases hexpired

theorem Sound.lasts (h : σ.Sound) : σ.Lasts g := by
  intro c id status hc hterminal σ' hrun hin d hd
  have hfits := h.fits c
  rw [hc] at hfits
  obtain ⟨hanswers, hspent⟩ := hfits hterminal
  have answers := h.answers hrun hanswers hspent
  simp only [step?, hd, if_true, World.beginQuery, query_answers (h.run hrun).linked g answers hin]
  rfl

/-- Whatever guests do on one engine that never hands out an id twice, and whenever they do it: no
execution that is parked or claimed is lost, every query is resolved, and what a query was told in
the end lasts. -/
theorem queries_resolve_and_last {w : World T S} {ttl : Span} (hjobs : w.jobs = .empty ttl)
    (hids : Distinct w.ids) {now : Instant} (hrun : (init w now).Reaches g σ) :
    σ.Keeps g ∧ σ.Resolves g (init w now) ∧ σ.Lasts g := by
  have start : (init w now : Service T S C).Sound := sound_init hjobs hids now
  have h := start.run hrun
  refine ⟨h.keeps, ⟨h.linked.acyclic, fun id next since hid => ?_, fun id links hlinks => ?_,
    h.unknown_iff g, fun σ₁ c id hfirst hlater htold => ?_⟩, h.lasts⟩
  · obtain ⟨e, he, hsettled⟩ := h.linked.links id next since hid
    refine ⟨e, he, hsettled, fun t hfresh => ?_⟩
    exact JobTable.isFresh_of_later (of_decide_eq_true hfresh) hsettled
  · exact h.linked.claimLast_eq_claimCurrent id hlinks
  · obtain ⟨σ₂, hreach, hlater₂, hfound⟩ := start.found_of_told (fun c => rfl) hfirst htold
    rcases (start.run hreach).inTime_or_outlived hfound (hlater₂.trans hlater) with
      hin | ⟨σ₃, e, hfirst₃, hlater₃, he, hexpired⟩
    · exact .inl hin
    · exact .inr ⟨σ₃, e, hreach.trans hfirst₃, hlater₃, he, hexpired⟩

end Stability

/-- Ids that become longer and longer. -/
structure Tally where
  count : Nat

instance : IdSource Tally where
  fresh s := (String.ofList (List.replicate s.count 'x'), ⟨s.count + 1⟩)

theorem Tally.le_length {x : String} {m n : Nat} (h : x ∈ upcoming (Tally.mk n) m) :
    n ≤ x.length := by
  induction m generalizing n with
  | zero => cases h
  | succ m ih =>
    rcases List.mem_cons.mp h with rfl | h
    · simp [fresh]
    · exact Nat.le_of_succ_le (ih h)

theorem Tally.distinct (n : Nat) : Distinct (Tally.mk n) := by
  intro m
  induction m generalizing n with
  | zero => exact List.nodup_nil
  | succ m ih =>
    refine List.nodup_cons.mpr ⟨fun hmem => ?_, ih (n + 1)⟩
    have := Tally.le_length hmem
    simp [fresh] at this

def isAnswered (id : String) : Guest → Bool
  | .queried id' (.ok status) => id' == id && status.isTerminal
  | _ => false

/-- One guest has a playbook with two steps executed, another one queries the first job. It is given
up once; then it finds the job running, moved on and ended. -/
def visits : List (Event Bool) :=
  let query : List (Event Bool) := [.query true "xx", .proceed true]
  [.execute false "review" "en" [], .proceed false, .proceed false, .query true "xx",
    .abandon true] ++ query ++ [.wait 5] ++ query ++ [.proceed true] ++ query ++ query

def visitedWorld : World World.Deferring Tally where
  tools := ⟨0⟩
  store := .memory .empty
  jobs := .empty JobTable.defaultTtl
  ids := ⟨0⟩

theorem visits_resolve_and_last :
    visitedWorld.jobs = .empty JobTable.defaultTtl ∧ Distinct visitedWorld.ids ∧
      ∃ σ : Service World.Deferring Tally Bool,
        (init visitedWorld 0).Reaches World.reviewEngine σ ∧
        (∃ status, σ.guests true = .queried "xx" (.ok status) ∧ status.isTerminal = true) ∧
        σ.Keeps World.reviewEngine ∧ σ.Resolves World.reviewEngine (init visitedWorld 0) ∧
        σ.Lasts World.reviewEngine := by
  have ended : ((init visitedWorld 0).run? World.reviewEngine visits).any
      (fun σ => isAnswered "xx" (σ.guests true)) = true := by
    decide +kernel
  obtain ⟨σ, hrun, hended⟩ := Option.any_eq_true .. |>.mp ended
  have reached : (init visitedWorld 0).Reaches World.reviewEngine σ := ⟨visits, hrun⟩
  refine ⟨rfl, Tally.distinct 0, σ, reached, ?_,
    queries_resolve_and_last rfl (Tally.distinct 0) reached⟩
  unfold isAnswered at hended
  split at hended
  · rename_i id status hguest
    rw [Bool.and_eq_true, beq_iff_eq] at hended
    obtain ⟨rfl, hterminal⟩ := hended
    exact ⟨status, hguest, hterminal⟩
  · cases hended

end PlaybookEngine.Service
