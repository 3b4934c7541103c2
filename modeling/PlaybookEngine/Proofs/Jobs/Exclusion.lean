import PlaybookEngine.Proofs.Jobs.Table
import Mathlib.Logic.Function.Basic

namespace PlaybookEngine

/-- What a client is at: it has no claim, it owns a job, or it has settled the job and still holds
its claim. -/
inductive Client
  | idle
  | owning (job : String)
  | settled (job : String)
  deriving DecidableEq

/-- Clients at work on one table. -/
structure Desk (C : Type) where
  table : JobTable
  clients : C → Client

namespace Desk

variable {C : Type}

/-- The calls of the table. Anybody may park an execution; the other calls follow the protocol of
claims. -/
inductive Call (C : Type)
  | suspend (now : Instant) (s : Suspended)
  | claim (c : C) (now : Instant) (job : String)
  | release (c : C) (s : Suspended)
  | forward (c : C) (now : Instant) (next : String)
  | finish (c : C) (now : Instant) (status : JobStatus)
  | drop (c : C)

def init (C : Type) (resultTtl : Span) : Desk C := ⟨.empty resultTtl, fun _ => .idle⟩

/-- A job has one owner at most. -/
def Exclusive (d : Desk C) : Prop :=
  ∀ job c e, d.clients c = .owning job → d.clients e = .owning job → c = e

/-- The call drops the claim on a settled job that another client owns by now. -/
def Late (d : Desk C) (call : Call C) : Prop :=
  ∃ c e job, call = .drop c ∧ d.clients c = .settled job ∧ d.clients e = .owning job

/-- The table has a job as claimed exactly when it has an owner, and it has one only. -/
structure Sound (d : Desk C) : Prop where
  ordered : d.table.Ordered
  exclusive : d.Exclusive
  claimed_iff : ∀ job, d.table.Claimed job ↔ ∃ c, d.clients c = .owning job

theorem sound_init (ttl : Span) : (init C ttl).Sound where
  ordered := JobTable.ordered_empty ttl
  exclusive := fun job c e h => by simp [init] at h
  claimed_iff := fun job => by simp [init, JobTable.not_claimed_empty]

theorem not_late_claim (d : Desk C) (c : C) (now : Instant) (job : String) :
    ¬ d.Late (.claim c now job) := by
  intro hh
  obtain ⟨_, _, _, h, -⟩ := hh
  cases h

variable [DecidableEq C]

def put (d : Desk C) (c : C) (state : Client) (table : JobTable) : Desk C :=
  ⟨table, Function.update d.clients c state⟩

def claimed (job : String) : Claim → Client
  | .owned _ => .owning job
  | _ => .idle

/-- The desk after a call; none when the protocol does not allow it. -/
def step? (d : Desk C) : Call C → Option (Desk C)
  | .suspend now s => some { d with table := (d.table.suspend now s).2 }
  | .claim c now job =>
    match d.clients c with
    | .idle => some (d.put c (claimed job (d.table.claim now job).1) (d.table.claim now job).2)
    | _ => none
  | .release c s =>
    if d.clients c = .owning s.handle.jobId then
      some (d.put c (.settled s.handle.jobId) (d.table.release s))
    else none
  | .forward c now next =>
    match d.clients c with
    | .owning job => some (d.put c (.settled job) (d.table.forward now job next))
    | _ => none
  | .finish c now status =>
    match d.clients c with
    | .owning job => some (d.put c (.settled job) (d.table.finish now job status))
    | _ => none
  | .drop c =>
    match d.clients c with
    | .idle => none
    | .owning job => some (d.put c .idle (d.table.restore job))
    | .settled job => some (d.put c .idle (d.table.restore job))

def run? : Desk C → List (Call C) → Option (Desk C)
  | d, [] => some d
  | d, call :: rest => (d.step? call).bind fun d => d.run? rest

/-- No call of the run is a late drop. -/
def Prompt : Desk C → List (Call C) → Prop
  | _, [] => True
  | d, call :: rest => ¬ d.Late call ∧ ∀ e, d.step? call = some e → Prompt e rest

theorem clients_put_self (d : Desk C) (c : C) (state : Client) (table : JobTable) :
    (d.put c state table).clients c = state := Function.update_self ..

theorem clients_put_of_ne (d : Desk C) {c e : C} (h : e ≠ c) (state : Client) (table : JobTable) :
    (d.put c state table).clients e = d.clients e := Function.update_of_ne h ..

theorem owning_of_put {d : Desk C} {c e : C} {state : Client} {table : JobTable} {job : String}
    (hstate : ∀ j, state ≠ .owning j) (h : (d.put c state table).clients e = .owning job) :
    e ≠ c ∧ d.clients e = .owning job := by
  have hne : e ≠ c := by
    intro hh
    subst hh
    rw [clients_put_self] at h
    exact hstate job h
  exact ⟨hne, by rwa [clients_put_of_ne d hne] at h⟩

theorem Sound.give {d : Desk C} (h : d.Sound) {c : C} {job : String} {state : Client}
    {table : JobTable} (hc : d.clients c = .owning job) (hstate : ∀ j, state ≠ .owning j)
    (hordered : table.Ordered) (htable : ∀ j, table.Claimed j ↔ d.table.Claimed j ∧ job ≠ j) :
    (d.put c state table).Sound where
  ordered := hordered
  exclusive := by
    intro j a b ha hb
    apply h.exclusive j
    · exact (owning_of_put hstate ha).2
    · exact (owning_of_put hstate hb).2
  claimed_iff := by
    intro j
    rw [show (d.put c state table).table = table from rfl, htable, h.claimed_iff]
    constructor
    · intro hh
      obtain ⟨⟨a, ha⟩, hj⟩ := hh
      have hne : a ≠ c := by
        intro hh
        subst hh
        exact hj (Client.owning.inj (hc.symm.trans ha))
      exact ⟨a, (clients_put_of_ne d hne _ _).trans ha⟩
    · intro hh
      obtain ⟨a, ha⟩ := hh
      obtain ⟨hne, ha⟩ := owning_of_put hstate ha
      refine ⟨⟨a, ha⟩, ?_⟩
      intro hh
      subst hh
      exact hne (h.exclusive job a c ha hc)

theorem Sound.grant {d : Desk C} (h : d.Sound) {c : C} (hc : d.clients c = .idle) {now : Instant}
    {job : String} {s : Suspended} (hs : (d.table.claim now job).1 = .owned s) :
    (d.put c (.owning job) (d.table.claim now job).2).Sound := by
  have free : ¬ d.table.Claimed job := by
    rw [← JobTable.claimed_evict h.ordered now]
    intro hh
    obtain ⟨r, hr⟩ := hh
    cases hr.symm.trans (JobTable.claim_eq_owned.mp hs)
  have idle (e : C) (j : String) (he : d.clients e = .owning j) : e ≠ c := by
    intro hh
    subst hh
    cases hc.symm.trans he
  have others (e : C) (j : String)
      (he : (d.put c (.owning job) (d.table.claim now job).2).clients e = .owning j) :
      e = c ∧ j = job ∨ d.clients e = .owning j ∧ j ≠ job := by
    by_cases hec : e = c
    · subst hec
      rw [clients_put_self] at he
      exact .inl ⟨rfl, (Client.owning.inj he).symm⟩
    · rw [clients_put_of_ne d hec] at he
      refine .inr ⟨he, ?_⟩
      intro hh
      subst hh
      apply free
      exact (h.claimed_iff j).mpr ⟨e, he⟩
  refine ⟨h.ordered.claim now job, ?_, ?_⟩
  · intro j a b ha hb
    rcases others a j ha with ⟨rfl, hj⟩ | ⟨ha, hj⟩
    · rcases others b j hb with ⟨rfl, -⟩ | ⟨-, hne⟩
      · rfl
      · exact absurd hj hne
    · rcases others b j hb with ⟨-, hj'⟩ | ⟨hb, -⟩
      · exact absurd hj' hj
      · exact h.exclusive j a b ha hb
  · intro j
    change (d.table.claim now job).2.Claimed j ↔ _
    rw [JobTable.claim_owned hs, JobTable.claimed_put_resuming, JobTable.claimed_evict h.ordered,
      h.claimed_iff]
    constructor
    · intro hh
      rcases hh with rfl | ⟨e, he⟩
      · exact ⟨c, clients_put_self ..⟩
      · exact ⟨e, (clients_put_of_ne d (idle e j he) _ _).trans he⟩
    · intro hh
      obtain ⟨e, he⟩ := hh
      rcases others e j he with ⟨-, hj⟩ | ⟨he, -⟩
      · exact .inl hj.symm
      · exact .inr ⟨e, he⟩

theorem Sound.refuse {d : Desk C} (h : d.Sound) {c : C} (hc : d.clients c = .idle) {now : Instant}
    {job : String} (hs : ∀ s, (d.table.claim now job).1 ≠ .owned s) :
    (d.put c .idle (d.table.claim now job).2).Sound := by
  have same : (d.put c .idle (d.table.claim now job).2).clients = d.clients := by
    rw [← hc]
    exact Function.update_eq_self ..
  refine ⟨h.ordered.claim now job, ?_, ?_⟩
  · rw [Exclusive, same]
    exact h.exclusive
  · intro j
    rw [same, ← h.claimed_iff, ← JobTable.claimed_evict h.ordered now,
      ← JobTable.claim_not_owned hs]
    rfl

theorem Sound.claim {d : Desk C} (h : d.Sound) {c : C} (hc : d.clients c = .idle)
    (now : Instant) (job : String) :
    (d.put c (claimed job (d.table.claim now job).1) (d.table.claim now job).2).Sound := by
  by_cases howned : ∃ s, (d.table.claim now job).1 = .owned s
  · obtain ⟨s, hs⟩ := howned
    have granted : claimed job (d.table.claim now job).1 = .owning job := by
      rw [hs]
      rfl
    rw [granted]
    exact h.grant hc hs
  · have hs : ∀ s, (d.table.claim now job).1 ≠ .owned s := by
      intro s hs
      apply howned
      exact ⟨s, hs⟩
    have refused : claimed job (d.table.claim now job).1 = .idle := by
      unfold claimed
      split
      · rename_i s h
        exact absurd h (hs s)
      · rfl
    rw [refused]
    exact h.refuse hc hs

/-- A client that owns nothing any more drops a claim that nobody has taken over. -/
theorem Sound.drop_settled {d : Desk C} (h : d.Sound) {c : C} {job : String}
    (hc : d.clients c = .settled job) (hfree : ∀ e, d.clients e ≠ .owning job) :
    (d.put c .idle (d.table.restore job)).Sound := by
  have unclaimed : ¬ d.table.Claimed job := by
    rw [h.claimed_iff]
    intro hh
    obtain ⟨e, he⟩ := hh
    exact hfree e he
  have same : d.table.restore job = d.table :=
    JobTable.restore_of_not_resuming fun s hs => unclaimed ⟨s, hs⟩
  rw [same]
  refine ⟨h.ordered, fun j a b ha hb => ?_, fun j => ?_⟩
  · obtain ⟨-, ha⟩ := owning_of_put (by simp) ha
    obtain ⟨-, hb⟩ := owning_of_put (by simp) hb
    exact h.exclusive j a b ha hb
  · change d.table.Claimed j ↔ _
    rw [h.claimed_iff]
    constructor
    · intro hh
      obtain ⟨e, he⟩ := hh
      have hne : e ≠ c := by
        intro hh
        subst hh
        cases hc.symm.trans he
      exact ⟨e, (clients_put_of_ne d hne _ _).trans he⟩
    · intro hh
      obtain ⟨e, he⟩ := hh
      exact ⟨e, (owning_of_put (by simp) he).2⟩

theorem Sound.step {d e : Desk C} (h : d.Sound) {call : Call C} (hlate : ¬ d.Late call)
    (hstep : d.step? call = some e) : e.Sound := by
  cases call with
  | suspend now s =>
    cases hstep
    have claimed_iff (job : String) := JobTable.claimed_suspend h.ordered now s job
    exact ⟨h.ordered.suspend now s, h.exclusive, fun job =>
      (claimed_iff job).trans (h.claimed_iff job)⟩
  | claim c now job =>
    simp only [step?] at hstep
    split at hstep
    · rename_i hc
      cases hstep
      exact h.claim hc now job
    · cases hstep
  | release c s =>
    simp only [step?] at hstep
    split at hstep
    · rename_i hc
      cases hstep
      exact h.give hc (by simp) (h.ordered.put _ _) fun j =>
        JobTable.claimed_put_of_ne _ _ _ (by simp)
    · cases hstep
  | forward c now next =>
    simp only [step?] at hstep
    split at hstep
    · rename_i job hc
      cases hstep
      exact h.give hc (by simp) (h.ordered.put _ _) fun j =>
        JobTable.claimed_put_of_ne _ _ _ (by simp)
    · cases hstep
  | finish c now status =>
    simp only [step?] at hstep
    split at hstep
    · rename_i job hc
      cases hstep
      exact h.give hc (by simp) (h.ordered.put _ _) fun j =>
        JobTable.claimed_put_of_ne _ _ _ (by simp)
    · cases hstep
  | drop c =>
    simp only [step?] at hstep
    split at hstep
    · cases hstep
    · rename_i job hc
      cases hstep
      exact h.give hc (by simp) (h.ordered.restore _) fun j => JobTable.claimed_restore _ _ _
    · rename_i job hc
      cases hstep
      exact h.drop_settled hc fun e he => hlate ⟨c, e, job, rfl, hc, he⟩

/-- A job has one owner at most, and so it is after any claim that may come next. -/
def Safe (d : Desk C) : Prop :=
  d.Exclusive ∧ ∀ c now job e, d.step? (.claim c now job) = some e → e.Exclusive

theorem Sound.safe {d : Desk C} (h : d.Sound) : d.Safe :=
  ⟨h.exclusive, fun c now job _ he => (h.step (not_late_claim d c now job) he).exclusive⟩

theorem Sound.not_safe_of_late {d : Desk C} (h : d.Sound) {call : Call C} (hlate : d.Late call) :
    ∃ e, d.step? call = some e ∧ ¬ e.Safe := by
  obtain ⟨c, a, job, rfl, hc, ha⟩ := hlate
  have hne : a ≠ c := by
    intro hh
    subst hh
    cases hc.symm.trans ha
  obtain ⟨s, hs⟩ := (h.claimed_iff job).mpr ⟨a, ha⟩
  let f := d.put c .idle (d.table.restore job)
  refine ⟨f, by simp only [step?, hc]; rfl, ?_⟩
  intro hsafe
  have parked : f.table.find? job = some (.suspended s) := by
    change (d.table.restore job).find? job = _
    rw [JobTable.restore_resuming hs, JobTable.find?_put, if_pos rfl]
  have live : (JobEntry.suspended s).isLive := rfl
  have owned : (f.table.claim 0 job).1 = .owned s :=
    JobTable.claim_eq_owned.mpr
      (JobTable.find?_evict_live (h.ordered.restore job) live parked 0)
  have idle : f.clients c = .idle := clients_put_self ..
  have step : f.step? (.claim c 0 job) = some (f.put c (.owning job) (f.table.claim 0 job).2) := by
    simp only [step?, idle, owned, claimed]
  have exclusive := hsafe.2 c 0 job _ step
  have first : (f.put c (.owning job) (f.table.claim 0 job).2).clients a = .owning job := by
    rw [clients_put_of_ne f hne, clients_put_of_ne d hne, ha]
  exact hne (exclusive job a c first (clients_put_self ..))

theorem run?_cons (d : Desk C) (call : Call C) (calls : List (Call C)) :
    d.run? (call :: calls) = (d.step? call).bind fun e => e.run? calls := rfl

theorem Sound.prompt_iff {d : Desk C} (h : d.Sound) (calls : List (Call C)) :
    d.Prompt calls ↔ ∀ pre, pre <+: calls → ∀ e, d.run? pre = some e → e.Safe := by
  induction calls generalizing d with
  | nil =>
    apply iff_of_true trivial
    intro pre hpre e he
    rw [List.prefix_nil.mp hpre] at he
    cases he
    exact h.safe
  | cons call calls ih =>
    constructor
    · rintro ⟨hlate, hrest⟩ pre hpre e he
      rcases List.prefix_cons_iff.mp hpre with rfl | ⟨more, rfl, hmore⟩
      · cases he
        exact h.safe
      · rw [run?_cons, Option.bind_eq_some_iff] at he
        obtain ⟨f, hf, he⟩ := he
        exact (ih (h.step hlate hf)).mp (hrest f hf) more hmore e he
    · intro hsafe
      have hlate : ¬ d.Late call := by
        intro hlate
        obtain ⟨e, he, hbad⟩ := h.not_safe_of_late hlate
        have hrun : d.run? [call] = some e := by rw [run?_cons, he]; rfl
        exact hbad (hsafe [call] (List.prefix_cons_iff.mpr (.inr ⟨[], rfl, by simp⟩)) e hrun)
      refine ⟨hlate, fun f hf => (ih (h.step hlate hf)).mpr ?_⟩
      intro pre hpre e he
      refine hsafe (call :: pre) (List.cons_prefix_cons.mpr ⟨rfl, hpre⟩) e ?_
      rw [run?_cons, hf]
      exact he

/-- The claims of a run are exclusive, whoever claims next, exactly when no drop is late. -/
theorem safe_iff_prompt (ttl : Span) (calls : List (Call C)) :
    (∀ pre, pre <+: calls → ∀ d, (init C ttl).run? pre = some d → d.Safe) ↔
      (init C ttl).Prompt calls := ((sound_init ttl).prompt_iff calls).symm

def waiting : Suspended where
  handle := ⟨"job-1", "tool-job-1", "e-1", "trace-1", "report", "s1", ⟨"srv", "op"⟩, ⟨0, 0⟩⟩
  playbook := ⟨"report", "1.0.0", "Report", "", .userWorkflow, none, "en", ["en"], "en",
    [⟨"srv", "op"⟩], [], [], [], [], "score", [], []⟩
  execution := .init "e-1" "trace-1" "report" [] ⟨0, 0⟩

/-- The first client drops its claim only after the second one has claimed the job. -/
def lateDrop : List (Call String) :=
  [.suspend 0 waiting, .claim "a" 0 "job-1", .release "a" waiting, .claim "b" 0 "job-1",
    .drop "a", .claim "c" 0 "job-1"]

theorem not_exclusive_after_lateDrop :
    ∃ d, (init String JobTable.defaultTtl).run? lateDrop = some d ∧ ¬ d.Exclusive := by
  refine ⟨_, rfl, ?_⟩
  intro h
  have : "b" = "c" := h "job-1" "b" "c" (by decide) (by decide)
  simp at this

end Desk

end PlaybookEngine
