import PlaybookEngine.Proofs.Engine.Segments
import PlaybookEngine.Proofs.Engine.Suspension
import PlaybookEngine.Proofs.Tool.Logged

namespace PlaybookEngine

/-- The end of a job tells what a straight run came to. -/
inductive JobStatus.Tells : JobStatus → Except Failure Invocation → Prop
  | completed {r r' : ExecutionResult} (same : r.untimed = r'.untimed) :
    Tells (.completed r) (.ok (.completed r'))
  | failed {f : Failure} : Tells (.failed f) (.error f)

namespace World

open Engine ToolServer

section Supply

variable {T S : Type} [IdSource S] {w w₂ : World T S} {n : Nat}

/-- The next ids differ, and no job has one of them. -/
structure Unused (w : World T S) (n : Nat) : Prop where
  nodup : (IdSource.upcoming w.ids n).Nodup
  free : ∀ k ∈ IdSource.upcoming w.ids n, w.jobs.find? k = none

theorem Unused.head (h : w.Unused n) (hn : 0 < n) :
    w.jobs.find? (IdSource.fresh w.ids).1 = none := by
  cases n with
  | zero => cases hn
  | succ n => exact h.free _ List.mem_cons_self

theorem Unused.mono {m : Nat} (h : w.Unused n) (hm : m ≤ n) : w.Unused m :=
  have sub := IdSource.upcoming_sublist w.ids hm
  ⟨h.nodup.sublist sub, fun k hk => h.free k (sub.subset hk)⟩

theorem Unused.congr (h : w.Unused n) (hids : w₂.ids = w.ids)
    (hjobs : ∀ k, w.jobs.find? k = none → w₂.jobs.find? k = none) : w₂.Unused n := by
  refine ⟨hids ▸ h.nodup, fun k hk => hjobs k (h.free k ?_)⟩
  rwa [hids] at hk

theorem Unused.tail (h : w.Unused (n + 1)) (hids : w₂.ids = (IdSource.fresh w.ids).2)
    (hjobs : ∀ k, k ≠ (IdSource.fresh w.ids).1 → w.jobs.find? k = none →
      w₂.jobs.find? k = none) : w₂.Unused n := by
  obtain ⟨hhead, htail⟩ := List.nodup_cons.mp h.nodup
  refine ⟨hids ▸ htail, ?_⟩
  intro k hk
  rw [hids] at hk
  exact hjobs k (fun heq => hhead (heq ▸ hk)) (h.free k (List.mem_cons_of_mem _ hk))

end Supply

section Queries

variable {T S : Type} [ToolServer T] [IdSource S]

/-- The queries of a job, each after any wait that leaves it in time: finitely many tell that the
execution goes on, and then one tells how it ended. -/
inductive Leads (g : Engine) (id : String) (P : JobStatus → World T S → Prop) :
    Instant → World T S → Prop
  | query {now : Instant} {w : World T S}
    (answers : ∀ d, w.jobs.InTime (now + d) id →
      ∃ status, (w.query g (now + d) id).1 = .ok status ∧
        ((∃ job, status = .pending job) ∨ P status (w.query g (now + d) id).2.2))
    (goesOn : ∀ d job, w.jobs.InTime (now + d) id →
      (w.query g (now + d) id).1 = .ok (.pending job) →
        Leads g id P (w.query g (now + d) id).2.1 (w.query g (now + d) id).2.2) :
    Leads g id P now w

variable {g : Engine} {id : String} {now : Instant} {w : World T S}

variable {s : Suspended} {path : List String} {now' : Instant}

end Queries

section Straight

variable {T T' S S' : Type} [ToolServer T] [ToolServer T'] [IdSource S] [IdSource S']
variable {R : T → T' → Prop} {g : Engine} {id : String} {now now₁ now' : Instant} {n : Nat}
variable {w : World T S} {w' : World T' S'} {s : Suspended} {path : List String}
variable {x : Except ToolError ToolResponse}
variable {z : Except Failure Invocation × Instant × World T' S'}

/-- A run comes to what the straight run came to, at once or through the queries of the job that it
hands out. -/
def RunFollows (g : Engine) (R : T → T' → Prop)
    (y : Except Failure Invocation × Instant × World T S)
    (z : Except Failure Invocation × Instant × World T' S') : Prop :=
  match y with
  | (.ok (.dispatched job), now, w) =>
    Leads g job.jobId (fun status w => status.Tells z.1 ∧ R w.tools z.2.2.tools) now w
  | (.ok (.completed r), _, w) => (JobStatus.completed r).Tells z.1 ∧ R w.tools z.2.2.tools
  | (.error f, _, w) => (JobStatus.failed f).Tells z.1 ∧ R w.tools z.2.2.tools

/-- An invocation and a straight one both have an answer, and the one comes to what the other came
to. -/
def Follows (g : Engine) (R : T → T' → Prop)
    (y : Except Panic (Except Failure Invocation) × Instant × World T S)
    (z : Except Panic (Except Failure Invocation) × Instant × World T' S') : Prop :=
  ∃ run straight, y = (.ok run.1, run.2) ∧ z = (.ok straight.1, straight.2) ∧
    RunFollows g R run straight

end Straight

/-- Tools that hand out a job for each call; it ends on the second question. -/
structure Deferring where
  asked : Nat

instance : ToolServer Deferring where
  call _ _ _ _ := (⟨0, .ok (.dispatched "job")⟩, ⟨0⟩)
  poll t _ _ _ := (⟨1, .ok (if t.asked = 0 then .running else .completed (.obj []))⟩, ⟨t.asked + 1⟩)

/-- Tools that give at once what the jobs of the deferring ones come to. -/
structure Prompt where

instance : ToolServer Prompt where
  call t _ _ _ := (⟨0, .ok (.completed (.obj []))⟩, t)
  poll t _ _ job := (⟨0, .error (.unknownJob job)⟩, t)

def twoSteps : Playbook where
  code := "review"
  version := "1.0.0"
  name := "Review"
  description := ""
  kind := .userWorkflow
  capabilityCode := none
  locale := "en"
  supportedLocales := ["en"]
  defaultLocale := "en"
  requiredTools := [⟨"writer", "write"⟩, ⟨"critic", "read"⟩]
  optionalTools := []
  steps := [⟨"draft", "", ⟨"writer", "write"⟩, none, true, [], none⟩,
    ⟨"review", "", ⟨"critic", "read"⟩, none, true, [], none⟩]
  inputSchema := []
  outputSchema := []
  primaryScore := "score"
  tags := []
  sections := []

def reviewEngine : Engine := ⟨.ofPlaybooks "en" [twoSteps], .default, .default⟩

def reviewWorld {T : Type} (tools : T) : World (Logged T) where
  tools := ⟨tools, []⟩
  store := .memory .empty
  jobs := .empty JobTable.defaultTtl
  ids := ⟨0⟩

end World

end PlaybookEngine
