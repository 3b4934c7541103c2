import PlaybookEngine.Activity.Timed
import PlaybookEngine.Engine.Result

namespace PlaybookEngine

/-- An execution that waits for a job. -/
structure Suspended where
  handle : JobHandle
  playbook : Playbook
  execution : Execution

inductive JobEntry
  | suspended (s : Suspended)
  /-- Claimed by a query; the execution is kept as it was parked. -/
  | resuming (s : Suspended)
  /-- The execution moved on to another job. -/
  | forwarded (next : String) (since : Instant)
  | finished (status : JobStatus) (since : Instant)

namespace JobEntry

def settledAt? : JobEntry → Option Instant
  | .suspended _ => none
  | .resuming _ => none
  | .forwarded _ since => some since
  | .finished _ since => some since

end JobEntry

/-- The answer to a claim. -/
inductive Claim
  | unknown
  /-- Another query has claimed the job. -/
  | busy (job : JobHandle)
  | forwarded (next : String)
  | finished (status : JobStatus)
  | owned (s : Suspended)

structure JobTable where
  entries : Fields JobEntry
  /-- How long settled entries are kept. -/
  resultTtl : Span

namespace JobTable

def empty (resultTtl : Span) : JobTable := ⟨[], resultTtl⟩

def defaultTtl : Span := Span.ofSecs 3600

def isFresh (ttl : Span) (now : Instant) (e : JobEntry) : Bool :=
  match e.settledAt? with
  | some since => now - since < ttl
  | none => true

def evict (t : JobTable) (now : Instant) : JobTable :=
  { t with entries := t.entries.filter fun p => isFresh t.resultTtl now p.2 }

def put (t : JobTable) (id : String) (e : JobEntry) : JobTable :=
  { t with entries := Fields.insert id e t.entries }

/-- Parks an execution under its job's id, unless the id is taken. -/
def suspend (t : JobTable) (now : Instant) (s : Suspended) : Bool × JobTable :=
  let t := t.evict now
  match Fields.get? s.handle.jobId t.entries with
  | some _ => (false, t)
  | none => (true, t.put s.handle.jobId (.suspended s))

def claim (t : JobTable) (now : Instant) (id : String) : Claim × JobTable :=
  let t := t.evict now
  match Fields.get? id t.entries with
  | none => (.unknown, t)
  | some (.resuming s) => (.busy s.handle, t)
  | some (.forwarded next _) => (.forwarded next, t)
  | some (.finished status _) => (.finished status, t)
  | some (.suspended s) => (.owned s, t.put id (.resuming s))

/-- Puts a claimed execution back as it was; nothing happens when it was settled. -/
def restore (t : JobTable) (id : String) : JobTable :=
  match Fields.get? id t.entries with
  | some (.resuming s) => t.put id (.suspended s)
  | _ => t

/-- Parks a claimed execution whose job is still running. -/
def release (t : JobTable) (s : Suspended) : JobTable := t.put s.handle.jobId (.suspended s)

/-- The execution of job `id` now waits for job `next`. -/
def forward (t : JobTable) (now : Instant) (id next : String) : JobTable :=
  t.put id (.forwarded next now)

def finish (t : JobTable) (now : Instant) (id : String) (status : JobStatus) : JobTable :=
  t.put id (.finished status now)

/-- How many executions are parked or claimed. -/
def outstanding (t : JobTable) : Nat := t.entries.countP fun p => p.2.settledAt?.isNone

/-- How many settled entries have not expired. -/
def settled (t : JobTable) (now : Instant) : Nat × JobTable :=
  let t := t.evict now
  (t.entries.countP fun p => p.2.settledAt?.isSome, t)

/-- Claims the job that a job leads to through `links` links at most, and tells which one it is. -/
def claimLast : (links : Nat) → JobTable → Instant → String → String × Claim × JobTable
  | links, t, now, id =>
    match t.claim now id, links with
    | (.forwarded next, t), links + 1 => claimLast links t now next
    | (.forwarded _, t), 0 => (id, .unknown, t)
    | (c, t), _ => (id, c, t)

/-- Claims the job that a job leads to. There are no more links than entries. -/
def claimCurrent (t : JobTable) (now : Instant) (id : String) : String × Claim × JobTable :=
  claimLast t.entries.length t now id

end JobTable

end PlaybookEngine
