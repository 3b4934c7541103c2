import PlaybookEngine.Engine.Invocation
import PlaybookEngine.Engine.Query
import PlaybookEngine.Engine.Identifier
import PlaybookEngine.Tool.Set

namespace PlaybookEngine

/-- Tools that can be called and asked for jobs. An answer may depend on the time and on all that
was asked before. -/
class ToolServer (T : Type) where
  call : T → Instant → ToolRef → Json → Scripted (Except ToolError ToolResponse) × T
  poll : T → Instant → ToolRef → String → Scripted (Except ToolError JobState) × T

instance : ToolServer ToolSet := ⟨fun t _ => t.call, fun t _ => t.poll⟩

/-- A reply after a span of time. -/
def Instant.after (now : Instant) (d : Span) : Option Instant := if d = 0 then none else some (now + d)

/-- A call that takes longer than its limit is given up there. -/
def ToolServer.surroundings {T : Type} [ToolServer T] : Surroundings Tooling T := fun now r t =>
  match r with
  | .now => ⟨Timestamp.ofNanos now, none, t⟩
  | .sleep d => ⟨(), now.after d, t⟩
  | .call tool params limit =>
    let (a, t) := call t now tool params
    let reply := if a.delay ≤ limit then a.answer else .error (.timeout limit)
    ⟨reply, now.after (min a.delay limit), t⟩
  | .poll tool job =>
    let (a, t) := poll t now tool job
    ⟨a.answer, now.after a.delay, t⟩

/-- A store of artifacts that an engine can work with. -/
class StoreServer (A : Type) where
  answer : A → (r : StoreRequest) → r.Reply × A
  /-- It reads and writes elsewhere, so that one goes on only after a pause. -/
  isRemote : A → Bool

instance : StoreServer ArtifactStore := ⟨ArtifactStore.answer, ArtifactStore.isFiles⟩

/-- Something that hands out identifiers. -/
class IdSource (S : Type) where
  fresh : S → String × S
  /-- The numbers of the tasks of the items of a batch that begins. -/
  task : S → Nat → Nat := fun _ i => i + 1

instance : IdSource Identifier.Supply where
  fresh := Identifier.Supply.fresh

/-- What an engine works in; the clock beside it moves only while somebody waits. -/
structure World (T : Type := ToolSet) (S : Type := Identifier.Supply)
    (A : Type := ArtifactStore) where
  tools : T
  store : A
  jobs : JobTable
  ids : S

namespace World

variable {T S A : Type}

def answerTool [ToolServer T] (w : World T S A) (now : Instant) (r : ToolRequest) :
    Answer Working (World T S A) (.tool r) :=
  let x := ToolServer.surroundings now r w.tools
  ⟨x.reply, x.arrival, { w with tools := x.world }⟩

def storePause [StoreServer A] (w : World T S A) (now : Instant) : Option Instant :=
  if StoreServer.isRemote w.store then some now else none

def answerStore [StoreServer A] (w : World T S A) (now : Instant) (r : StoreRequest) :
    Answer Working (World T S A) (.store r) :=
  let (x, store) := StoreServer.answer w.store r
  ⟨x, w.storePause now, { w with store := store }⟩

def answerJob (w : World T S A) (now : Instant) :
    (r : JobRequest) → Answer Working (World T S A) (.job r)
  | .suspend s =>
    let (x, jobs) := w.jobs.suspend now s
    ⟨x, none, { w with jobs := jobs }⟩
  | .release s => ⟨(), none, { w with jobs := w.jobs.release s }⟩
  | .forward id next => ⟨(), none, { w with jobs := w.jobs.forward now id next }⟩
  | .finish id status => ⟨(), none, { w with jobs := w.jobs.finish now id status }⟩

/-- Drops the claim on a job. -/
def dropClaim (w : World T S A) (job : String) : World T S A :=
  { w with jobs := w.jobs.restore job }

variable [ToolServer T] [IdSource S] [StoreServer A]

def surroundings : Surroundings Working (World T S A) := fun now r w =>
  match r with
  | .freshId =>
    let (id, ids) := IdSource.fresh w.ids
    ⟨id, none, { w with ids := ids }⟩
  | .tool r => w.answerTool now r
  | .store r => w.answerStore now r
  | .job r => w.answerJob now r

/-- Executes a playbook. A batch panics whose limits are beyond what the machine can count. -/
def execute (w : World T S A) (g : Engine) (now : Instant) (code locale : String) (raw : Fields Json) :
    Except Panic (Except Failure Invocation) × Instant × World T S A :=
  match (g.execute code locale raw).run surroundings now w with
  | (.answered r, now, w) => (.ok r, now, w)
  | (.batch items conclude, now, w) =>
    match Batch.process g.batch (IdSource.task w.ids) surroundings items now w with
    | .error why => (.error why, now, w)
    | .ok (results, now, w) => (.ok (.ok (.completed (conclude results (.ofNanos now)))), now, w)

def beginQuery (w : World T S A) (g : Engine) (now : Instant) (id : String) : Query × World T S A :=
  let (q, jobs) := g.query w.jobs now id
  (q, { w with jobs := jobs })

/-- Queries a job. -/
def query (w : World T S A) (g : Engine) (now : Instant) (id : String) :
    Except Failure JobStatus × Instant × World T S A :=
  match w.beginQuery g now id with
  | (.answered r, w) => (r, now, w)
  | (.resuming job rest, w) =>
    let (status, now, w) := rest.run surroundings now w
    (.ok status, now, w.dropClaim job)

/-- After so many answers of a store in memory one goes on only after a pause. -/
def turnLength : Nat := 128

/-- Gives an activity up when it is blocked at the limit; a reply that arrives right at the limit
still counts. The store answers `left` more requests before a pause; a request that it has not
answered at the limit is not carried out. -/
def runUntil {α : Type} (limit : Instant) :
    (left : Nat) → Activity Working α → Instant → World T S A → Option α × Instant × World T S A
  | _, .done a, now, w => (some a, now, w)
  | left, .ask r next, now, w =>
    let x := surroundings now r w
    let goOn := fun left => runUntil limit left (next x.reply) (x.arrival.getD now) x.world
    match r, x.arrival with
    | .store _, none =>
      if 0 < left then goOn (left - 1)
      else if limit ≤ now then (none, now, w)
      else goOn (turnLength - 1)
    | .store _, some _ => if limit ≤ now then (none, now, w) else goOn turnLength
    | _, none => goOn left
    | _, some t =>
      if limit ≤ now ∨ limit < t then (none, max now limit, x.world) else goOn (turnLength - 1)

/-- Queries a job; none when the query is given up at the limit. -/
def queryUntil (w : World T S A) (g : Engine) (now limit : Instant) (id : String) :
    Option (Except Failure JobStatus) × Instant × World T S A :=
  match w.beginQuery g now id with
  | (.answered r, w) => (some r, now, w)
  | (.resuming job rest, w) =>
    let (status, now, w) := runUntil limit turnLength rest now w
    (status.map .ok, now, w.dropClaim job)

/-- Two queries at once: the second one begins when the first has ended or is blocked. While the
first is blocked it holds its claim, so the second finds the job busy and ends at once. -/
def queryBoth (w : World T S A) (g : Engine) (now : Instant) (id : String) :
    (Except Failure JobStatus × Except Failure JobStatus) × Instant × World T S A :=
  let alone := fun (first : Except Failure JobStatus) (w : World T S A) =>
    let (second, now, w) := w.query g now id
    ((first, second), now, w)
  match w.beginQuery g now id with
  | (.answered r, w) => alone r w
  | (.resuming job rest, w) =>
    match rest.advance surroundings now w with
    | (.ended status, w) => alone (.ok status) (w.dropClaim job)
    | (.blocked t rest, w) =>
      let (second, _, w) := w.query g now id
      let (status, now, w) := rest.run surroundings t w
      ((.ok status, second), now, w.dropClaim job)

end World

end PlaybookEngine
