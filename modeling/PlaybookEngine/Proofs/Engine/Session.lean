import PlaybookEngine.Proofs.Engine.Stages
import PlaybookEngine.Proofs.Engine.Surroundings
import Mathlib.Logic.Function.Basic

namespace PlaybookEngine

/-- The calls of an engine in the guise of another interface. Each request stands for one of the
engine's, and with nothing but those the work is that of the engine. -/
structure Guise (I : Interface) where
  send : I.Request → Working.Request
  receive : (r : I.Request) → Working.Reply (send r) → I.Reply r
  execute : Engine → String → String → Fields Json → Activity I Plan
  resume : StepSettings → Suspended → Activity I JobStatus
  through_execute : ∀ g code locale raw,
    (execute g code locale raw).through send receive = g.execute code locale raw
  through_resume : ∀ settings s,
    (resume settings s).through send receive = Engine.resume settings s

/-- What a client is at. -/
inductive Caller (I : Interface)
  | idle
  | executing (rest : Activity I Plan)
  | executed (r : Except Failure Invocation)
  /-- The query holds the claim on the job. -/
  | querying (job : String) (rest : Activity I JobStatus)
  | queried (r : Except Failure JobStatus)

structure Session (I : Interface) (T S C : Type) where
  world : World T S
  now : Instant
  clients : C → Caller I

inductive Event (C : Type)
  /-- Time passes. -/
  | wait (d : Span)
  /-- A client begins to execute a playbook, not as a batch. -/
  | execute (c : C) (code locale : String) (raw : Fields Json)
  /-- A client begins to query a job. -/
  | query (c : C) (id : String)
  /-- The next request of a client is answered, or its call returns. -/
  | proceed (c : C)
  /-- The call of a client is given up. -/
  | abandon (c : C)

namespace Guise

theorem through_id {I : Interface} {α : Type} (p : Activity I α) :
    p.through (fun r => r) (fun _ x => x) = p := by
  induction p with
  | done a => rfl
  | ask r next ih => exact congrArg (Activity.ask r) (funext ih)

def bare : Guise Working where
  send r := r
  receive _ x := x
  execute := Engine.execute
  resume := Engine.resume
  through_execute _ _ _ _ := through_id _
  through_resume _ _ := through_id _

def staged : Guise Working.Staged where
  send r := r.2
  receive _ x := x
  execute := Engine.Staged.execute
  resume := Engine.Staged.resume
  through_execute := Engine.Staged.plain_execute
  through_resume := Engine.Staged.plain_resume

variable {I : Interface} (A : Guise I)

/-- Begins a query: it is answered at once, or it holds a claim. -/
def query (g : Engine) (t : JobTable) (now : Instant) (id : String) : Caller I × JobTable :=
  match t.claimCurrent now id with
  | (_, .unknown, t) => (.queried (.error ((EngineError.jobNotFound id).toFailure none)), t)
  | (_, .forwarded _, t) => (.queried (.error ((EngineError.jobNotFound id).toFailure none)), t)
  | (_, .busy job, t) => (.queried (.ok (.pending job)), t)
  | (_, .finished status, t) => (.queried (.ok status), t)
  | (job, .owned s, t) => (.querying job (A.resume g.steps s), t)

end Guise

namespace Caller

variable {I : Interface}

def isFree : Caller I → Bool
  | .executing _ => false
  | .querying _ _ => false
  | _ => true

/-- The request that the client makes next. -/
def request? : Caller I → Option I.Request
  | .executing (.ask r _) => some r
  | .querying _ (.ask r _) => some r
  | _ => none

/-- The result of a completed execution that the client was told. -/
def result? : Caller I → Option ExecutionResult
  | .executed (.ok (.completed r)) => some r
  | .queried (.ok (.completed r)) => some r
  | _ => none

/-- What the client is at with nothing but the requests of the engine. -/
def bare (A : Guise I) : Caller I → Caller Working
  | .idle => .idle
  | .executing rest => .executing (rest.through A.send A.receive)
  | .executed r => .executed r
  | .querying job rest => .querying job (rest.through A.send A.receive)
  | .queried r => .queried r

end Caller

theorem Caller.isFree_bare {I : Interface} (A : Guise I) (x : Caller I) :
    (x.bare A).isFree = x.isFree := by
  cases x <;> rfl

theorem Caller.result?_bare {I : Interface} (A : Guise I) (x : Caller I) :
    (x.bare A).result? = x.result? := by
  cases x with
  | executed r => rcases r with f | r | job <;> rfl
  | queried r => rcases r with f | job | r | f <;> rfl
  | _ => rfl

def Query.caller : Query → Caller Working
  | .answered r => .queried r
  | .resuming job rest => .querying job rest

theorem Guise.query_bare (g : Engine) (t : JobTable) (now : Instant) (id : String) :
    Guise.bare.query g t now id = ((g.query t now id).1.caller, (g.query t now id).2) := by
  unfold Guise.query Engine.query
  rcases t.claimCurrent now id with ⟨job, claim, t⟩
  cases claim <;> rfl

theorem Guise.bare_query {I : Interface} (A : Guise I) (g : Engine) (t : JobTable) (now : Instant)
    (id : String) :
    ((A.query g t now id).1.bare A, (A.query g t now id).2) = Guise.bare.query g t now id := by
  unfold Guise.query
  rcases t.claimCurrent now id with ⟨job, claim, t⟩
  cases claim with
  | owned s =>
    have resumed := A.through_resume g.steps s
    exact congrArg (fun rest => (Caller.querying job rest, t)) resumed
  | unknown => rfl
  | busy job => rfl
  | forwarded next => rfl
  | finished status => rfl

namespace Session

variable {I : Interface} {T S C : Type}

def init (w : World T S) (now : Instant) : Session I T S C := ⟨w, now, fun _ => .idle⟩

def bare (A : Guise I) (σ : Session I T S C) : Session Working T S C :=
  ⟨σ.world, σ.now, fun c => (σ.clients c).bare A⟩

variable [DecidableEq C]

def put (σ : Session I T S C) (c : C) (x : Caller I) (w : World T S) : Session I T S C :=
  ⟨w, σ.now, Function.update σ.clients c x⟩

variable [ToolServer T] [IdSource S]

/-- The session after an event; none when the event cannot happen. -/
def step? (A : Guise I) (g : Engine) (σ : Session I T S C) : Event C → Option (Session I T S C)
  | .wait d => some { σ with now := σ.now + d }
  | .execute c code locale raw =>
    if (σ.clients c).isFree then
      match Engine.requestedMode raw with
      | .ok .batch => none
      | _ => some (σ.put c (.executing (A.execute g code locale raw)) σ.world)
    else none
  | .query c id =>
    if (σ.clients c).isFree then
      let (x, jobs) := A.query g σ.world.jobs σ.now id
      some (σ.put c x { σ.world with jobs := jobs })
    else none
  | .proceed c =>
    match σ.clients c with
    | .executing (.done (.answered r)) => some (σ.put c (.executed r) σ.world)
    | .executing (.ask r next) =>
      let x := World.surroundings σ.now (A.send r) σ.world
      some (σ.put c (.executing (next (A.receive r x.reply))) x.world)
    | .querying job (.done status) =>
      some (σ.put c (.queried (.ok status)) (σ.world.dropClaim job))
    | .querying job (.ask r next) =>
      let x := World.surroundings σ.now (A.send r) σ.world
      some (σ.put c (.querying job (next (A.receive r x.reply))) x.world)
    | _ => none
  | .abandon c =>
    match σ.clients c with
    | .executing _ => some (σ.put c .idle σ.world)
    | .querying job _ => some (σ.put c .idle (σ.world.dropClaim job))
    | _ => none

def run? (A : Guise I) (g : Engine) : Session I T S C → List (Event C) → Option (Session I T S C)
  | σ, [] => some σ
  | σ, ev :: rest => (σ.step? A g ev).bind fun σ => σ.run? A g rest

omit [ToolServer T] [IdSource S] in
theorem bare_put (A : Guise I) (σ : Session I T S C) (c : C) (x : Caller I) (w : World T S) :
    (σ.put c x w).bare A = (σ.bare A).put c (x.bare A) w := by
  simp only [put, bare, Session.mk.injEq, true_and]
  exact (Function.comp_update (Caller.bare A) σ.clients c x)

omit [ToolServer T] [IdSource S] [DecidableEq C] in
theorem bare_init (A : Guise I) (w : World T S) (now : Instant) :
    (init w now : Session I T S C).bare A = init w now := rfl

/-- With nothing but the requests of the engine the event does what it does in a session of the
bare engine. -/
theorem step?_bare (A : Guise I) (g : Engine) (σ : Session I T S C) (ev : Event C) :
    (σ.step? A g ev).map (bare A) = (σ.bare A).step? .bare g ev := by
  have clients (c : C) : (σ.bare A).clients c = (σ.clients c).bare A := rfl
  cases ev with
  | wait d => rfl
  | execute c code locale raw =>
    rw [step?, step?, clients, Caller.isFree_bare]
    split
    · have begun : (Caller.executing (A.execute g code locale raw)).bare A =
          .executing (g.execute code locale raw) :=
        congrArg Caller.executing (A.through_execute g code locale raw)
      split
      · rfl
      · rw [Option.map_some, bare_put, begun]
        rfl
    · rfl
  | query c id =>
    rw [step?, step?, clients, Caller.isFree_bare]
    split
    · have begun := A.bare_query g σ.world.jobs σ.now id
      change some ((σ.put c (A.query g σ.world.jobs σ.now id).1 _).bare A) =
        some ((σ.bare A).put c (Guise.bare.query g σ.world.jobs σ.now id).1
          { σ.world with jobs := (Guise.bare.query g σ.world.jobs σ.now id).2 })
      rw [bare_put, ← begun]
      rfl
    · rfl
  | proceed c =>
    rw [step?, step?, clients]
    cases hc : σ.clients c with
    | idle => rfl
    | executed r => rfl
    | queried r => rfl
    | executing rest =>
      cases rest with
      | done plan =>
        cases plan with
        | answered r => exact congrArg some (bare_put ..)
        | batch items conclude => rfl
      | ask r next => exact congrArg some (bare_put ..)
    | querying job rest =>
      cases rest with
      | done status => exact congrArg some (bare_put ..)
      | ask r next => exact congrArg some (bare_put ..)
  | abandon c =>
    rw [step?, step?, clients]
    cases hc : σ.clients c with
    | idle => rfl
    | executed r => rfl
    | queried r => rfl
    | executing rest => exact congrArg some (bare_put ..)
    | querying job rest => exact congrArg some (bare_put ..)

/-- Every session of the engine is one of the engine in any guise. -/
theorem run?_bare (A : Guise I) (g : Engine) (σ : Session I T S C) (evs : List (Event C)) :
    (σ.run? A g evs).map (bare A) = (σ.bare A).run? .bare g evs := by
  induction evs generalizing σ with
  | nil => rfl
  | cons ev rest ih =>
    rw [run?, run?, ← step?_bare A g σ ev]
    cases σ.step? A g ev with
    | none => rfl
    | some τ => exact ih τ

/-- A session of the engine is one of the engine in any guise. -/
theorem exists_of_bare (A : Guise I) {g : Engine} {w : World T S} {now : Instant}
    {evs : List (Event C)} {σ : Session Working T S C}
    (h : (init w now).run? .bare g evs = some σ) :
    ∃ τ : Session I T S C, (init w now).run? A g evs = some τ ∧ τ.bare A = σ := by
  have same := run?_bare A g (init w now : Session I T S C) evs
  rw [bare_init, h] at same
  exact Option.map_eq_some_iff.mp same

theorem run?_append (A : Guise I) (g : Engine) (σ : Session I T S C) (evs evs' : List (Event C)) :
    σ.run? A g (evs ++ evs') = (σ.run? A g evs).bind fun τ => τ.run? A g evs' := by
  induction evs generalizing σ with
  | nil => rfl
  | cons ev rest ih =>
    rw [List.cons_append, run?, run?, Option.bind_assoc]
    exact congrArg (Option.bind _) (funext ih)

section Alone

variable {g : Engine} {σ : Session Working T S C} {c : C}

/-- The calls of the clients that `call` makes of what is left of them are answered. -/
def Answers (g : Engine) (c : C) {α : Type} (call : Activity Working α → Caller Working) : Prop :=
  ∀ (σ : Session Working T S C) (q : Working.Request) (next : Working.Reply q → Activity Working α),
    σ.clients c = call (.ask q next) →
      σ.step? .bare g (.proceed c) =
        some (σ.put c (call (next (World.surroundings σ.now q σ.world).reply))
          (World.surroundings σ.now q σ.world).world)

/-- Each request is made when the reply to the last one has arrived. -/
theorem run_to_end {α : Type} {call : Activity Working α → Caller Working}
    (hcall : Answers (T := T) (S := S) g c call) {rest : Activity Working α}
    (hc : σ.clients c = call rest) {a : α} {t : Instant} {w : World T S}
    (h : rest.run World.surroundings σ.now σ.world = (a, t, w)) :
    ∃ evs, σ.run? .bare g evs = some ⟨w, t, Function.update σ.clients c (call (.done a))⟩ := by
  induction rest generalizing σ with
  | done b =>
    cases h
    refine ⟨[], ?_⟩
    rw [← hc, Function.update_eq_self]
    rfl
  | ask q next ih =>
    let x := World.surroundings σ.now q σ.world
    let τ : Session Working T S C :=
      ⟨x.world, x.arrival.getD σ.now, Function.update σ.clients c (call (next x.reply))⟩
    have hτ : τ.clients c = call (next x.reply) := Function.update_self ..
    obtain ⟨evs, hrun⟩ := ih _ hτ h
    have later := Nat.add_sub_cancel' (World.le_arrival σ.now q σ.world)
    refine ⟨.proceed c :: .wait (x.arrival.getD σ.now - σ.now) :: evs, ?_⟩
    rw [run?, hcall σ q next hc, Option.bind_some, run?, step?, Option.bind_some]
    dsimp only [put]
    rw [later]
    exact hrun.trans (congrArg some (congrArg (Session.mk w t) (Function.update_idem ..)))

theorem run_call {α : Type} {call : Activity Working α → Caller Working}
    (hcall : Answers (T := T) (S := S) g c call) {rest : Activity Working α}
    (hc : σ.clients c = call rest) {a : α} {t : Instant} {w w' : World T S} {y : Caller Working}
    (h : rest.run World.surroundings σ.now σ.world = (a, t, w))
    (hreturn : ∀ ρ : Session Working T S C, ρ.clients c = call (.done a) → ρ.world = w →
      ρ.step? .bare g (.proceed c) = some (ρ.put c y w')) :
    ∃ evs, σ.run? .bare g evs = some ⟨w', t, Function.update σ.clients c y⟩ := by
  obtain ⟨evs, hrun⟩ := run_to_end hcall hc h
  refine ⟨evs ++ [.proceed c], ?_⟩
  rw [run?_append, hrun, Option.bind_some, run?, hreturn _ (Function.update_self ..) rfl]
  exact congrArg some (congrArg (Session.mk w' t) (Function.update_idem ..))

/-- A client executes a playbook as the world does. -/
theorem run_execute (hfree : (σ.clients c).isFree = true) {code locale : String}
    {raw : Fields Json} (hmode : Engine.requestedMode raw ≠ .ok .batch)
    {r : Except Failure Invocation} {t : Instant} {w : World T S}
    (h : (g.execute code locale raw).run World.surroundings σ.now σ.world = (.answered r, t, w)) :
    σ.world.execute g σ.now code locale raw = (.ok r, t, w) ∧
      ∃ evs, σ.run? .bare g (.execute c code locale raw :: evs) =
        some ⟨w, t, Function.update σ.clients c (.executed r)⟩ := by
  constructor
  · rw [World.execute, h]
  · let τ := σ.put c (.executing (g.execute code locale raw)) σ.world
    have begun : σ.step? .bare g (.execute c code locale raw) = some τ := by
      rw [step?, if_pos hfree]
      split
      · rename_i hbatch
        exact absurd hbatch hmode
      · rfl
    have answers : Answers (T := T) (S := S) g c Caller.executing := fun σ q next hc => by
      rw [step?, hc]
      rfl
    have there : τ.clients c = .executing (g.execute code locale raw) := Function.update_self ..
    have returns : ∀ ρ : Session Working T S C, ρ.clients c = .executing (.done (.answered r)) →
        ρ.world = w → ρ.step? .bare g (.proceed c) = some (ρ.put c (.executed r) w) := by
      intro ρ hρ hw
      rw [step?, hρ, ← hw]
    obtain ⟨evs, hrun⟩ := run_call answers there h returns
    refine ⟨evs, ?_⟩
    rw [run?, begun, Option.bind_some, hrun]
    exact congrArg some (congrArg (Session.mk w t) (Function.update_idem ..))

theorem run_query (hfree : (σ.clients c).isFree = true) {id : String}
    {r : Except Failure JobStatus} {t : Instant} {w : World T S}
    (h : σ.world.query g σ.now id = (r, t, w)) :
    ∃ evs, σ.run? .bare g (.query c id :: evs) =
      some ⟨w, t, Function.update σ.clients c (.queried r)⟩ := by
  have begun : σ.step? .bare g (.query c id) =
      some (σ.put c (σ.world.beginQuery g σ.now id).1.caller
        (σ.world.beginQuery g σ.now id).2) := by
    rw [step?, if_pos hfree, Guise.query_bare]
    rfl
  rw [World.query] at h
  rcases hbegin : σ.world.beginQuery g σ.now id with ⟨q, w₁⟩
  rw [hbegin] at h begun
  cases q with
  | answered r' =>
    cases h
    refine ⟨[], ?_⟩
    rw [run?, begun]
    rfl
  | resuming job rest =>
    let τ := σ.put c (.querying job rest) w₁
    rcases hrest : rest.run World.surroundings σ.now w₁ with ⟨status, t', w₂⟩
    dsimp only at h
    rw [hrest] at h
    cases h
    have answers : Answers (T := T) (S := S) g c (Caller.querying job) := fun σ q next hc => by
      rw [step?, hc]
      rfl
    have there : τ.clients c = .querying job rest := Function.update_self ..
    have returns : ∀ ρ : Session Working T S C, ρ.clients c = .querying job (.done status) →
        ρ.world = w₂ → ρ.step? .bare g (.proceed c) =
          some (ρ.put c (.queried (.ok status)) (w₂.dropClaim job)) := by
      intro ρ hρ hw
      rw [step?, hρ, ← hw]
    obtain ⟨evs, hrun⟩ := run_call answers there hrest returns
    refine ⟨evs, ?_⟩
    rw [run?, begun, Option.bind_some]
    exact hrun.trans (congrArg some (congrArg (Session.mk _ _) (Function.update_idem ..)))

end Alone

end Session

end PlaybookEngine
