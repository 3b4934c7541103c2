import PlaybookEngine.Proofs.Engine.Coasting
import Mathlib.Logic.Function.Basic

namespace PlaybookEngine

/-- What a guest is at. -/
inductive Guest
  | idle
  | executing (rest : Activity Working Plan)
  /-- Every item of the batch goes on by itself. -/
  | batch (items : List (Activity Working ItemResult))
    (conclude : List ItemResult → Timestamp → ExecutionResult)
  | executed (r : Except Failure Invocation)
  /-- The query of a job holds the claim on the one that it leads to. -/
  | querying (id job : String) (rest : Activity Working JobStatus)
  | queried (id : String) (r : Except Failure JobStatus)

namespace Guest

def isFree : Guest → Bool
  | .executing _ => false
  | .batch _ _ => false
  | .querying _ _ _ => false
  | _ => true

def claim? : Guest → Option String
  | .querying _ job _ => some job
  | _ => none

def told? : Guest → Option String
  | .executed (.ok (.dispatched job)) => some job.jobId
  | .queried _ (.ok (.pending job)) => some job.jobId
  | _ => none

def ofQuery (id : String) : Query → Guest
  | .answered r => .queried id r
  | .resuming job rest => .querying id job rest

/-- What is left to be done to execute a playbook. -/
def ofPlan : Activity Working Plan → Guest
  | .done (.answered r) => .executed r
  | .done (.batch items conclude) => .batch items conclude
  | rest => .executing rest

def ofStatus {T S : Type} (id job : String) :
    Activity Working JobStatus × World T S → Guest × World T S
  | (.done status, w) => (.queried id (.ok status), w.dropClaim job)
  | (rest, w) => (.querying id job rest, w)

/-- Results of items; those that have not ended are given up. -/
def results (limits : Nat → Span) (items : List (Activity Working ItemResult)) : List ItemResult :=
  items.mapIdx fun i q =>
    match q with
    | .done r => r
    | .ask _ _ => .timedOut i (limits i)

end Guest

structure Service (T S C : Type) where
  world : World T S
  now : Instant
  guests : C → Guest

namespace Service

inductive Event (C : Type)
  /-- Time passes. -/
  | wait (d : Span)
  /-- A guest begins to execute a playbook. -/
  | execute (c : C) (code locale : String) (raw : Fields Json)
  /-- A guest begins to query a job. -/
  | query (c : C) (id : String)
  /-- A guest has its turn. -/
  | proceed (c : C)
  /-- An item of a guest's batch has its turn. -/
  | item (c : C) (i : Nat)
  /-- A guest's batch ends; items that have not ended are given up at their limits. -/
  | conclude (c : C) (limits : Nat → Span)
  /-- The call of a guest is given up. -/
  | abandon (c : C)

open Working IdSource

variable {T S C : Type}

def init (w : World T S) (now : Instant) : Service T S C := ⟨w, now, fun _ => .idle⟩

section Steps

variable [DecidableEq C]

def put (σ : Service T S C) (c : C) (x : Guest) (w : World T S) : Service T S C :=
  ⟨w, σ.now, Function.update σ.guests c x⟩

variable [ToolServer T] [IdSource S]

/-- The service after an event; none when the event cannot happen. -/
def step? (g : Engine) (σ : Service T S C) : Event C → Option (Service T S C)
  | .wait d => some { σ with now := σ.now + d }
  | .execute c code locale raw =>
    if (σ.guests c).isFree then
      some (σ.put c (.executing (g.execute code locale raw)) σ.world)
    else none
  | .query c id =>
    if (σ.guests c).isFree then
      let (q, w) := σ.world.beginQuery g σ.now id
      some (σ.put c (.ofQuery id q) w)
    else none
  | .proceed c =>
    match σ.guests c with
    | .executing rest =>
      let (rest, w) := σ.world.turn σ.now rest
      some (σ.put c (.ofPlan rest) w)
    | .querying id job rest =>
      let (x, w) := Guest.ofStatus id job (σ.world.turn σ.now rest)
      some (σ.put c x w)
    | _ => none
  | .item c i =>
    match σ.guests c with
    | .batch items conclude =>
      items[i]?.map fun q =>
        let (q, w) := σ.world.turn σ.now q
        σ.put c (.batch (items.set i q) conclude) w
    | _ => none
  | .conclude c limits =>
    match σ.guests c with
    | .batch items conclude =>
      let r := conclude (Guest.results limits items) (.ofNanos σ.now)
      some (σ.put c (.executed (.ok (.completed r))) σ.world)
    | _ => none
  | .abandon c =>
    match σ.guests c with
    | .executing _ => some (σ.put c .idle σ.world)
    | .batch _ _ => some (σ.put c .idle σ.world)
    | .querying _ job _ => some (σ.put c .idle (σ.world.dropClaim job))
    | _ => none

def run? (g : Engine) : Service T S C → List (Event C) → Option (Service T S C)
  | σ, [] => some σ
  | σ, ev :: rest => (σ.step? g ev).bind fun σ => σ.run? g rest

end Steps

/-- What a guest does next, and what it was told, agrees with the jobs. -/
def Fits [IdSource S] (w : World T S) (now : Instant) : Guest → Prop
  | .executing rest => rest.Assures (turns none) (.quiet none) fun plan v => Engine.Planned plan v
  | .batch items _ => ∀ q ∈ items, q.Assures (turns none) (.quiet none) fun _ v => v.Quiet
  | .querying id job rest => ∃ s, s.handle.jobId = job ∧
    w.jobs.find? job = some (.resuming s) ∧ w.jobs.Heads now id job ∧ Spent w.ids id ∧
    rest.Assures (turns (some s)) (.quiet none) fun status v => Engine.Settles s status v
  | .queried id (.ok status) =>
    status.isTerminal = true → w.jobs.Answers now id status ∧ Spent w.ids id
  | _ => True

/-- Every job has an id that was drawn, and every claim is held by one guest. -/
structure Sound [IdSource S] (σ : Service T S C) : Prop where
  linked : σ.world.jobs.Linked σ.now
  distinct : Distinct σ.world.ids
  used : ∀ id, σ.world.jobs.find? id ≠ none → Spent σ.world.ids id
  fits : ∀ c, Fits σ.world σ.now (σ.guests c)
  exclusive : ∀ c c' job, (σ.guests c).claim? = some job → (σ.guests c').claim? = some job → c = c'

/-- A guest may come to this while the world comes to that. -/
structure Admits [IdSource S] (σ : Service T S C) (c : C) (x : Guest) (w : World T S) : Prop where
  came : World.Came σ.now (σ.guests c).claim? σ.world w
  fits : Fits w σ.now x
  claim : ∀ job, x.claim? = some job →
    (σ.guests c).claim? = some job ∨ ∃ s, σ.world.jobs.find? job = some (.suspended s)
  told : ∀ id, x.told? = some id → w.jobs.find? id ≠ none

/-- Whoever claims nothing and is told of no job needs to fit only. -/
theorem admits_of_none [IdSource S] {σ : Service T S C} {c : C} {x : Guest} {w : World T S}
    (came : World.Came σ.now (σ.guests c).claim? σ.world w) (fits : Fits w σ.now x)
    (claim : x.claim? = none) (told : x.told? = none) : σ.Admits c x w where
  came := came
  fits := fits
  claim job hjob := by
    rw [claim] at hjob
    cases hjob
  told id hid := by
    rw [told] at hid
    cases hid

section Preservation

variable [IdSource S] {σ σ' : Service T S C} {c : C} {x : Guest} {w w' : World T S}
  {now later : Instant} {own : Option String}

theorem sound_init {w : World T S} {ttl : Span} (hjobs : w.jobs = .empty ttl)
    (hids : Distinct w.ids) (now : Instant) : (init w now : Service T S C).Sound where
  linked := by
    change w.jobs.Linked now
    rw [hjobs]
    exact JobTable.linked_empty ttl now
  distinct := hids
  used id hid := by
    change w.jobs.find? id ≠ none at hid
    rw [hjobs] at hid
    exact absurd (JobTable.find?_empty ttl id) hid
  fits c := trivial
  exclusive c c' job h := by cases h

theorem Fits.mono (h : Fits w now x) (hle : now ≤ later) : Fits w later x := by
  cases x with
  | querying id job rest =>
    obtain ⟨s, hs, held, hheads, hspent, hrest⟩ := h
    exact ⟨s, hs, held, hheads.mono hle, hspent, hrest⟩
  | queried id r =>
    cases r with
    | error f => exact h
    | ok status =>
      intro hterminal
      obtain ⟨hanswers, hspent⟩ := h hterminal
      exact ⟨hanswers.mono hle, hspent⟩
  | _ => exact h

theorem Fits.came (h : Fits w now x) (hlinked : w.jobs.Linked now)
    (hcame : World.Came now own w w') (hown : ∀ job, x.claim? = some job → own ≠ some job) :
    Fits w' now x := by
  cases x with
  | querying id job rest =>
    obtain ⟨s, hs, held, hheads, hspent, hrest⟩ := h
    exact ⟨s, hs, hcame.changes.held hlinked held (hown job rfl),
      hcame.changes.heads hlinked hheads (not_not_intro hspent), hcame.spent id hspent, hrest⟩
  | queried id r =>
    cases r with
    | error f => exact h
    | ok status =>
      intro hterminal
      obtain ⟨hanswers, hspent⟩ := h hterminal
      exact ⟨hcame.changes.answers hlinked hanswers (not_not_intro hspent),
        hcame.spent id hspent⟩
  | _ => exact h

theorem Sound.wait (h : σ.Sound) (d : Span) : Sound { σ with now := σ.now + d } := by
  have hle : σ.now ≤ σ.now + d := Nat.le_add_right _ _
  exact ⟨h.linked.mono hle, h.distinct, h.used, fun c => (h.fits c).mono hle, h.exclusive⟩

theorem Sound.not_suspended (h : σ.Sound) {job : String} (hc : (σ.guests c).claim? = some job)
    (s : Suspended) : σ.world.jobs.find? job ≠ some (.suspended s) := by
  have hfits := h.fits c
  intro hs
  cases hx : σ.guests c with
  | querying id job' rest =>
    rw [hx] at hc hfits
    obtain rfl := Option.some_inj.mp hc
    obtain ⟨s', -, held, -⟩ := hfits
    rw [hs] at held
    cases held
  | _ =>
    rw [hx] at hc
    cases hc

variable [DecidableEq C]

/-- One guest does something, the others stay what they are at. -/
theorem Sound.put (h : σ.Sound) (hx : σ.Admits c x w) : (σ.put c x w).Sound where
  linked := hx.came.changes.linked h.linked
  distinct := hx.came.distinct
  used := hx.came.used
  fits d := by
    change Fits w σ.now (Function.update σ.guests c x d)
    by_cases hd : d = c
    · subst hd
      rw [Function.update_self]
      exact hx.fits
    · rw [Function.update_of_ne hd]
      refine (h.fits d).came h.linked hx.came fun job hjob hown => hd ?_
      exact h.exclusive d c job hjob hown
  exclusive d d' job hd hd' := by
    change (Function.update σ.guests c x d).claim? = some job at hd
    change (Function.update σ.guests c x d').claim? = some job at hd'
    have other (e : C) (he : e ≠ c) (hclaim : (σ.guests e).claim? = some job) :
        x.claim? ≠ some job := by
      intro hjob
      rcases hx.claim job hjob with hmine | ⟨s, hs⟩
      · exact he (h.exclusive e c job hclaim hmine)
      · exact h.not_suspended hclaim s hs
    by_cases hdc : d = c
    · subst hdc
      by_cases hdc' : d' = d
      · exact hdc'.symm
      · rw [Function.update_self] at hd
        rw [Function.update_of_ne hdc'] at hd'
        exact absurd hd (other d' hdc' hd')
    · rw [Function.update_of_ne hdc] at hd
      by_cases hdc' : d' = c
      · subst hdc'
        rw [Function.update_self] at hd'
        exact absurd hd' (other d hdc hd)
      · rw [Function.update_of_ne hdc'] at hd'
        exact h.exclusive d d' job hd hd'

end Preservation

section Admission

variable [IdSource S] {σ : Service T S C} {c : C} {x : Guest} {w : World T S} {id job : String}

theorem Sound.begins (h : σ.Sound) : σ.world.Begins σ.now none :=
  ⟨h.linked, h.distinct, h.used, fun s hs => by cases hs⟩

theorem Sound.admits_still (h : σ.Sound) (hfits : Fits σ.world σ.now x) (hclaim : x.claim? = none)
    (htold : x.told? = none) : σ.Admits c x σ.world :=
  admits_of_none (h.begins.came _) hfits hclaim htold

theorem find?_of_parks {r : Except Failure Invocation} {v : Turn} {claim : Option Suspended}
    (hr : Engine.Parks r v) (hshows : World.Shows σ.now claim σ.world w v)
    (hid : (Guest.executed r).told? = some id) : w.jobs.find? id ≠ none := by
  rcases r with f | r
  · cases hid
  · cases r with
    | completed r => cases hid
    | dispatched job =>
      obtain rfl := Option.some_inj.mp hid
      obtain ⟨s, rfl, rfl⟩ := hr
      rw [hshows.1]
      exact Option.some_ne_none _

/-- A query that has settled its claim leaves nothing to be dropped. -/
theorem dropClaim_of_settles {s : Suspended} {status : JobStatus} {v : Turn} {now : Instant}
    {w₀ : World T S} (hstatus : Engine.Settles s status v)
    (hshows : World.Shows now (some s) w₀ w v) : w.dropClaim s.handle.jobId = w := by
  have settled : ∀ r, w.jobs.find? s.handle.jobId ≠ some (.resuming r) := by
    intro r hr
    cases status with
    | pending job =>
      rcases hstatus with ⟨rfl, -⟩ | ⟨next, rfl, -⟩
      · rw [hshows s rfl] at hr
        cases hr
      · rw [hshows.2 s rfl] at hr
        cases hr
    | completed r =>
      obtain rfl : v = .finished _ := hstatus
      rw [hshows s rfl] at hr
      cases hr
    | failed f =>
      obtain rfl : v = .finished _ := hstatus
      rw [hshows s rfl] at hr
      cases hr
  rw [World.dropClaim, JobTable.restore_of_not_resuming settled]

theorem Sound.admits_abandoned (h : σ.Sound) {rest : Activity Working JobStatus}
    (hc : σ.guests c = .querying id job rest) : σ.Admits c .idle (σ.world.dropClaim job) := by
  have hfits := h.fits c
  rw [hc] at hfits
  obtain ⟨s, rfl, held, -⟩ := hfits
  have mine : (σ.guests c).claim? = some s.handle.jobId := by
    rw [hc]
    rfl
  have dropped : σ.world.dropClaim s.handle.jobId =
      { σ.world with jobs := σ.world.jobs.put s.handle.jobId (.suspended s) } := by
    rw [World.dropClaim, JobTable.restore_eq, held]
  rw [dropped]
  exact admits_of_none ((h.begins.came _).settle held (.release mine held)).1 trivial rfl rfl

theorem query_unknown {t : JobTable} {now : Instant} (h : t.Linked now) (g : Engine)
    (hin : ¬ t.InTime now id) :
    g.query t now id =
      (.answered (.error ((EngineError.jobNotFound id).toFailure none)), t.evict now) := by
  rw [Engine.query, h.claimCurrent_unknown hin]

theorem query_answers {t : JobTable} {now : Instant} {status : JobStatus} (h : t.Linked now)
    (g : Engine) (hanswers : t.Answers now id status) (hin : t.InTime now id) :
    g.query t now id = (.answered (.ok status), t.evict now) := by
  obtain ⟨path, since, htrail, hlast⟩ := hanswers hin
  rw [Engine.query, h.claimCurrent hin htrail hlast fun _ _ heq => by cases heq]
  rfl

theorem Sound.admits_query (h : σ.Sound) (g : Engine) :
    σ.Admits c (.ofQuery id (σ.world.beginQuery g σ.now id).1)
      (σ.world.beginQuery g σ.now id).2 := by
  have evicted : World.Came σ.now (σ.guests c).claim? σ.world
      { σ.world with jobs := σ.world.jobs.evict σ.now } :=
    (h.begins.came _).evict h.linked.ordered rfl
  by_cases hin : σ.world.jobs.InTime σ.now id
  · obtain ⟨path, e, htrail, hlast, hend, hclaim⟩ := h.linked.claimCurrent_cases hin
    have spent : Spent σ.world.ids id := by
      obtain ⟨first, hfirst, -⟩ := hin
      refine h.used id ?_
      rw [hfirst]
      exact Option.some_ne_none _
    have last : (σ.world.jobs.evict σ.now).find? (path.getLastD id) = some e := by
      rw [JobTable.find?_evict_of_inTime h.linked.ordered (h.linked.inTime_last htrail hin), hlast]
    cases e with
    | suspended s =>
      have begun : g.query σ.world.jobs σ.now id = (.resuming (path.getLastD id)
          (Engine.resume g.steps s),
          (σ.world.jobs.evict σ.now).put (path.getLastD id) (.resuming s)) := by
        rw [Engine.query, hclaim]
        rfl
      have key := h.linked.keyed _ s (.inl hlast)
      rw [World.beginQuery, begun]
      have heads : σ.world.jobs.Heads σ.now id (path.getLastD id) := fun _ => ⟨path, htrail, rfl⟩
      rw [← key] at last heads hlast ⊢
      have used : σ.world.jobs.find? s.handle.jobId ≠ none := by
        rw [hlast]
        exact Option.some_ne_none _
      have claimed := evicted.write (.claim last) (h.used s.handle.jobId used)
      refine ⟨claimed, ⟨s, rfl, ?_, claimed.changes.heads h.linked heads (not_not_intro spent),
        spent, Engine.resume_turns g.steps s ⟨none, rfl⟩⟩, ?_, by rintro _ ⟨⟩⟩
      · exact (JobTable.find?_put ..).trans (if_pos rfl)
      · rintro _ ⟨⟩
        exact .inr ⟨s, hlast⟩
    | resuming s =>
      have begun : g.query σ.world.jobs σ.now id =
          (.answered (.ok (.pending s.handle)), σ.world.jobs.evict σ.now) := by
        rw [Engine.query, hclaim]
        rfl
      have key := h.linked.keyed _ s (.inr hlast)
      rw [World.beginQuery, begun]
      refine ⟨evicted, fun hterminal => ?_, by rintro _ ⟨⟩, fun id' hid => ?_⟩
      · cases hterminal
      · obtain rfl := Option.some_inj.mp hid
        change (σ.world.jobs.evict σ.now).find? s.handle.jobId ≠ none
        rw [key, last]
        exact Option.some_ne_none _
    | forwarded next since => exact absurd rfl (hend next since)
    | finished status since =>
      have answers : σ.world.jobs.Answers σ.now id status := fun _ => ⟨path, since, htrail, hlast⟩
      rw [World.beginQuery, query_answers h.linked g answers hin]
      refine ⟨evicted, fun _ => ⟨?_, spent⟩, by rintro _ ⟨⟩, fun id' hid => ?_⟩
      · exact evicted.changes.answers h.linked answers (not_not_intro spent)
      · have terminal := h.linked.terminal _ status since hlast
        cases status with
        | pending job => cases terminal
        | completed r => cases hid
        | failed f => cases hid
  · rw [World.beginQuery, query_unknown h.linked g hin]
    exact admits_of_none evicted trivial rfl rfl

variable [ToolServer T]

theorem Sound.admits_executing (h : σ.Sound) {rest : Activity Working Plan}
    (hc : σ.guests c = .executing rest) :
    σ.Admits c (.ofPlan (σ.world.turn σ.now rest).1) (σ.world.turn σ.now rest).2 := by
  have hfits := h.fits c
  rw [hc] at hfits
  obtain ⟨came, hrests⟩ := h.begins.turn hfits
  have mine : (σ.guests c).claim? = none := by
    rw [hc]
    rfl
  generalize σ.world.turn σ.now rest = y at came hrests ⊢
  obtain ⟨rest', w⟩ := y
  rcases hrests with ⟨plan, v, rfl, hplanned, hshows⟩ | ⟨r, next, rfl, hrest, -⟩
  · cases plan with
    | answered r =>
      refine ⟨mine ▸ came, trivial, by rintro _ ⟨⟩, fun id hid => ?_⟩
      exact find?_of_parks hplanned hshows hid
    | batch items conclude => exact admits_of_none (mine ▸ came) hplanned.2 rfl rfl
  · exact admits_of_none (mine ▸ came) hrest rfl rfl

theorem Sound.admits_item (h : σ.Sound) {items : List (Activity Working ItemResult)}
    {conclude : List ItemResult → Timestamp → ExecutionResult}
    (hc : σ.guests c = .batch items conclude) {i : Nat} {q : Activity Working ItemResult}
    (hq : items[i]? = some q) :
    σ.Admits c (.batch (items.set i (σ.world.turn σ.now q).1) conclude)
      (σ.world.turn σ.now q).2 := by
  have hfits := h.fits c
  rw [hc] at hfits
  have mine : (σ.guests c).claim? = none := by
    rw [hc]
    rfl
  obtain ⟨came, hrests⟩ := h.begins.turn (hfits q (List.mem_of_getElem? hq))
  generalize σ.world.turn σ.now q = y at came hrests ⊢
  obtain ⟨q', w⟩ := y
  refine admits_of_none (mine ▸ came) (fun q'' hq'' => ?_) rfl rfl
  rcases List.mem_or_eq_of_mem_set hq'' with hold | rfl
  · exact hfits q'' hold
  · rcases hrests with ⟨r, v, rfl, hquiet, -⟩ | ⟨r, next, rfl, hrest, -⟩
    · exact ⟨none, rfl⟩
    · exact hrest

theorem Sound.admits_querying (h : σ.Sound) {rest : Activity Working JobStatus}
    (hc : σ.guests c = .querying id job rest) :
    σ.Admits c (Guest.ofStatus id job (σ.world.turn σ.now rest)).1
      (Guest.ofStatus id job (σ.world.turn σ.now rest)).2 := by
  have hfits := h.fits c
  rw [hc] at hfits
  obtain ⟨s, rfl, held, hheads, hspent, hrest⟩ := hfits
  have mine : (σ.guests c).claim? = some s.handle.jobId := by
    rw [hc]
    rfl
  have begins : σ.world.Begins σ.now (some s) := by
    refine ⟨h.linked, h.distinct, h.used, ?_⟩
    rintro _ ⟨⟩
    exact held
  obtain ⟨came, hrests⟩ := begins.turn hrest
  generalize σ.world.turn σ.now rest = y at came hrests ⊢
  obtain ⟨rest', w⟩ := y
  have heads : w.jobs.Heads σ.now id s.handle.jobId :=
    came.changes.heads h.linked hheads (not_not_intro hspent)
  rcases hrests with ⟨status, v, rfl, hstatus, hshows⟩ | ⟨r, next, rfl, hrest', hjobs⟩
  · change σ.Admits c (.queried id (.ok status)) (w.dropClaim s.handle.jobId)
    rw [dropClaim_of_settles hstatus hshows]
    have answers (hv : v = .finished status) : w.jobs.Answers σ.now id status := by
      subst hv
      intro hin
      obtain ⟨path, htrail, hlast⟩ := heads hin
      exact ⟨path, σ.now, htrail, hlast ▸ hshows s rfl⟩
    refine ⟨mine ▸ came, fun hterminal => ⟨?_, came.spent id hspent⟩, by rintro _ ⟨⟩,
      fun id' hid => ?_⟩
    · cases status with
      | pending job => cases hterminal
      | completed r => exact answers hstatus
      | failed f => exact answers hstatus
    · cases status with
      | pending job =>
        obtain rfl := Option.some_inj.mp hid
        rcases hstatus with ⟨rfl, rfl⟩ | ⟨next, rfl, rfl⟩
        · rw [hshows s rfl]
          exact Option.some_ne_none _
        · rw [hshows.1]
          exact Option.some_ne_none _
      | completed r => cases hid
      | failed f => cases hid
  · change σ.Admits c (.querying id s.handle.jobId (.ask r next)) w
    refine ⟨mine ▸ came, ⟨s, rfl, ?_, heads, came.spent id hspent, hrest'⟩, ?_, by rintro _ ⟨⟩⟩
    · change w.jobs = σ.world.jobs at hjobs
      rw [hjobs]
      exact held
    · rintro _ ⟨⟩
      exact .inl mine

end Admission

/-- What an event does to the world. -/
structure Moves [IdSource S] (σ σ' : Service T S C) : Prop where
  le : σ.now ≤ σ'.now
  changes : ∃ own,
    JobTable.Changes σ'.now own (fun x => ¬ Spent σ.world.ids x) σ.world.jobs σ'.world.jobs
  spent : ∀ x, Spent σ.world.ids x → Spent σ'.world.ids x

section Step

variable [ToolServer T] [IdSource S] [DecidableEq C] {g : Engine} {σ σ' : Service T S C}

/-- What an event is: time passes, or one guest does what may be done. -/
theorem Sound.step_cases (h : σ.Sound) {ev : Event C} (hstep : σ.step? g ev = some σ') :
    (∃ d, σ' = { σ with now := σ.now + d }) ∨
      ∃ c x w, σ' = σ.put c x w ∧ σ.Admits c x w := by
  cases ev with
  | wait d => exact .inl ⟨d, (Option.some_inj.mp hstep).symm⟩
  | execute c code locale raw =>
    simp only [step?, Option.ite_none_right_eq_some] at hstep
    obtain ⟨-, hσ'⟩ := hstep
    refine .inr ⟨c, _, _, (Option.some_inj.mp hσ').symm, h.admits_still ?_ rfl rfl⟩
    exact Engine.execute_turns g code locale raw ⟨none, rfl⟩
  | query c id =>
    simp only [step?, Option.ite_none_right_eq_some] at hstep
    obtain ⟨-, hσ'⟩ := hstep
    exact .inr ⟨c, _, _, (Option.some_inj.mp hσ').symm, h.admits_query g⟩
  | proceed c =>
    simp only [step?] at hstep
    split at hstep
    · rename_i rest hc
      exact .inr ⟨c, _, _, (Option.some_inj.mp hstep).symm, h.admits_executing hc⟩
    · rename_i id job rest hc
      exact .inr ⟨c, _, _, (Option.some_inj.mp hstep).symm, h.admits_querying hc⟩
    · cases hstep
  | item c i =>
    simp only [step?] at hstep
    split at hstep
    · rename_i items conclude hc
      obtain ⟨q, hq, hσ'⟩ := Option.map_eq_some_iff.mp hstep
      exact .inr ⟨c, _, _, hσ'.symm, h.admits_item hc hq⟩
    · cases hstep
  | conclude c limits =>
    simp only [step?] at hstep
    split at hstep
    · exact .inr ⟨c, _, _, (Option.some_inj.mp hstep).symm, h.admits_still trivial rfl rfl⟩
    · cases hstep
  | abandon c =>
    simp only [step?] at hstep
    split at hstep
    · exact .inr ⟨c, _, _, (Option.some_inj.mp hstep).symm, h.admits_still trivial rfl rfl⟩
    · exact .inr ⟨c, _, _, (Option.some_inj.mp hstep).symm, h.admits_still trivial rfl rfl⟩
    · rename_i id job rest hc
      exact .inr ⟨c, _, _, (Option.some_inj.mp hstep).symm, h.admits_abandoned hc⟩
    · cases hstep

theorem Sound.step (h : σ.Sound) {ev : Event C} (hstep : σ.step? g ev = some σ') :
    σ'.Sound ∧ σ.Moves σ' := by
  rcases h.step_cases hstep with ⟨d, rfl⟩ | ⟨c, x, w, rfl, hx⟩
  · exact ⟨h.wait d, Nat.le_add_right _ _, ⟨none, JobTable.changes_refl _⟩, fun x hx => hx⟩
  · exact ⟨h.put hx, Nat.le_refl _, ⟨_, hx.came.changes⟩, hx.came.spent⟩

end Step

end Service

end PlaybookEngine
