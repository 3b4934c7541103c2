import PlaybookEngine.Proofs.Engine.Surroundings
import PlaybookEngine.Proofs.Engine.Turns
import PlaybookEngine.Proofs.Jobs.Links

namespace PlaybookEngine

namespace IdSource

variable {S : Type} [IdSource S] {s : S} {x : String}

def Spent (s : S) (x : String) : Prop := ∀ n, x ∉ upcoming s n

/-- No id will be handed out twice. -/
def Distinct (s : S) : Prop := ∀ n, (upcoming s n).Nodup

theorem Distinct.tail (h : Distinct s) : Distinct (fresh s).2 := fun n =>
  (List.nodup_cons.mp (h (n + 1))).2

theorem Distinct.spent_fresh (h : Distinct s) : Spent (fresh s).2 (fresh s).1 := fun n =>
  (List.nodup_cons.mp (h (n + 1))).1

theorem not_spent_fresh (s : S) : ¬ Spent s (fresh s).1 := fun h => h 1 List.mem_cons_self

theorem Spent.tail (h : Spent s x) : Spent (fresh s).2 x := fun n hx =>
  h (n + 1) (List.mem_cons_of_mem _ hx)

end IdSource

namespace World

open Working IdSource

variable {T S α : Type} [IdSource S] {now : Instant} {own : Option String}
  {claim : Option Suspended} {w₀ w : World T S} {v : Turn}

/-- The world has come from another one: the jobs were changed by whoever has claimed the job `own`,
and ids were drawn. Every job has an id that was drawn. -/
structure Came (now : Instant) (own : Option String) (w₀ w : World T S) : Prop where
  changes : JobTable.Changes now own (fun x => ¬ Spent w₀.ids x) w₀.jobs w.jobs
  distinct : Distinct w.ids
  spent : ∀ x, Spent w₀.ids x → Spent w.ids x
  used : ∀ id, w.jobs.find? id ≠ none → Spent w.ids id

theorem Came.congr {w' : World T S} (h : Came now own w₀ w) (hjobs : w'.jobs = w.jobs)
    (hids : w'.ids = w.ids) : Came now own w₀ w' := by
  refine ⟨?_, ?_, ?_, ?_⟩
  · rw [hjobs]
    exact h.changes
  · rw [hids]
    exact h.distinct
  · rw [hids]
    exact h.spent
  · rw [hjobs, hids]
    exact h.used

theorem Came.draw (h : Came now own w₀ w) :
    Came now own w₀ { w with ids := (fresh w.ids).2 } :=
  ⟨h.changes, h.distinct.tail, fun x hx => (h.spent x hx).tail, fun id hid => (h.used id hid).tail⟩

theorem Came.evict (h : Came now own w₀ w) (hord : w₀.jobs.Ordered) (hjobs : w.jobs = w₀.jobs) :
    Came now own w₀ { w with jobs := w.jobs.evict now } := by
  refine ⟨?_, h.distinct, h.spent, fun id hid => h.used id ?_⟩
  · rw [hjobs]
    exact JobTable.changes_evict _
  · obtain ⟨e, he⟩ := Option.ne_none_iff_exists'.mp hid
    rw [hjobs] at he ⊢
    rw [JobTable.find?_of_evict hord he]
    exact Option.some_ne_none _

theorem Came.write {id : String} {e : JobEntry} (h : Came now own w₀ w)
    (hw : JobTable.Write now own (fun x => ¬ Spent w₀.ids x) w.jobs (w.jobs.put id e))
    (hid : Spent w.ids id) : Came now own w₀ { w with jobs := w.jobs.put id e } := by
  refine ⟨h.changes.write hw, h.distinct, h.spent, fun k hk => ?_⟩
  rw [JobTable.find?_put] at hk
  split at hk
  · rename_i hsame
    exact hsame ▸ hid
  · exact h.used k hk

/-- When a turn begins, every job has an id that was drawn, and the claim is held. -/
structure Begins (w : World T S) (now : Instant) (claim : Option Suspended) : Prop where
  linked : w.jobs.Linked now
  distinct : Distinct w.ids
  used : ∀ id, w.jobs.find? id ≠ none → Spent w.ids id
  claims : ∀ s, claim = some s → w.jobs.find? s.handle.jobId = some (.resuming s)

theorem Begins.came (h : w.Begins now claim) (own : Option String) : Came now own w w :=
  ⟨JobTable.changes_refl _, h.distinct, fun _ hx => hx, h.used⟩

/-- What the jobs show of a turn. -/
def Shows (now : Instant) (claim : Option Suspended) (w₀ w : World T S) : Turn → Prop
  | .quiet drawn => w.jobs = w₀.jobs ∧ ∀ x, drawn = some x → ¬ Spent w₀.ids x ∧ Spent w.ids x
  | .parked next => w.jobs.find? next.handle.jobId = some (.suspended next) ∧
    ∀ s, claim = some s → w.jobs.find? s.handle.jobId = some (.resuming s)
  | .released => ∀ s, claim = some s → w.jobs.find? s.handle.jobId = some (.suspended s)
  | .movedOn next => w.jobs.find? next.handle.jobId = some (.suspended next) ∧
    ∀ s, claim = some s → w.jobs.find? s.handle.jobId = some (.forwarded next.handle.jobId now)
  | .finished status => ∀ s, claim = some s →
    w.jobs.find? s.handle.jobId = some (.finished status now)

/-- The world has come to what this turn makes of it. -/
structure Took (now : Instant) (claim : Option Suspended) (w₀ w : World T S) (v : Turn) : Prop where
  came : Came now (claim.map (·.handle.jobId)) w₀ w
  shows : Shows now claim w₀ w v

theorem Begins.took (h : w.Begins now claim) : Took now claim w w (.quiet none) :=
  ⟨h.came _, rfl, by rintro _ ⟨⟩⟩

theorem Begins.park (hw₀ : w₀.Begins now claim) {s : Suspended}
    (h : Took now claim w₀ w (.quiet (some s.handle.jobId))) :
    (w.jobs.suspend now s).1 = true ∧
      Took now claim w₀ { w with jobs := (w.jobs.suspend now s).2 } (.parked s) := by
  obtain ⟨hjobs, hdrawn⟩ := h.shows
  obtain ⟨hnew, hspent⟩ := hdrawn _ rfl
  have absent : w₀.jobs.find? s.handle.jobId = none := by
    by_contra hfound
    exact hnew (hw₀.used _ hfound)
  have free : (w.jobs.evict now).find? s.handle.jobId = none := by
    rw [hjobs, JobTable.find?_evict hw₀.linked.ordered, absent]
    rfl
  rw [JobTable.suspend_free free]
  refine ⟨rfl, (h.came.evict hw₀.linked.ordered hjobs).write (.park hnew free) hspent, ?_, ?_⟩
  · exact (JobTable.find?_put ..).trans (if_pos rfl)
  · intro r hr
    have held := hw₀.claims r hr
    have apart : s.handle.jobId ≠ r.handle.jobId := by
      intro hsame
      rw [← hsame, absent] at held
      cases held
    have live : (JobEntry.resuming r).isLive := rfl
    refine (JobTable.find?_put ..).trans ?_
    rw [if_neg apart, hjobs]
    exact JobTable.find?_evict_live hw₀.linked.ordered live held now

/-- What is written for the claimed execution takes the place of the claim. -/
theorem Came.settle {s : Suspended} {e : JobEntry} (h : Came now own w₀ w)
    (held : w.jobs.find? s.handle.jobId = some (.resuming s))
    (hw : JobTable.Write now own (fun x => ¬ Spent w₀.ids x) w.jobs
      (w.jobs.put s.handle.jobId e)) :
    Came now own w₀ { w with jobs := w.jobs.put s.handle.jobId e } ∧
      (w.jobs.put s.handle.jobId e).find? s.handle.jobId = some e := by
  refine ⟨h.write hw (h.used _ ?_), ?_⟩
  · rw [held]
    exact Option.some_ne_none _
  · rw [JobTable.find?_put, if_pos rfl]

variable [ToolServer T]

theorem Begins.answer (hw₀ : w₀.Begins now claim) {r : EngineRequest}
    {K : r.Reply → Turn → Prop} (hr : pauses r = false) (h : Took now claim w₀ w v)
    (hK : turns claim v r K) :
    ∃ v', K (surroundings now r w).reply v' ∧
      Took now claim w₀ (surroundings now r w).world v' := by
  have hshows := h.shows
  cases v with
  | quiet drawn =>
    cases r with
    | freshId =>
      refine ⟨_, hK _, h.came.draw, hshows.1, fun x hx => ?_⟩
      obtain rfl := Option.some_inj.mp hx
      exact ⟨fun hspent => not_spent_fresh w.ids (h.came.spent _ hspent),
        h.came.distinct.spent_fresh⟩
    | tool r =>
      cases r with
      | now => exact ⟨_, hK _, h⟩
      | _ => cases hr
    | store r => cases hr
    | job r =>
      cases r with
      | suspend s =>
        obtain ⟨rfl, hparked⟩ := hK
        obtain ⟨haccepted, htook⟩ := hw₀.park h
        refine ⟨.parked s, ?_, htook⟩
        change K (w.jobs.suspend now s).1 (.parked s)
        rw [haccepted]
        exact hparked
      | release s =>
        obtain ⟨rfl, hreleased⟩ := hK
        have held := hw₀.claims s rfl
        rw [← hshows.1] at held
        obtain ⟨hcame, hfind⟩ := h.came.settle held (.release rfl held)
        refine ⟨.released, hreleased, hcame, ?_⟩
        rintro _ ⟨⟩
        exact hfind
      | forward id next => cases hK
      | finish id status =>
        obtain ⟨⟨s, rfl, rfl⟩, hterminal, hfinished⟩ := hK
        have held := hw₀.claims s rfl
        rw [← hshows.1] at held
        obtain ⟨hcame, hfind⟩ := h.came.settle held (.finish hterminal rfl held)
        refine ⟨.finished status, hfinished, hcame, ?_⟩
        rintro _ ⟨⟩
        exact hfind
  | parked next =>
    cases r with
    | job r =>
      cases r with
      | forward id job =>
        obtain ⟨⟨s, rfl, rfl⟩, rfl, hmoved⟩ := hK
        obtain ⟨hparked, hclaims⟩ := hshows
        have held := hclaims s rfl
        obtain ⟨hcame, hfind⟩ := h.came.settle held (.forward rfl held hparked)
        have apart : s.handle.jobId ≠ next.handle.jobId := by
          intro hsame
          rw [hsame, hparked] at held
          cases held
        refine ⟨.movedOn next, hmoved, hcame, ?_, ?_⟩
        · refine (JobTable.find?_put ..).trans ?_
          rw [if_neg apart]
          exact hparked
        · rintro _ ⟨⟩
          exact hfind
      | _ => cases hK
    | _ => cases hK
  | released => cases r <;> cases hK
  | movedOn next => cases r <;> cases hK
  | finished status => cases r <;> cases hK

/-- Goes on until it has to wait. -/
def coast (now : Instant) : Activity Working α → World T S → Activity Working α × World T S
  | .done a, w => (.done a, w)
  | .ask r next, w =>
    if pauses r then (.ask r next, w)
    else
      let x := surroundings now r w
      coast now (next x.reply) x.world

def turn (now : Instant) : Activity Working α → World T S → Activity Working α × World T S
  | .done a, w => (.done a, w)
  | .ask r next, w =>
    let x := surroundings now r w
    coast now (next x.reply) x.world

/-- At the end of a turn the call has ended, or it waits and has not written to the jobs. -/
def Rests (now : Instant) (claim : Option Suspended) (Q : α → Turn → Prop) (w₀ : World T S)
    (x : Activity Working α × World T S) : Prop :=
  Came now (claim.map (·.handle.jobId)) w₀ x.2 ∧
    ((∃ a v, x.1 = .done a ∧ Q a v ∧ Shows now claim w₀ x.2 v) ∨
      ∃ r next, x.1 = .ask r next ∧ x.1.Assures (turns claim) (.quiet none) Q ∧
        x.2.jobs = w₀.jobs)

/-- Only who has not written to the jobs may wait, and afterwards another turn begins. -/
theorem turns_of_pauses {r : EngineRequest} {K : r.Reply → Turn → Prop} (hr : pauses r = true)
    (h : turns claim v r K) : v.Quiet ∧ ∀ x, K x (.quiet none) := by
  cases v with
  | quiet drawn =>
    cases r with
    | tool r =>
      cases r with
      | now => cases hr
      | _ => exact ⟨⟨drawn, rfl⟩, h⟩
    | store r => exact ⟨⟨drawn, rfl⟩, h⟩
    | _ => cases hr
  | parked next =>
    cases r with
    | job r => cases hr
    | _ => cases h
  | released => cases r <;> cases h
  | movedOn next => cases r <;> cases h
  | finished status => cases r <;> cases h

theorem turns_quiet_of_pauses {r : EngineRequest} {K : r.Reply → Turn → Prop}
    (hr : pauses r = true) (h : ∀ x, K x (.quiet none)) (drawn : Option String) :
    turns claim (.quiet drawn) r K := by
  cases r with
  | tool r =>
    cases r with
    | now => cases hr
    | _ => exact h
  | store r => exact h
  | _ => cases hr

theorem Begins.coast (hw₀ : w₀.Begins now claim) {p : Activity Working α} {Q : α → Turn → Prop}
    (hp : p.Assures (turns claim) v Q) (h : Took now claim w₀ w v) :
    Rests now claim Q w₀ (World.coast now p w) := by
  induction p generalizing v w with
  | done a => exact ⟨h.came, .inl ⟨a, v, rfl, hp, h.shows⟩⟩
  | ask r next ih =>
    rw [World.coast]
    split
    · rename_i hr
      obtain ⟨⟨drawn, rfl⟩, hnext⟩ := turns_of_pauses hr hp
      exact ⟨h.came, .inr ⟨r, next, rfl, turns_quiet_of_pauses hr hnext none, h.shows.1⟩⟩
    · rename_i hr
      obtain ⟨v', hnext, h'⟩ := hw₀.answer (by simpa using hr) h hp
      exact ih _ hnext h'

/-- While a call waits for a reply, its turn begins again. -/
theorem answer_of_pauses (now : Instant) {r : EngineRequest} (hr : pauses r = true)
    (w : World T S) :
    (surroundings now r w).world.jobs = w.jobs ∧ (surroundings now r w).world.ids = w.ids := by
  cases r with
  | freshId => cases hr
  | tool r => exact ⟨rfl, rfl⟩
  | store r => exact ⟨rfl, rfl⟩
  | job r => cases hr

theorem Begins.turn (hw₀ : w₀.Begins now claim) {p : Activity Working α} {Q : α → Turn → Prop}
    (hp : p.Assures (turns claim) (.quiet none) Q) : Rests now claim Q w₀ (World.turn now p w₀) := by
  cases p with
  | done a => exact ⟨hw₀.came _, .inl ⟨a, _, rfl, hp, rfl, by rintro _ ⟨⟩⟩⟩
  | ask r next =>
    rw [World.turn]
    by_cases hr : pauses r = true
    · obtain ⟨hjobs, hids⟩ := answer_of_pauses now hr w₀
      have took : Took now claim w₀ (surroundings now r w₀).world (.quiet none) :=
        ⟨(hw₀.came _).congr hjobs hids, hjobs, by rintro _ ⟨⟩⟩
      exact hw₀.coast ((turns_of_pauses hr hp).2 _) took
    · obtain ⟨v, hnext, took⟩ := hw₀.answer (by simpa using hr) hw₀.took hp
      exact hw₀.coast hnext took

end World

end PlaybookEngine
