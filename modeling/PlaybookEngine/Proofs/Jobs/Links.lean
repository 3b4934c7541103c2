import PlaybookEngine.Proofs.Jobs.Trail
import Mathlib.Logic.Relation

namespace PlaybookEngine.JobTable

variable {t t' : JobTable} {now later : Instant} {own : Option String} {fresh : String → Prop}
  {id job k : String} {path : List String} {e e' : JobEntry}

/-- One write by somebody who has claimed the job `own` and may park executions under fresh ids. -/
inductive Write (now : Instant) (own : Option String) (fresh : String → Prop) :
    JobTable → JobTable → Prop
  | park {t : JobTable} {s : Suspended} (unused : fresh s.handle.jobId)
    (free : t.find? s.handle.jobId = none) :
    Write now own fresh t (t.put s.handle.jobId (.suspended s))
  | claim {t : JobTable} {s : Suspended} (parked : t.find? s.handle.jobId = some (.suspended s)) :
    Write now own fresh t (t.put s.handle.jobId (.resuming s))
  | release {t : JobTable} {s : Suspended} (mine : own = some s.handle.jobId)
    (held : t.find? s.handle.jobId = some (.resuming s)) :
    Write now own fresh t (t.put s.handle.jobId (.suspended s))
  | forward {t : JobTable} {s next : Suspended} (mine : own = some s.handle.jobId)
    (held : t.find? s.handle.jobId = some (.resuming s))
    (parked : t.find? next.handle.jobId = some (.suspended next)) :
    Write now own fresh t (t.put s.handle.jobId (.forwarded next.handle.jobId now))
  | finish {t : JobTable} {s : Suspended} {status : JobStatus} (terminal : status.isTerminal = true)
    (mine : own = some s.handle.jobId) (held : t.find? s.handle.jobId = some (.resuming s)) :
    Write now own fresh t (t.put s.handle.jobId (.finished status now))

/-- What somebody does to the table at one point in time: some writes, perhaps after what has
expired was evicted. -/
def Changes (now : Instant) (own : Option String) (fresh : String → Prop) (t t' : JobTable) :
    Prop :=
  ∃ t₁, (t₁ = t ∨ t₁ = t.evict now) ∧ Relation.ReflTransGen (Write now own fresh) t₁ t'

/-- The entry was settled then at the latest, or it is not settled. -/
def SettledBy (e : JobEntry) (now : Instant) : Prop := ∀ since, e.settledAt? = some since → since ≤ now

/-- The entry was settled then at the earliest, or it is not settled. -/
def SettledFrom (now : Instant) (e : JobEntry) : Prop := ∀ since, e.settledAt? = some since → now ≤ since

/-- Parked and claimed executions lie under their own jobs, and only what a job came to in the end
is kept. Links lead to entries that are there and
were settled later, and they never lead in a circle. -/
structure Linked (t : JobTable) (now : Instant) : Prop where
  ordered : t.Ordered
  keyed : ∀ id s, t.find? id = some (.suspended s) ∨ t.find? id = some (.resuming s) →
    s.handle.jobId = id
  terminal : ∀ id status since, t.find? id = some (.finished status since) →
    status.isTerminal = true
  past : ∀ id e, t.find? id = some e → SettledBy e now
  links : ∀ id next since, t.find? id = some (.forwarded next since) →
    ∃ e, t.find? next = some e ∧ SettledFrom since e
  rank : ∃ rank : String → Nat, ∀ id next since,
    t.find? id = some (.forwarded next since) → rank next < rank id

theorem linked_empty (ttl : Span) (now : Instant) : (empty ttl).Linked now where
  ordered := ordered_empty ttl
  keyed id s h := by rcases h with h | h <;> cases h
  terminal id status since h := by cases h
  past id e h := by cases h
  links id next since h := by cases h
  rank := ⟨fun _ => 0, fun id next since h => by cases h⟩

theorem Linked.mono (h : t.Linked now) (hle : now ≤ later) : t.Linked later :=
  ⟨h.ordered, h.keyed, h.terminal, fun id e he since hs => (h.past id e he since hs).trans hle, h.links, h.rank⟩

theorem isFresh_of_later {since : Instant} {ttl : Span} (hfresh : now - since < ttl)
    (he : SettledFrom since e) : isFresh ttl now e = true := by
  rw [isFresh]
  split
  · rename_i later hlater
    have earlier : now - later ≤ now - since := Nat.sub_le_sub_left (he later hlater) now
    exact decide_eq_true (earlier.trans_lt hfresh)
  · rfl

theorem Linked.evict (h : t.Linked now) : (t.evict now).Linked now where
  ordered := h.ordered.evict now
  keyed id s hs := h.keyed id s (hs.imp (find?_of_evict h.ordered) (find?_of_evict h.ordered))
  terminal id status since hs := h.terminal id status since (find?_of_evict h.ordered hs)
  past id e he := h.past id e (find?_of_evict h.ordered he)
  links id next since hid := by
    obtain ⟨e, he, hlater⟩ := h.links id next since (find?_of_evict h.ordered hid)
    refine ⟨e, ?_, hlater⟩
    rw [find?_evict h.ordered, Option.filter_eq_some_iff] at hid
    have fresh : now - since < t.resultTtl := by
      simpa [isFresh, JobEntry.settledAt?] using hid.2
    rw [find?_evict h.ordered, he]
    simp [Option.filter, isFresh_of_later fresh hlater]
  rank := by
    obtain ⟨rank, hrank⟩ := h.rank
    exact ⟨rank, fun id next since hid => hrank id next since (find?_of_evict h.ordered hid)⟩

/-- An entry is written that is settled now if at all; a link leads to a parked execution. -/
theorem Linked.put (h : t.Linked now)
    (hkeyed : ∀ s, e = .suspended s ∨ e = .resuming s → s.handle.jobId = k)
    (hterminal : ∀ status since, e = .finished status since → status.isTerminal = true)
    (hnow : ∀ since, e.settledAt? = some since → since = now)
    (hlink : ∀ next since, e = .forwarded next since →
      next ≠ k ∧ ∃ s, t.find? next = some (.suspended s)) : (t.put k e).Linked now where
  ordered := h.ordered.put k e
  keyed id s hs := by
    rw [find?_put] at hs
    by_cases hid : k = id
    · subst hid
      rw [if_pos rfl, Option.some_inj, Option.some_inj] at hs
      exact hkeyed s hs
    · rw [if_neg hid] at hs
      exact h.keyed id s hs
  terminal id status since hs := by
    rw [find?_put] at hs
    split at hs
    · exact hterminal status since (Option.some_inj.mp hs)
    · exact h.terminal id status since hs
  past id x hx since hsince := by
    rw [find?_put] at hx
    split at hx
    · obtain rfl := Option.some_inj.mp hx
      exact (hnow since hsince).le
    · exact h.past id x hx since hsince
  links id next since hid := by
    rw [find?_put] at hid
    by_cases hk : k = id
    · rw [if_pos hk, Option.some_inj] at hid
      obtain ⟨hne, s, hs⟩ := hlink next since hid
      refine ⟨_, by rw [find?_put, if_neg hne.symm, hs], fun later hl => ?_⟩
      cases hl
    · rw [if_neg hk] at hid
      obtain ⟨x, hx, hlater⟩ := h.links id next since hid
      by_cases hnext : k = next
      · refine ⟨e, by rw [find?_put, if_pos hnext], fun later hl => ?_⟩
        rw [hnow later hl]
        exact h.past id _ hid since rfl
      · exact ⟨x, by rw [find?_put, if_neg hnext, hx], hlater⟩
  rank := by
    obtain ⟨rank, hrank⟩ := h.rank
    cases e with
    | forwarded next since =>
      obtain ⟨hne, s, hs⟩ := hlink next since rfl
      refine ⟨fun j => if j = next then 0 else rank j + 1, fun id next' since' hid => ?_⟩
      rw [find?_put] at hid
      by_cases hk : k = id
      · rw [if_pos hk, Option.some_inj] at hid
        cases hid
        simp [← hk, hne.symm]
      · rw [if_neg hk] at hid
        have hid' : id ≠ next := by
          rintro rfl
          rw [hs] at hid
          cases hid
        have := hrank id next' since' hid
        by_cases hnext : next' = next
        · simp [hnext, hid']
        · simp [hnext, hid']
          omega
    | _ =>
      refine ⟨rank, fun id next since hid => ?_⟩
      rw [find?_put] at hid
      split at hid
      · cases hid
      · exact hrank id next since hid

theorem Write.eq_put (h : Write now own fresh t t') :
    ∃ k e, t' = t.put k e ∧
      (t.find? k = none ∧ fresh k ∨ (∃ s, t.find? k = some (.suspended s)) ∨
        own = some k ∧ ∃ s, t.find? k = some (.resuming s)) ∧
      ∀ since, e.settledAt? = some since → since = now := by
  cases h with
  | park unused free => exact ⟨_, _, rfl, .inl ⟨free, unused⟩, nofun⟩
  | claim parked => exact ⟨_, _, rfl, .inr (.inl ⟨_, parked⟩), nofun⟩
  | release mine held => exact ⟨_, _, rfl, .inr (.inr ⟨mine, _, held⟩), nofun⟩
  | forward mine held parked =>
    exact ⟨_, _, rfl, .inr (.inr ⟨mine, _, held⟩), fun since h => (Option.some_inj.mp h).symm⟩
  | finish terminal mine held =>
    exact ⟨_, _, rfl, .inr (.inr ⟨mine, _, held⟩), fun since h => (Option.some_inj.mp h).symm⟩

theorem Write.linked (hw : Write now own fresh t t') (h : t.Linked now) : t'.Linked now := by
  cases hw with
  | park unused free =>
    refine h.put (fun r hr => ?_) (fun _ _ heq => by cases heq) nofun nofun
    rcases hr with hr | hr <;> cases hr
    rfl
  | claim parked =>
    refine h.put (fun r hr => ?_) (fun _ _ heq => by cases heq) nofun nofun
    rcases hr with hr | hr <;> cases hr
    rfl
  | release mine held =>
    refine h.put (fun r hr => ?_) (fun _ _ heq => by cases heq) nofun nofun
    rcases hr with hr | hr <;> cases hr
    rfl
  | @forward s next mine held parked =>
    refine h.put (fun r hr => ?_) (fun _ _ heq => by cases heq) (fun since hsince => ?_) fun j since heq => ?_
    · rcases hr with hr | hr <;> cases hr
    · exact (Option.some_inj.mp hsince).symm
    · cases heq
      refine ⟨?_, next, parked⟩
      intro hsame
      rw [hsame, held] at parked
      cases parked
  | finish terminal mine held =>
    refine h.put (fun r hr => ?_) (fun status since heq => ?_) (fun since hsince => ?_) nofun
    · rcases hr with hr | hr <;> cases hr
    · cases heq
      exact terminal
    · exact (Option.some_inj.mp hsince).symm

/-- A settled entry stays as it is, and any other one is settled now if at all. -/
theorem Write.find? (h : Write now own fresh t t') (hid : t.find? id = some e) :
    ∃ e', t'.find? id = some e' ∧
      (e' = e ∨ e.isLive ∧ ∀ since, e'.settledAt? = some since → since = now) := by
  obtain ⟨k, x, rfl, hold, hnow⟩ := h.eq_put
  by_cases hk : k = id
  · subst hk
    refine ⟨x, by rw [find?_put, if_pos rfl], .inr ⟨?_, hnow⟩⟩
    rcases hold with ⟨hnone, -⟩ | ⟨s, hs⟩ | ⟨-, s, hs⟩
    · rw [hnone] at hid
      cases hid
    · rw [hs] at hid
      cases hid
      rfl
    · rw [hs] at hid
      cases hid
      rfl
  · exact ⟨e, by rw [find?_put, if_neg hk, hid], .inl rfl⟩

theorem Write.settled (h : Write now own fresh t t') (hid : t.find? id = some e)
    (he : ¬ e.isLive) : t'.find? id = some e := by
  obtain ⟨e', he', rfl | ⟨hlive, -⟩⟩ := h.find? hid
  · exact he'
  · exact absurd hlive he

theorem Write.held (h : Write now own fresh t t') {s : Suspended}
    (hid : t.find? id = some (.resuming s)) (hown : own ≠ some id) :
    t'.find? id = some (.resuming s) := by
  obtain ⟨k, x, rfl, hold, -⟩ := h.eq_put
  have hk : k ≠ id := by
    rintro rfl
    rcases hold with ⟨hnone, -⟩ | ⟨r, hr⟩ | ⟨hmine, -⟩
    · rw [hnone] at hid
      cases hid
    · rw [hr] at hid
      cases hid
    · exact hown hmine
  rw [find?_put, if_neg hk, hid]

theorem Write.of_find? (h : Write now own fresh t t') (hid : t'.find? id ≠ none)
    (hfresh : ¬ fresh id) : t.find? id ≠ none := by
  obtain ⟨k, x, rfl, hold, -⟩ := h.eq_put
  rw [find?_put] at hid
  by_cases hk : k = id
  · subst hk
    rcases hold with ⟨-, hnew⟩ | ⟨s, hs⟩ | ⟨-, s, hs⟩
    · exact absurd hnew hfresh
    · rw [hs]
      exact Option.some_ne_none _
    · rw [hs]
      exact Option.some_ne_none _
  · rwa [if_neg hk] at hid

theorem Write.resultTtl (h : Write now own fresh t t') : t'.resultTtl = t.resultTtl := by
  obtain ⟨k, x, rfl, -, -⟩ := h.eq_put
  rfl

theorem Write.inTime (h : Write now own fresh t t') (hid : t'.InTime now id)
    (hfresh : ¬ fresh id) : t.InTime now id := by
  obtain ⟨e', he', hin⟩ := hid
  obtain ⟨e, he⟩ := Option.ne_none_iff_exists'.mp (h.of_find? (he' ▸ Option.some_ne_none _) hfresh)
  obtain ⟨x, hx, hsame⟩ := h.find? he
  rw [he'] at hx
  obtain rfl := Option.some_inj.mp hx
  rcases hsame with rfl | ⟨hlive, -⟩
  · exact ⟨e', he, h.resultTtl ▸ hin⟩
  · exact ⟨e, he, isFresh_of_isLive hlive _ _⟩

theorem Write.trail {lo hi : Instant} (h : Write now own fresh t t')
    (htrail : t.Trail hi lo id path) : t'.Trail hi lo id path := by
  induction path generalizing lo id with
  | nil => trivial
  | cons next rest ih =>
    obtain ⟨since, hlow, hhigh, hfind, hrest⟩ := htrail
    exact ⟨since, hlow, hhigh, h.settled hfind nofun, ih hrest⟩

/-- No trail comes back. -/
theorem Linked.nodup (h : t.Linked now) {lo hi : Instant} (htrail : t.Trail hi lo id path) :
    (id :: path).Nodup := by
  obtain ⟨rank, hrank⟩ := h.rank
  suffices lower : (∀ j ∈ path, rank j < rank id) ∧ (id :: path).Nodup from lower.2
  induction path generalizing lo id with
  | nil => simp
  | cons next rest ih =>
    obtain ⟨since, -, -, hfind, hrest⟩ := htrail
    have hless := hrank id next since hfind
    obtain ⟨hlower, hnodup⟩ := ih hrest
    have below : ∀ j ∈ next :: rest, rank j < rank id := by
      intro j hj
      rcases List.mem_cons.mp hj with rfl | hj
      · exact hless
      · exact (hlower j hj).trans hless
    exact ⟨below, List.nodup_cons.mpr ⟨fun hmem => (below id hmem).false, hnodup⟩⟩

/-- From a job with an entry the links lead to an entry that is no link. -/
theorem Linked.trail (h : t.Linked now) {lo : Instant} (hid : t.find? id = some e)
    (hlo : SettledFrom lo e) :
    ∃ path e', t.Trail now lo id path ∧ t.find? (path.getLastD id) = some e' ∧
      ∀ next since, e' ≠ .forwarded next since := by
  obtain ⟨rank, hrank⟩ := h.rank
  induction hn : rank id using Nat.strong_induction_on generalizing id e lo with
  | _ n ih =>
    by_cases hend : ∃ next since, e = .forwarded next since
    · obtain ⟨next, since, rfl⟩ := hend
      obtain ⟨x, hx, hlater⟩ := h.links id next since hid
      obtain ⟨path, e', htrail, hlast⟩ := ih _ (hn ▸ hrank id next since hid) hx hlater rfl
      refine ⟨next :: path, e', ⟨since, hlo since rfl, h.past id _ hid since rfl, hid, htrail⟩, ?_⟩
      rw [List.getLastD_cons]
      exact hlast
    · exact ⟨[], e, trivial, hid, fun next since heq => hend ⟨next, since, heq⟩⟩

theorem Linked.inTime_last (h : t.Linked now) {lo hi : Instant} (htrail : t.Trail hi lo id path)
    (hin : t.InTime now id) : t.InTime now (path.getLastD id) := by
  induction path generalizing lo id with
  | nil => exact hin
  | cons next rest ih =>
    obtain ⟨since, -, -, hfind, hrest⟩ := htrail
    obtain ⟨e, he, hfresh⟩ := hin
    rw [hfind] at he
    obtain rfl := Option.some_inj.mp he
    have fresh : now - since < t.resultTtl := by
      simpa [isFresh, JobEntry.settledAt?] using hfresh
    obtain ⟨x, hx, hlater⟩ := h.links id next since hfind
    rw [List.getLastD_cons]
    exact ih hrest ⟨x, hx, isFresh_of_later fresh hlater⟩

theorem find?_evict_of_inTime (hord : t.Ordered) (hin : t.InTime now id) :
    (t.evict now).find? id = t.find? id := by
  obtain ⟨e, he, hfresh⟩ := hin
  rw [find?_evict hord, he]
  simp [Option.filter, hfresh]

/-- A claim follows the links to the entry that they lead to. -/
theorem Linked.claimCurrent (h : t.Linked now) {lo : Instant} (hin : t.InTime now id)
    (htrail : t.Trail now lo id path) (hlast : t.find? (path.getLastD id) = some e)
    (hend : ∀ next since, e ≠ .forwarded next since) :
    t.claimCurrent now id =
      (path.getLastD id, told e, (t.evict now).taken (path.getLastD id) e) := by
  have last := find?_evict_of_inTime h.ordered (h.inTime_last htrail hin)
  rw [hlast] at last
  have found := claimLast_of_trail (t.evict_evict now) (htrail.evict_of_inTime h.ordered hin)
    (htrail.length_le (h.nodup htrail)) last hend
  rw [JobTable.claimCurrent, ← claimLast_evict, found]

theorem Linked.claimCurrent_unknown (h : t.Linked now) (hin : ¬ t.InTime now id) :
    t.claimCurrent now id = (id, .unknown, t.evict now) := by
  have gone := find?_evict_of_not_inTime h.ordered hin
  have claimed : t.claim now id = (.unknown, t.evict now) := by
    rw [claim_eq, gone]
  rw [JobTable.claimCurrent, claimLast_eq, claimed]

/-- A job that has an entry which has not expired leads to one that is no link. -/
theorem Linked.claimCurrent_cases (h : t.Linked now) (hin : t.InTime now id) :
    ∃ path e, t.Trail now 0 id path ∧ t.find? (path.getLastD id) = some e ∧
      (∀ next since, e ≠ .forwarded next since) ∧ t.claimCurrent now id =
        (path.getLastD id, told e, (t.evict now).taken (path.getLastD id) e) := by
  have hin' := hin
  obtain ⟨first, hfirst, -⟩ := hin'
  obtain ⟨path, e, htrail, hlast, hend⟩ := h.trail hfirst fun since _ => Nat.zero_le since
  exact ⟨path, e, htrail, hlast, hend, h.claimCurrent hin htrail hlast hend⟩

/-- A claim never runs out of links. -/
theorem Linked.claimLast_eq_claimCurrent (h : t.Linked now) (id : String) {links : Nat}
    (hlinks : t.entries.length ≤ links) : claimLast links t now id = t.claimCurrent now id := by
  by_cases hin : t.InTime now id
  · obtain ⟨path, e, htrail, hlast, hend, hclaim⟩ := h.claimCurrent_cases hin
    have last := find?_evict_of_inTime h.ordered (h.inTime_last htrail hin)
    rw [hlast] at last
    have short := (htrail.length_le (h.nodup htrail)).trans hlinks
    rw [hclaim, ← claimLast_evict]
    exact claimLast_of_trail (t.evict_evict now) (htrail.evict_of_inTime h.ordered hin) short last
      hend
  · have claimed : t.claim now id = (.unknown, t.evict now) := by
      rw [claim_eq, find?_evict_of_not_inTime h.ordered hin]
    rw [h.claimCurrent_unknown hin, claimLast_eq, claimed]

/-- No job leads back to itself. -/
theorem Linked.acyclic (h : t.Linked now) (id : String) :
    ¬ Relation.TransGen (fun a b => ∃ since, t.find? a = some (.forwarded b since)) id id := by
  obtain ⟨rank, hrank⟩ := h.rank
  have lower {a b : String}
      (hab : Relation.TransGen (fun a b => ∃ since, t.find? a = some (.forwarded b since)) a b) :
      rank b < rank a := by
    induction hab with
    | single hlink =>
      obtain ⟨since, hfind⟩ := hlink
      exact hrank _ _ since hfind
    | tail _ hlink ih =>
      obtain ⟨since, hfind⟩ := hlink
      exact (hrank _ _ since hfind).trans ih
  intro hcycle
  exact (lower hcycle).false

theorem changes_refl (t : JobTable) : Changes now own fresh t t := ⟨t, .inl rfl, .refl⟩

theorem changes_evict (t : JobTable) : Changes now own fresh t (t.evict now) :=
  ⟨_, .inr rfl, .refl⟩

theorem Changes.write {t₂ : JobTable} (h : Changes now own fresh t t')
    (hw : Write now own fresh t' t₂) : Changes now own fresh t t₂ := by
  obtain ⟨t₁, hfirst, hwrites⟩ := h
  exact ⟨t₁, hfirst, hwrites.tail hw⟩

section Changes

variable (hc : Changes now own fresh t t')
include hc

theorem Changes.linked (h : t.Linked now) : t'.Linked now := by
  obtain ⟨t₁, hfirst, hwrites⟩ := hc
  have start : t₁.Linked now := by
    rcases hfirst with rfl | rfl
    · exact h
    · exact h.evict
  clear hfirst
  induction hwrites with
  | refl => exact start
  | tail _ hw ih => exact hw.linked ih

theorem Changes.resultTtl : t'.resultTtl = t.resultTtl := by
  obtain ⟨t₁, hfirst, hwrites⟩ := hc
  have start : t₁.resultTtl = t.resultTtl := by
    rcases hfirst with rfl | rfl <;> rfl
  clear hfirst
  induction hwrites with
  | refl => exact start
  | tail _ hw ih => exact hw.resultTtl.trans ih

theorem Changes.held (h : t.Linked now) {s : Suspended} (hid : t.find? id = some (.resuming s))
    (hown : own ≠ some id) : t'.find? id = some (.resuming s) := by
  obtain ⟨t₁, hfirst, hwrites⟩ := hc
  have start : t₁.find? id = some (.resuming s) := by
    rcases hfirst with rfl | rfl
    · exact hid
    · have live : (JobEntry.resuming s).isLive := rfl
      exact find?_evict_live h.ordered live hid now
  clear hfirst
  induction hwrites with
  | refl => exact start
  | tail _ hw ih => exact hw.held ih hown

/-- An entry stays as it is, is settled now, or had expired. -/
theorem Changes.find? (h : t.Linked now) (hid : t.find? id = some e) :
    (∃ e', t'.find? id = some e' ∧
      (e' = e ∨ e.isLive ∧ ∀ since, e'.settledAt? = some since → since = now)) ∨
      isFresh t.resultTtl now e = false := by
  obtain ⟨t₁, hfirst, hwrites⟩ := hc
  have start : t₁.find? id = some e ∨ isFresh t.resultTtl now e = false := by
    rcases hfirst with rfl | rfl
    · exact .inl hid
    · by_cases hfresh : isFresh t.resultTtl now e
      · exact .inl ((find?_evict_of_inTime h.ordered ⟨e, hid, hfresh⟩).trans hid)
      · exact .inr (by simpa using hfresh)
  refine start.imp_left fun hstart => ?_
  clear hfirst start
  induction hwrites with
  | refl => exact ⟨e, hstart, .inl rfl⟩
  | tail _ hw ih =>
    obtain ⟨x, hx, hsame⟩ := ih
    obtain ⟨y, hy, hsame'⟩ := hw.find? hx
    refine ⟨y, hy, ?_⟩
    rcases hsame' with rfl | ⟨hlive, hnow⟩
    · exact hsame
    · rcases hsame with rfl | ⟨hlive', -⟩
      · exact .inr ⟨hlive, hnow⟩
      · exact .inr ⟨hlive', hnow⟩

theorem Changes.inTime (h : t.Linked now) (hin : t'.InTime now id) (hfresh : ¬ fresh id) :
    t.InTime now id := by
  obtain ⟨t₁, hfirst, hwrites⟩ := hc
  have start : t₁.InTime now id := by
    clear hfirst
    induction hwrites with
    | refl => exact hin
    | tail _ hw ih => exact ih (hw.inTime hin hfresh)
  rcases hfirst with rfl | rfl
  · exact start
  · obtain ⟨e, he, hfresh'⟩ := start
    exact ⟨e, find?_of_evict h.ordered he, hfresh'⟩

theorem Changes.trail (h : t.Linked now) {lo hi : Instant} (hin : t.InTime now id)
    (htrail : t.Trail hi lo id path) : t'.Trail hi lo id path := by
  obtain ⟨t₁, hfirst, hwrites⟩ := hc
  have start : t₁.Trail hi lo id path := by
    rcases hfirst with rfl | rfl
    · exact htrail
    · exact htrail.evict_of_inTime h.ordered hin
  clear hfirst
  induction hwrites with
  | refl => exact start
  | tail _ hw ih => exact hw.trail ih

end Changes

/-- As long as its own entry has not expired, the job leads to another one. -/
def Heads (t : JobTable) (now : Instant) (id job : String) : Prop :=
  t.InTime now id → ∃ path, t.Trail now 0 id path ∧ path.getLastD id = job

/-- As long as its own entry has not expired, the job leads to one that ended with the status. -/
def Answers (t : JobTable) (now : Instant) (id : String) (status : JobStatus) : Prop :=
  t.InTime now id → ∃ path since, t.Trail now 0 id path ∧
    t.find? (path.getLastD id) = some (.finished status since)

theorem isFresh_before {ttl : Span} (hle : now ≤ later) (h : isFresh ttl later e = true) :
    isFresh ttl now e = true := by
  rw [isFresh] at h ⊢
  split
  · rename_i since hsince
    rw [hsince] at h
    have earlier : now - since ≤ later - since := Nat.sub_le_sub_right hle since
    exact decide_eq_true (earlier.trans_lt (of_decide_eq_true h))
  · rfl

theorem InTime.of_later (h : t.InTime later id) (hle : now ≤ later) : t.InTime now id := by
  obtain ⟨e, he, hfresh⟩ := h
  exact ⟨e, he, isFresh_before hle hfresh⟩

theorem Heads.mono (h : t.Heads now id job) (hle : now ≤ later) : t.Heads later id job := by
  intro hin
  obtain ⟨path, htrail, hlast⟩ := h (hin.of_later hle)
  exact ⟨path, htrail.mono hle, hlast⟩

theorem Answers.mono {status : JobStatus} (h : t.Answers now id status) (hle : now ≤ later) :
    t.Answers later id status := by
  intro hin
  obtain ⟨path, since, htrail, hlast⟩ := h (hin.of_later hle)
  exact ⟨path, since, htrail.mono hle, hlast⟩

theorem Changes.heads (hc : Changes now own fresh t t') (h : t.Linked now)
    (hheads : t.Heads now id job) (hfresh : ¬ fresh id) : t'.Heads now id job := by
  intro hin'
  have hin := hc.inTime h hin' hfresh
  obtain ⟨path, htrail, hlast⟩ := hheads hin
  exact ⟨path, hc.trail h hin htrail, hlast⟩

theorem Changes.answers (hc : Changes now own fresh t t') (h : t.Linked now) {status : JobStatus}
    (hanswers : t.Answers now id status) (hfresh : ¬ fresh id) : t'.Answers now id status := by
  intro hin'
  have hin := hc.inTime h hin' hfresh
  obtain ⟨path, since, htrail, hlast⟩ := hanswers hin
  refine ⟨path, since, hc.trail h hin htrail, ?_⟩
  obtain ⟨x, hx, hfresh'⟩ := h.inTime_last htrail hin
  rw [hlast] at hx
  obtain rfl := Option.some_inj.mp hx
  rcases hc.find? h hlast with ⟨e', he', rfl | ⟨hlive, -⟩⟩ | hexpired
  · exact he'
  · cases hlive
  · rw [hfresh'] at hexpired
    cases hexpired

end PlaybookEngine.JobTable
