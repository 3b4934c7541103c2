import PlaybookEngine.Proofs.Fields.Holding
import PlaybookEngine.Proofs.Jobs.Table
import Mathlib.Data.List.Nodup
import Mathlib.Data.List.Perm.Subperm

namespace PlaybookEngine.JobTable

variable {t : JobTable} {now lo hi : Instant} {id k : String} {path : List String}

/-- Each entry was forwarded to the next job of the path, none before `lo`, none before the one in
front of it and none after `hi`. -/
def Trail (t : JobTable) (hi : Instant) : Instant → String → List String → Prop
  | _, _, [] => True
  | lo, id, next :: rest => ∃ since, lo ≤ since ∧ since ≤ hi ∧
      t.find? id = some (.forwarded next since) ∧ Trail t hi since next rest

theorem evict_evict (t : JobTable) (now : Instant) : (t.evict now).evict now = t.evict now := by
  simp [evict, List.filter_filter]

theorem claim_evict (t : JobTable) (now : Instant) (id : String) :
    (t.evict now).claim now id = t.claim now id := by
  rw [claim_eq, claim_eq, evict_evict]

theorem claimLast_eq (links : Nat) (t : JobTable) (now : Instant) (id : String) :
    claimLast links t now id =
      match t.claim now id, links with
      | (.forwarded next, t), links + 1 => claimLast links t now next
      | (.forwarded _, t), 0 => (id, .unknown, t)
      | (c, t), _ => (id, c, t) := claimLast.eq_def links t now id

theorem claimLast_evict (links : Nat) (t : JobTable) (now : Instant) (id : String) :
    claimLast links (t.evict now) now id = claimLast links t now id := by
  rw [claimLast_eq, claimLast_eq, claim_evict]

/-- When the first entry of a trail has not expired, none has. -/
theorem Trail.evict (h : t.Trail hi lo id path) (hord : t.Ordered) (hlo : now - lo < t.resultTtl) :
    (t.evict now).Trail hi lo id path := by
  induction path generalizing lo id with
  | nil => trivial
  | cons next rest ih =>
    obtain ⟨since, hlow, hhigh, hfind, hrest⟩ := h
    have fresh : now - since < t.resultTtl := (Nat.sub_le_sub_left hlow now).trans_lt hlo
    refine ⟨since, hlow, hhigh, ?_, ih hrest fresh⟩
    rw [find?_evict hord, hfind]
    simp [Option.filter, isFresh, JobEntry.settledAt?, fresh]

theorem Trail.put (h : t.Trail hi lo id path) (hk : k ∉ (id :: path).dropLast) (e : JobEntry) :
    (t.put k e).Trail hi lo id path := by
  induction path generalizing lo id with
  | nil => trivial
  | cons next rest ih =>
    obtain ⟨since, hlow, hhigh, hfind, hrest⟩ := h
    rw [List.dropLast_cons_of_ne_nil (List.cons_ne_nil _ _), List.mem_cons, not_or] at hk
    refine ⟨since, hlow, hhigh, ?_, ih hrest hk.2⟩
    rw [find?_put, if_neg hk.1, hfind]

theorem Trail.snoc {next : String} (h : t.Trail hi lo id path) (hlo : lo ≤ now) (hhi : hi ≤ now)
    (hlast : t.find? (path.getLastD id) = some (.forwarded next now)) :
    t.Trail now lo id (path ++ [next]) := by
  induction path generalizing lo id with
  | nil => exact ⟨now, hlo, le_rfl, hlast, trivial⟩
  | cons first rest ih =>
    obtain ⟨since, hlow, hhigh, hfind, hrest⟩ := h
    rw [List.getLastD_cons] at hlast
    exact ⟨since, hlow, hhigh.trans hhi, hfind, ih hrest (hhigh.trans hhi) hlast⟩

theorem Trail.find?_ne_none (h : t.Trail hi lo id path) :
    ∀ j ∈ (id :: path).dropLast, t.find? j ≠ none := by
  induction path generalizing lo id with
  | nil =>
    intro j hj
    exact absurd hj List.not_mem_nil
  | cons next rest ih =>
    obtain ⟨since, -, -, hfind, hrest⟩ := h
    intro j hj
    rw [List.dropLast_cons_of_ne_nil (List.cons_ne_nil _ _)] at hj
    rcases List.mem_cons.mp hj with rfl | hj
    · rw [hfind]
      exact nofun
    · exact ih hrest j hj

theorem mem_keys_of_find? (h : t.find? id ≠ none) : id ∈ Fields.keys t.entries :=
  Fields.mem_keys_iff.mpr h

theorem Trail.length_le (h : t.Trail hi lo id path) (hnodup : (id :: path).Nodup) :
    path.length ≤ t.entries.length := by
  have sub : (id :: path).dropLast ⊆ Fields.keys t.entries := fun j hj =>
    mem_keys_of_find? (h.find?_ne_none j hj)
  have nodup : (id :: path).dropLast.Nodup := hnodup.sublist (List.dropLast_sublist _)
  have le := (nodup.subperm sub).length_le
  simpa [Fields.keys] using le

/-- What a claim tells of an entry. -/
def told : JobEntry → Claim
  | .suspended s => .owned s
  | .resuming s => .busy s.handle
  | .forwarded next _ => .forwarded next
  | .finished status _ => .finished status

/-- The table after a claim of a job with the entry: a parked execution is claimed. -/
def taken (t : JobTable) (id : String) : JobEntry → JobTable
  | .suspended s => t.put id (.resuming s)
  | _ => t

theorem claim_of_find? {e : JobEntry} (heq : t.evict now = t) (hfind : t.find? id = some e) :
    t.claim now id = (told e, t.taken id e) := by
  rw [claim_eq, heq, hfind]
  cases e <;> rfl

/-- A claim follows a trail to its end. -/
theorem claimLast_of_trail {e : JobEntry} {links : Nat} (heq : t.evict now = t)
    (h : t.Trail hi lo id path) (hlen : path.length ≤ links)
    (hlast : t.find? (path.getLastD id) = some e)
    (hend : ∀ next since, e ≠ .forwarded next since) :
    claimLast links t now id = (path.getLastD id, told e, t.taken (path.getLastD id) e) := by
  induction path generalizing links lo id with
  | nil =>
    rw [List.getLastD_nil] at hlast
    rw [claimLast_eq, claim_of_find? heq hlast]
    cases e with
    | forwarded next since => exact absurd rfl (hend next since)
    | _ => rfl
  | cons next rest ih =>
    obtain ⟨since, -, -, hfind, hrest⟩ := h
    rw [claimLast_eq, claim_of_find? heq hfind]
    cases links with
    | zero => simp at hlen
    | succ links =>
      rw [List.getLastD_cons] at hlast ⊢
      exact ih hrest (by simpa using hlen) hlast

def InTime (t : JobTable) (now : Instant) (id : String) : Prop :=
  ∃ e, t.find? id = some e ∧ isFresh t.resultTtl now e = true

theorem find?_evict_of_not_inTime (hord : t.Ordered) (h : ¬ t.InTime now id) :
    (t.evict now).find? id = none := by
  rw [find?_evict hord]
  cases hfind : t.find? id with
  | none => rfl
  | some e =>
    have expired : isFresh t.resultTtl now e = false := by
      simpa using fun fresh => h ⟨e, hfind, fresh⟩
    simp [Option.filter, expired]

theorem Trail.evict_of_inTime (h : t.Trail hi lo id path) (hord : t.Ordered)
    (hin : t.InTime now id) : (t.evict now).Trail hi lo id path := by
  cases path with
  | nil => trivial
  | cons next rest =>
    obtain ⟨e, hfirst, hfresh⟩ := hin
    obtain ⟨since, hlow, hhigh, hfind, hrest⟩ := h
    rw [hfind] at hfirst
    cases hfirst
    have fresh : now - since < t.resultTtl := by
      simpa [isFresh, JobEntry.settledAt?] using hfresh
    have self : t.Trail hi since id (next :: rest) := ⟨since, le_rfl, hhigh, hfind, hrest⟩
    obtain ⟨since', hlow', rest'⟩ := self.evict hord fresh
    exact ⟨since', hlow.trans hlow', rest'⟩

theorem Trail.mono {hi' : Instant} (h : t.Trail hi lo id path) (hhi : hi ≤ hi') :
    t.Trail hi' lo id path := by
  induction path generalizing lo id with
  | nil => trivial
  | cons next rest ih =>
    obtain ⟨since, hlow, hhigh, hfind, hrest⟩ := h
    exact ⟨since, hlow, hhigh.trans hhi, hfind, ih hrest⟩

theorem getLastD_not_mem_dropLast (h : (id :: path).Nodup) :
    path.getLastD id ∉ (id :: path).dropLast := by
  have split := List.dropLast_append_getLast (List.cons_ne_nil id path)
  rw [← split, List.nodup_append] at h
  intro hmem
  exact h.2.2 _ hmem _ (List.mem_singleton_self _) (List.getLast_eq_getLastD ..).symm

/-- The job leads to the execution that is parked under the last job of the path. -/
structure LeadsTo (t : JobTable) (now : Instant) (id : String) (path : List String)
    (s : Suspended) : Prop where
  ordered : t.Ordered
  nodup : (id :: path).Nodup
  last : path.getLastD id = s.handle.jobId
  trail : t.Trail now 0 id path
  parked : t.find? s.handle.jobId = some (.suspended s)

variable {now' : Instant} {s : Suspended}

/-- The table while a query holds the claim. -/
def claimed (t : JobTable) (now : Instant) (s : Suspended) : JobTable :=
  (t.evict now).put s.handle.jobId (.resuming s)

/-- A claim finds the parked execution as long as the first entry has not expired. -/
theorem LeadsTo.claim (h : t.LeadsTo now id path s) (hin : t.InTime now' id) :
    t.claimCurrent now' id = (s.handle.jobId, .owned s, t.claimed now' s) := by
  have live : (JobEntry.suspended s).isLive := rfl
  have last : (t.evict now').find? (path.getLastD id) = some (.suspended s) :=
    find?_evict_live h.ordered live (h.last ▸ h.parked) now'
  have found := claimLast_of_trail (t.evict_evict now') (h.trail.evict_of_inTime h.ordered hin)
    (h.trail.length_le h.nodup) last nofun
  rw [claimCurrent, ← claimLast_evict, found, h.last]
  rfl

theorem LeadsTo.trail_claimed (h : t.LeadsTo now id path s) (hin : t.InTime now' id) :
    (t.claimed now' s).Trail now 0 id path :=
  (h.trail.evict_of_inTime h.ordered hin).put (h.last ▸ getLastD_not_mem_dropLast h.nodup) _

theorem ordered_claimed (h : t.Ordered) (now : Instant) (s : Suspended) :
    (t.claimed now s).Ordered := (h.evict now).put _ _

theorem find?_claimed {k : String} (h : t.Ordered) (hk : t.find? k = none)
    (hne : k ≠ s.handle.jobId) : (t.claimed now s).find? k = none := by
  rw [claimed, find?_put, if_neg hne.symm, find?_evict h, hk]
  rfl

theorem restore_of_put {e : JobEntry} (he : ∀ s, e ≠ .resuming s) :
    (t.put id e).restore id = t.put id e := by
  apply restore_of_not_resuming
  intro s hs
  rw [find?_put, if_pos rfl] at hs
  exact he s (Option.some_inj.mp hs)

theorem LeadsTo.restore (h : t.LeadsTo now id path s) (now' : Instant) :
    (t.claimed now' s).restore s.handle.jobId = t.evict now' := by
  have live : (JobEntry.suspended s).isLive := rfl
  have parked : (t.evict now').find? s.handle.jobId = some (.suspended s) :=
    find?_evict_live h.ordered live h.parked now'
  have held : (t.claimed now' s).find? s.handle.jobId = some (.resuming s) := by
    rw [claimed, find?_put, if_pos rfl]
  rw [restore_resuming held, claimed, put, put, Fields.insert_insert_self]
  exact congrArg (JobTable.mk · t.resultTtl)
    (Fields.Ordered.insert_of_mem (h.ordered.evict now') (Fields.mem_of_get? parked))

theorem LeadsTo.evict {later : Instant} (h : t.LeadsTo now id path s) (hin : t.InTime now' id)
    (hlater : now ≤ later) : (t.evict now').LeadsTo later id path s := by
  have live : (JobEntry.suspended s).isLive := rfl
  exact ⟨h.ordered.evict now', h.nodup, h.last,
    (h.trail.evict_of_inTime h.ordered hin).mono hlater,
    find?_evict_live h.ordered live h.parked now'⟩

/-- The table after a query that left the execution parked. -/
def released (t : JobTable) (s : Suspended) : JobTable := (t.release s).restore s.handle.jobId

theorem find?_released (hne : k ≠ s.handle.jobId) : (t.released s).find? k = t.find? k := by
  rw [released, JobTable.release, restore_of_put (fun _ h => by cases h), find?_put,
    if_neg hne.symm]

theorem LeadsTo.release {later : Instant} (h : t.LeadsTo now id path s) (hin : t.InTime now' id)
    (hlater : now ≤ later) :
    ((t.claimed now' s).released s).LeadsTo later id path s := by
  rw [released, JobTable.release, restore_of_put (fun _ h => by cases h)]
  refine ⟨(ordered_claimed h.ordered now' s).put _ _, h.nodup, h.last, ?_, ?_⟩
  · exact ((h.trail_claimed hin).put (h.last ▸ getLastD_not_mem_dropLast h.nodup) _).mono hlater
  · rw [find?_put, if_pos rfl]

/-- The table after an execution has moved on to another job. -/
def movedOn (t : JobTable) (later : Instant) (s next : Suspended) : JobTable :=
  ((t.suspend later next).2.forward later s.handle.jobId next.handle.jobId).restore s.handle.jobId

theorem find?_movedOn {later : Instant} {next : Suspended} (h : t.Ordered)
    (hfree : t.find? next.handle.jobId = none) (hk : t.find? k = none)
    (hne : k ≠ s.handle.jobId) (hne' : k ≠ next.handle.jobId) :
    (t.movedOn later s next).find? k = none := by
  have free : (t.evict later).find? next.handle.jobId = none := by
    rw [find?_evict h, hfree]
    rfl
  rw [JobTable.movedOn, suspend_free free, JobTable.forward,
    restore_of_put (fun _ h => by cases h), find?_put, if_neg hne.symm, find?_put,
    if_neg hne'.symm, find?_evict h, hk]
  rfl

/-- The execution has moved on: the job leads to where it is parked now, unless its own entry has
expired meanwhile. -/
theorem LeadsTo.movedOn {later : Instant} {next : Suspended} (h : t.LeadsTo now id path s)
    (hin : t.InTime now' id) (hlater : now ≤ later) (hfree : t.find? next.handle.jobId = none) :
    ((t.claimed now' s).movedOn later s next).find? id = none ∨
      ((t.claimed now' s).movedOn later s next).LeadsTo later id (path ++ [next.handle.jobId])
        next := by
  have hnext : next.handle.jobId ≠ s.handle.jobId := fun heq => by
    rw [heq, h.parked] at hfree
    cases hfree
  have hord := ordered_claimed h.ordered now' s
  have free : ((t.claimed now' s).evict later).find? next.handle.jobId = none := by
    rw [find?_evict hord, find?_claimed h.ordered hfree hnext]
    rfl
  have held : (t.claimed now' s).find? s.handle.jobId = some (.resuming s) := by
    rw [claimed, find?_put, if_pos rfl]
  rw [JobTable.movedOn, suspend_free free, JobTable.forward, restore_of_put (fun _ h => by cases h)]
  by_cases hin' : (t.claimed now' s).InTime later id
  · right
    have fresh : next.handle.jobId ∉ id :: path := by
      rw [← List.dropLast_append_getLast (List.cons_ne_nil id path), List.mem_append,
        List.mem_singleton, List.getLast_eq_getLastD, h.last]
      intro hh
      rcases hh with hmem | heq
      · exact h.trail.find?_ne_none _ hmem hfree
      · exact hnext heq
    have trail := ((h.trail_claimed hin).evict_of_inTime hord hin').put
      (fun hmem => fresh (List.dropLast_subset _ hmem)) (.suspended next)
    have trail' := trail.put (h.last ▸ getLastD_not_mem_dropLast h.nodup)
      (.forwarded next.handle.jobId later)
    refine ⟨((hord.evict later).put _ _).put _ _, ?_, ?_, ?_, ?_⟩
    · rw [← List.cons_append]
      exact List.nodup_append.mpr ⟨h.nodup, List.nodup_singleton _, by
        intro a ha b hb hh
        subst hh
        exact fresh (List.mem_singleton.mp hb ▸ ha)⟩
    · rw [List.getLastD_concat]
    · apply trail'.snoc (Nat.zero_le _) hlater
      rw [h.last, find?_put, if_pos rfl]
    · rw [find?_put, if_neg hnext.symm, find?_put, if_pos rfl]
  · left
    have live : (JobEntry.resuming s).isLive := rfl
    have hid : s.handle.jobId ≠ id := by
      intro hh
      subst hh
      exact hin' ⟨_, held, isFresh_of_isLive live _ _⟩
    have hid' : next.handle.jobId ≠ id := by
      intro hh
      subst hh
      obtain ⟨e, he, -⟩ := hin
      rw [hfree] at he
      cases he
    rw [find?_put, if_neg hid, find?_put, if_neg hid', find?_evict_of_not_inTime hord hin']

end PlaybookEngine.JobTable
