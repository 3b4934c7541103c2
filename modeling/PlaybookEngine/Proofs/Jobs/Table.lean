import PlaybookEngine.Engine.Jobs
import PlaybookEngine.Proofs.Fields.Ordered

namespace PlaybookEngine

namespace JobEntry

/-- The execution is parked or claimed. -/
def isLive (e : JobEntry) : Prop := e.settledAt? = none

end JobEntry

namespace JobTable

variable {t : JobTable} {now : Instant} {id j : String}

def find? (t : JobTable) (id : String) : Option JobEntry := Fields.get? id t.entries

/-- A job has one entry at most. -/
def Ordered (t : JobTable) : Prop := Fields.Ordered t.entries

theorem ordered_empty (ttl : Span) : (empty ttl).Ordered := Fields.ordered_nil

theorem Ordered.put (h : t.Ordered) (id : String) (e : JobEntry) : (t.put id e).Ordered :=
  Fields.Ordered.insert h id e

theorem Ordered.evict (h : t.Ordered) (now : Instant) : (t.evict now).Ordered :=
  Fields.Ordered.filter h _

theorem find?_empty (ttl : Span) (id : String) : (empty ttl).find? id = none := rfl

theorem find?_put (t : JobTable) (id j : String) (e : JobEntry) :
    (t.put id e).find? j = if id = j then some e else t.find? j :=
  Fields.get?_insert id j e t.entries

theorem find?_evict (h : t.Ordered) (now : Instant) (id : String) :
    (t.evict now).find? id = (t.find? id).filter (isFresh t.resultTtl now) :=
  Fields.get?_filter h _ id

theorem isFresh_of_isLive {e : JobEntry} (h : e.isLive) (ttl : Span) (now : Instant) :
    isFresh ttl now e = true := by
  unfold isFresh
  rw [h]

theorem find?_evict_live (h : t.Ordered) {e : JobEntry} (he : e.isLive)
    (hid : t.find? id = some e) (now : Instant) : (t.evict now).find? id = some e := by
  rw [find?_evict h, hid]
  simp [Option.filter, isFresh_of_isLive he]

/-- Eviction brings nothing in. -/
theorem find?_of_evict (h : t.Ordered) {e : JobEntry}
    (hid : (t.evict now).find? id = some e) : t.find? id = some e := by
  rw [find?_evict h, Option.filter_eq_some_iff] at hid
  exact hid.1

theorem suspend_free {s : Suspended} (h : (t.evict now).find? s.handle.jobId = none) :
    t.suspend now s = (true, (t.evict now).put s.handle.jobId (.suspended s)) := by
  have h' : Fields.get? s.handle.jobId (t.evict now).entries = none := h
  simp only [suspend, h']

theorem suspend_taken {s : Suspended} {e : JobEntry}
    (h : (t.evict now).find? s.handle.jobId = some e) : t.suspend now s = (false, t.evict now) := by
  have h' : Fields.get? s.handle.jobId (t.evict now).entries = some e := h
  simp only [suspend, h']

theorem claim_eq (t : JobTable) (now : Instant) (id : String) :
    t.claim now id =
      match (t.evict now).find? id with
      | none => (.unknown, t.evict now)
      | some (.resuming s) => (.busy s.handle, t.evict now)
      | some (.forwarded next _) => (.forwarded next, t.evict now)
      | some (.finished status _) => (.finished status, t.evict now)
      | some (.suspended s) => (.owned s, (t.evict now).put id (.resuming s)) := rfl

theorem restore_eq (t : JobTable) (id : String) :
    t.restore id =
      match t.find? id with
      | some (.resuming s) => t.put id (.suspended s)
      | _ => t := rfl

theorem Ordered.suspend (h : t.Ordered) (now : Instant) (s : Suspended) :
    (t.suspend now s).2.Ordered := by
  cases he : (t.evict now).find? s.handle.jobId with
  | none =>
    rw [suspend_free he]
    exact (h.evict now).put _ _
  | some e =>
    rw [suspend_taken he]
    exact h.evict now

theorem Ordered.claim (h : t.Ordered) (now : Instant) (id : String) :
    (t.claim now id).2.Ordered := by
  rw [claim_eq]
  split
  · exact h.evict now
  · exact h.evict now
  · exact h.evict now
  · exact h.evict now
  · exact (h.evict now).put _ _

theorem Ordered.restore (h : t.Ordered) (id : String) : (t.restore id).Ordered := by
  rw [restore_eq]
  split
  · exact h.put _ _
  · exact h

theorem claim_eq_owned {s : Suspended} :
    (t.claim now id).1 = .owned s ↔ (t.evict now).find? id = some (.suspended s) := by
  rw [claim_eq]
  split <;> simp_all

/-- A claim that is not granted changes nothing but what has expired. -/
theorem claim_not_owned (h : ∀ s, (t.claim now id).1 ≠ .owned s) :
    (t.claim now id).2 = t.evict now := by
  rw [claim_eq] at h ⊢
  split
  · rfl
  · rfl
  · rfl
  · rfl
  · rename_i s hs
    simp [hs] at h

theorem claim_owned {s : Suspended} (h : (t.claim now id).1 = .owned s) :
    (t.claim now id).2 = (t.evict now).put id (.resuming s) := by
  rw [claim_eq, claim_eq_owned.mp h]

theorem restore_resuming {s : Suspended} (h : t.find? id = some (.resuming s)) :
    t.restore id = t.put id (.suspended s) := by
  rw [restore_eq, h]

theorem restore_of_not_resuming (h : ∀ s, t.find? id ≠ some (.resuming s)) :
    t.restore id = t := by
  rw [restore_eq]
  split
  · rename_i s hs
    exact absurd hs (h s)
  · rfl

/-- Somebody has claimed the job. -/
def Claimed (t : JobTable) (id : String) : Prop := ∃ s, t.find? id = some (.resuming s)

theorem not_claimed_empty (ttl : Span) (id : String) : ¬ (empty ttl).Claimed id := by
  intro hh
  obtain ⟨s, h⟩ := hh
  cases h

theorem claimed_evict (h : t.Ordered) (now : Instant) (id : String) :
    (t.evict now).Claimed id ↔ t.Claimed id := by
  constructor
  · intro hh
    obtain ⟨s, hs⟩ := hh
    exact ⟨s, find?_of_evict h hs⟩
  · intro hh
    obtain ⟨s, hs⟩ := hh
    have live : (JobEntry.resuming s).isLive := rfl
    exact ⟨s, find?_evict_live h live hs now⟩

theorem claimed_put_resuming (t : JobTable) (id j : String) (s : Suspended) :
    (t.put id (.resuming s)).Claimed j ↔ id = j ∨ t.Claimed j := by
  by_cases h : id = j
  · subst h
    simp [Claimed, find?_put]
  · simp [Claimed, find?_put, h]

/-- Any other entry ends the claim on its job. -/
theorem claimed_put_of_ne (t : JobTable) (id j : String) {e : JobEntry}
    (he : ∀ s, e ≠ .resuming s) : (t.put id e).Claimed j ↔ t.Claimed j ∧ id ≠ j := by
  by_cases h : id = j
  · subst h
    simp [Claimed, find?_put, he]
  · simp [Claimed, find?_put, h]

theorem claimed_suspend (h : t.Ordered) (now : Instant) (s : Suspended) (id : String) :
    (t.suspend now s).2.Claimed id ↔ t.Claimed id := by
  rw [← claimed_evict h now]
  cases he : (t.evict now).find? s.handle.jobId with
  | some e => rw [suspend_taken he]
  | none =>
    rw [suspend_free he, claimed_put_of_ne _ _ _ (by simp), and_iff_left_iff_imp]
    rintro ⟨r, hr⟩ rfl
    rw [he] at hr
    cases hr

theorem claimed_restore (t : JobTable) (id j : String) :
    (t.restore id).Claimed j ↔ t.Claimed j ∧ id ≠ j := by
  by_cases h : t.Claimed id
  · obtain ⟨s, hs⟩ := h
    rw [restore_resuming hs, claimed_put_of_ne _ _ _ (by simp)]
  · rw [restore_of_not_resuming fun s hs => h ⟨s, hs⟩, iff_self_and]
    intro hj hh
    subst hh
    exact h hj

end JobTable

end PlaybookEngine
