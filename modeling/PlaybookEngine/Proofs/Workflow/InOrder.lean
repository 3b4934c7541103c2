import PlaybookEngine.Proofs.Activity.Shown
import PlaybookEngine.Workflow.Attempts

namespace PlaybookEngine

namespace Execution

/-- The execution as it was when its step with the index `i` was run. -/
def atStep (e : Execution) (i : Nat) : Execution :=
  { e with stepResults := e.stepResults.take i, nextStep := i + 1 }

/-- The execution with other results. -/
def holding (e : Execution) (rs : List StepResult) : Execution := { e with stepResults := rs }

/-- The execution has one result for each of the first `n` steps. -/
structure InOrder (p : Playbook) (n : Nat) (e : Execution) : Prop where
  le : n ≤ p.steps.length
  ids : e.stepResults.map (·.stepId) = (p.steps.take n).map (·.id)
  skipped_iff : ∀ i (s : Step) (r : StepResult), p.steps[i]? = some s →
    e.stepResults[i]? = some r → (r.status = .skipped ↔ s.shouldRun (e.atStep i) = false)

/-- No step has a job that is out. -/
def Settled (e : Execution) : Prop := ∀ r ∈ e.stepResults, r.status ≠ .dispatched

/-- The steps before the next one have run. -/
structure Ready (p : Playbook) (e : Execution) : Prop where
  inOrder : e.InOrder p e.nextStep
  settled : e.Settled

/-- The step `s` is being run, and those before it have run. -/
structure Executing (p : Playbook) (s : Step) (n : Nat) (e : Execution) : Prop where
  next : e.nextStep = n + 1
  step : p.steps[n]? = some s
  inOrder : e.InOrder p n
  settled : e.Settled

/-- The steps before the next one have run, and the last of them has a job that is out, which the
tool knows as `job`. -/
structure Awaits (p : Playbook) (s : Step) (job : String) (e : Execution) : Prop where
  inOrder : e.InOrder p e.nextStep
  last : ∃ front r, e.stepResults = front ++ [r] ∧ p.steps[front.length]? = some s ∧
    r.stepId = s.id ∧ r.status = .dispatched ∧ r.jobId.getD "" = job ∧
    ∀ r ∈ front, r.status ≠ .dispatched

theorem putResult_of_not_mem {r : StepResult} {rs : List StepResult}
    (h : r.stepId ∉ rs.map (·.stepId)) : putResult r rs = rs ++ [r] := by
  induction rs with
  | nil => rfl
  | cons x rs ih =>
    rw [List.map_cons, List.mem_cons, not_or] at h
    rw [putResult, if_neg (Ne.symm h.1), ih h.2]
    rfl

theorem putResult_concat {r last : StepResult} {front : List StepResult}
    (h : r.stepId ∉ front.map (·.stepId)) (hlast : last.stepId = r.stepId) :
    putResult r (front ++ [last]) = front ++ [r] := by
  induction front with
  | nil => rw [List.nil_append, putResult, if_pos hlast, List.nil_append]
  | cons x rs ih =>
    rw [List.map_cons, List.mem_cons, not_or] at h
    rw [List.cons_append, putResult, if_neg (Ne.symm h.1), ih h.2]
    rfl

variable {p : Playbook} {e : Execution} {n : Nat} {s : Step} {r : StepResult} {job : String}

theorem inOrder_nil (h : e.stepResults = []) : e.InOrder p 0 := by
  refine ⟨Nat.zero_le _, ?_, fun i s r _ hr => ?_⟩
  · rw [h]
    rfl
  · rw [h] at hr
    cases hr

theorem InOrder.length (h : e.InOrder p n) : e.stepResults.length = n := by
  have lengths := congrArg List.length h.ids
  rw [List.length_map, List.length_map, List.length_take, Nat.min_eq_left h.le] at lengths
  exact lengths

/-- The name of a step is not that of an earlier one. -/
theorem InOrder.not_mem (h : e.InOrder p n) (hnodup : (p.steps.map (·.id)).Nodup)
    (hs : p.steps[n]? = some s) : s.id ∉ e.stepResults.map (·.stepId) := by
  obtain ⟨hn, hget⟩ := List.getElem?_eq_some_iff.mp hs
  have split : p.steps.map (·.id) = (p.steps.take n).map (·.id) ++ (p.steps.drop n).map (·.id) := by
    rw [← List.map_append, List.take_append_drop]
  rw [split, List.nodup_append] at hnodup
  have hdrop : s.id ∈ (p.steps.drop n).map (·.id) := by
    rw [List.drop_eq_getElem_cons hn, hget]
    exact List.mem_cons_self
  rw [h.ids]
  exact fun hmem => hnodup.2.2 _ hmem _ hdrop rfl

theorem atStep_append {front : List StepResult} {i : Nat} (hi : i ≤ front.length)
    (back : List StepResult) :
    (e.holding (front ++ back)).atStep i = (e.holding front).atStep i := by
  rw [atStep, atStep, holding, holding]
  dsimp only
  rw [List.take_append_of_le_length hi]

theorem InOrder.concat {front : List StepResult} (h : (e.holding front).InOrder p n)
    (hs : p.steps[n]? = some s) (hid : r.stepId = s.id)
    (hskipped : r.status = .skipped ↔ s.shouldRun ((e.holding front).atStep n) = false) :
    (e.holding (front ++ [r])).InOrder p (n + 1) := by
  have hlength : front.length = n := h.length
  obtain ⟨hn, hget⟩ := List.getElem?_eq_some_iff.mp hs
  refine ⟨hn, ?_, fun i s' r' hs' hr' => ?_⟩
  · have ids : front.map (·.stepId) = (p.steps.take n).map (·.id) := h.ids
    rw [List.take_succ_eq_append_getElem hn, List.map_append, hget, ← ids, holding,
      List.map_append, List.map_singleton, List.map_singleton, hid]
  · have hr' : (front ++ [r])[i]? = some r' := hr'
    by_cases hi : i < front.length
    · rw [List.getElem?_append_left hi] at hr'
      rw [atStep_append (Nat.le_of_lt hi)]
      exact h.skipped_iff i s' r' hs' hr'
    · obtain ⟨hbound, -⟩ := List.getElem?_eq_some_iff.mp hr'
      rw [List.length_append, List.length_singleton] at hbound
      obtain rfl : i = n := by omega
      rw [List.getElem?_append_right (Nat.le_of_eq hlength), hlength, Nat.sub_self] at hr'
      obtain rfl : r = r' := Option.some_inj.mp hr'
      obtain rfl : s = s' := Option.some_inj.mp (hs.symm.trans hs')
      rw [atStep_append (Nat.le_of_eq hlength.symm)]
      exact hskipped

theorem InOrder.front {front : List StepResult}
    (h : (e.holding (front ++ [r])).InOrder p (n + 1)) : (e.holding front).InOrder p n := by
  have hlength : front.length = n := by
    have length : (front ++ [r]).length = n + 1 := h.length
    rw [List.length_append, List.length_singleton] at length
    omega
  refine ⟨Nat.le_of_succ_le h.le, ?_, fun i s' r' hs' hr' => ?_⟩
  · have ids : (front ++ [r]).map (·.stepId) = (p.steps.take (n + 1)).map (·.id) := h.ids
    rw [List.take_succ_eq_append_getElem h.le, List.map_append, List.map_append] at ids
    exact (List.append_inj' ids rfl).1
  · have hr' : front[i]? = some r' := hr'
    obtain ⟨hi, -⟩ := List.getElem?_eq_some_iff.mp hr'
    rw [← atStep_append (Nat.le_of_lt hi) [r]]
    refine h.skipped_iff i s' r' hs' ?_
    exact (List.getElem?_append_left hi).trans hr'

theorem Executing.atStep (h : e.Executing p s n) : e.atStep n = e := by
  rw [Execution.atStep, List.take_of_length_le (Nat.le_of_eq h.inOrder.length), ← h.next]

theorem Executing.record (h : e.Executing p s n) (hnodup : (p.steps.map (·.id)).Nodup)
    (hid : r.stepId = s.id) (hskipped : r.status = .skipped ↔ s.shouldRun e = false) :
    (e.record r).stepResults = e.stepResults ++ [r] ∧
      (e.record r).InOrder p (e.record r).nextStep := by
  have new : r.stepId ∉ e.stepResults.map (·.stepId) := by
    rw [hid]
    exact h.inOrder.not_mem hnodup h.step
  have recorded : e.record r = e.holding (e.stepResults ++ [r]) := by
    rw [Execution.record, putResult_of_not_mem new, holding]
  rw [← h.atStep] at hskipped
  rw [recorded]
  refine ⟨rfl, ?_⟩
  have now : (e.holding e.stepResults).InOrder p n := h.inOrder
  exact h.next ▸ now.concat h.step hid hskipped

theorem Executing.ready (h : e.Executing p s n) (hnodup : (p.steps.map (·.id)).Nodup)
    (hid : r.stepId = s.id) (hskipped : r.status = .skipped ↔ s.shouldRun e = false)
    (hstatus : r.status ≠ .dispatched) : (e.record r).Ready p := by
  obtain ⟨hresults, hin⟩ := h.record hnodup hid hskipped
  refine ⟨hin, fun x hx => ?_⟩
  rw [hresults, List.mem_append, List.mem_singleton] at hx
  rcases hx with hx | rfl
  · exact h.settled x hx
  · exact hstatus

theorem Executing.awaits (h : e.Executing p s n) (hnodup : (p.steps.map (·.id)).Nodup)
    (hid : r.stepId = s.id) (hskipped : r.status = .skipped ↔ s.shouldRun e = false)
    (hstatus : r.status = .dispatched) : (e.record r).Awaits p s (r.jobId.getD "") := by
  obtain ⟨hresults, hin⟩ := h.record hnodup hid hskipped
  refine ⟨hin, e.stepResults, r, hresults, ?_, hid, hstatus, rfl, h.settled⟩
  rw [h.inOrder.length]
  exact h.step

theorem Ready.executing (h : e.Ready p) (hs : p.steps[e.nextStep]? = some s) :
    ({ e with nextStep := e.nextStep + 1 } : Execution).Executing p s e.nextStep :=
  ⟨rfl, hs, ⟨h.inOrder.le, h.inOrder.ids, h.inOrder.skipped_iff⟩, h.settled⟩

theorem Awaits.ready (h : e.Awaits p s job) (hnodup : (p.steps.map (·.id)).Nodup)
    (hid : r.stepId = s.id) (hskipped : r.status ≠ .skipped) (hstatus : r.status ≠ .dispatched) :
    (e.record r).Ready p := by
  obtain ⟨hin, front, last, hresults, hs, hlast, hdispatched, -, hfront⟩ := h
  have hnext : e.nextStep = front.length + 1 := by
    rw [← hin.length, hresults, List.length_append, List.length_singleton]
  have whole : (e.holding (front ++ [last])).InOrder p (front.length + 1) := by
    rw [← hresults, ← hnext]
    exact hin
  have earlier := whole.front
  have ran : s.shouldRun ((e.holding front).atStep front.length) ≠ false := by
    rw [← atStep_append (Nat.le_refl _) [last]]
    intro hh
    have skipped := (whole.skipped_iff _ s last hs (List.getElem?_concat_length ..)).mpr hh
    rw [hdispatched] at skipped
    cases skipped
  have recorded : e.record r = e.holding (front ++ [r]) := by
    have new : r.stepId ∉ front.map (·.stepId) := by
      rw [hid]
      exact earlier.not_mem hnodup hs
    rw [Execution.record, hresults, putResult_concat new (hlast.trans hid.symm), holding]
  rw [recorded]
  constructor
  · have longer := earlier.concat hs hid (iff_of_false hskipped ran)
    exact hnext ▸ longer
  · intro x hx
    rcases List.mem_append.mp hx with hx | hx
    · exact hfront x hx
    · rw [List.mem_singleton.mp hx]
      exact hstatus

end Execution

namespace Step

open Activity

/-- What the tools are asked for while the step is executed: a call has the parameters that the
execution gives, and there is none when the step does not run. -/
def Asks (s : Step) (settings : StepSettings) (e : Execution) : Tooling.Request → Prop
  | .now => True
  | .sleep _ => True
  | .call tool params limit => s.shouldRun e = true ∧ tool = s.tool ∧
      params = .obj (s.renderedParams e) ∧ limit = settings.timeout
  | .poll _ _ => False

/-- What comes of the step: a result of its own, which tells whether it was skipped, or an error
when it was not. -/
def Comes (s : Step) (e : Execution) : Except StepError StepResult → Prop
  | .ok r => r.stepId = s.id ∧ (r.status = .skipped ↔ s.shouldRun e = false)
  | .error _ => s.shouldRun e = true

variable {s : Step} {settings : StepSettings} {e : Execution}

theorem attempt_abides (hrun : s.shouldRun e = true) (start : Timestamp) (left made : Nat) :
    (s.attempt settings (.obj (s.renderedParams e)) start left made).Abides (s.Asks settings e)
      (s.Comes e) := by
  have ran {r : StepResult} (hid : r.stepId = s.id) (hstatus : r.status ≠ .skipped) :
      s.Comes e (.ok r) :=
    ⟨hid, iff_of_false hstatus (by rw [hrun]; decide)⟩
  have called : s.Asks settings e (.call s.tool (.obj (s.renderedParams e)) settings.timeout) :=
    ⟨hrun, rfl, rfl, rfl⟩
  induction left generalizing made with
  | zero =>
    rw [attempt]
    refine abides_request_bind.mpr ⟨called, fun x => ?_⟩
    match x with
    | .ok (.completed output) => exact ⟨trivial, fun now => ran rfl nofun⟩
    | .ok (.dispatched job) => exact ⟨trivial, fun now => ran rfl nofun⟩
    | .error err => exact hrun
  | succ left ih =>
    rw [attempt]
    refine abides_request_bind.mpr ⟨called, fun x => ?_⟩
    match x with
    | .ok (.completed output) => exact ⟨trivial, fun now => ran rfl nofun⟩
    | .ok (.dispatched job) => exact ⟨trivial, fun now => ran rfl nofun⟩
    | .error err =>
      dsimp only
      split
      · exact ⟨trivial, fun _ => ih _⟩
      · exact hrun

theorem execute_abides (s : Step) (settings : StepSettings) (e : Execution) :
    (s.execute settings e).Abides (s.Asks settings e) (s.Comes e) := by
  unfold execute
  split
  · rename_i hrun
    exact ⟨trivial, fun start => attempt_abides hrun start _ _⟩
  · rename_i hskip
    exact ⟨trivial, fun now => ⟨rfl, iff_of_true rfl (Bool.eq_false_iff.mpr hskip)⟩⟩

end Step

end PlaybookEngine
