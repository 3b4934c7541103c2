import PlaybookEngine.Proofs.Artifact.Agreement
import PlaybookEngine.Proofs.Artifact.Outline
import PlaybookEngine.Proofs.Engine.Suspension
import PlaybookEngine.Proofs.Tool.Steady

namespace PlaybookEngine

/-- The share of an execution: its id once it has one, the store without the other executions, and
how many ids it may still draw. -/
structure Share where
  id : Option String
  store : ArtifactStore
  left : Nat

namespace Share

def draw (v : Share) (x : String) : Share := ⟨v.id.or (some x), v.store, v.left - 1⟩

def asked (v : Share) (r : StoreRequest) : Share := { v with store := (v.store.answer r).2 }

/-- The execution may ask this of the store. -/
def Allows (v : Share) (capability : String) (r : StoreRequest) : Prop :=
  ∃ x, v.id = some x ∧ Lane.Allows ⟨capability, x⟩ r

end Share

/-- Replies to those who keep artifacts of one execution. -/
def Storage.shared (capability : String) : Storage.Spec Share
  | v, .now, K => ∀ now, K now v
  | v, .store r, K => v.Allows capability r ∧ ∀ x, v.store.MayReply r x → K x (v.asked r)

/-- Replies to those who work on one execution and park nothing. -/
def Working.shared (answers : ToolAnswers) (limit : Span) (capability : String) :
    Working.Spec Share
  | v, .freshId, K => 0 < v.left ∧ ∀ x, K x (v.draw x)
  | v, .tool r, K => Tooling.steady answers limit v r K
  | v, .store r, K => v.Allows capability r ∧ ∀ x, v.store.MayReply r x → K x (v.asked r)
  | _, .job _, _ => False

theorem Storage.shared_mono (capability : String) : (shared capability).Mono := by
  intro v r K K' hK h
  cases r with
  | now =>
    intro now
    apply hK
    exact h now
  | store r =>
    refine ⟨h.1, ?_⟩
    intro x hx
    apply hK
    exact h.2 x hx

namespace Working

open Activity

variable {answers : ToolAnswers} {limit : Span} {capability : String} {v : Share} {α : Type}

theorem shared_mono (answers : ToolAnswers) (limit : Span) (capability : String) :
    (shared answers limit capability).Mono := by
  intro v r K K' hK h
  cases r with
  | freshId =>
    refine ⟨h.1, ?_⟩
    intro x
    apply hK
    exact h.2 x
  | tool r => exact Tooling.steady_mono answers limit v r K K' hK h
  | store r =>
    refine ⟨h.1, ?_⟩
    intro x hx
    apply hK
    exact h.2 x hx
  | job r => exact h

theorem tooling_assures (capability : String) {p : Activity Tooling α} {Q : α → Share → Prop}
    (h : p.Assures (Tooling.steady answers limit) v Q) :
    (tooling p).Assures (shared answers limit capability) v Q := by
  refine assures_through (Tooling.steady_mono answers limit) (fun v r K hK => ?_) h
  exact hK

theorem storage_assures (answers : ToolAnswers) (limit : Span) {p : Activity Storage α}
    {Q : α → Share → Prop}
    (h : p.Assures (Storage.shared capability) v Q) :
    (storage p).Assures (shared answers limit capability) v Q := by
  refine assures_through (Storage.shared_mono capability) (fun v r K hK => ?_) h
  cases r with
  | now => exact hK
  | store r => exact hK

theorem freshId_assures {Q : String → Share → Prop} :
    freshId.Assures (shared answers limit capability) v Q ↔ 0 < v.left ∧ ∀ x, Q x (v.draw x) :=
  Iff.rfl

theorem now_assures {Q : Timestamp → Share → Prop} :
    now.Assures (shared answers limit capability) v Q ↔ ∀ t, Q t v := Iff.rfl

end Working

namespace Artifact

open Activity

theorem writeArtifact_key {st : ArtifactStore} {key : ArtifactKey} {content : ByteArray}
    {status : ContentStatus} {k : String}
    (h : (st.answer (.writeArtifact key content status)).1 = .ok k) :
    k = key.contentKey status := by
  have mapped (x : Except StorageError Unit) (hx : x.map (fun _ => key.contentKey status) = .ok k) :
      k = key.contentKey status := by
    cases x with
    | error err => cases hx
    | ok u => exact (Except.ok.inj hx).symm
  cases st <;> exact mapped _ h

/-- Keeping a version comes to what it comes to on the store of the execution alone. -/
theorem store_assures {ver : Version} {capability : String} {v : Share}
    {x : String} (hid : v.id = some x) (hkey : Lane.Holds ⟨capability, x⟩ ver.key) :
    (store ver).Assures (Storage.shared capability) v fun y v' =>
      v'.id = v.id ∧ v'.left = v.left ∧
        ∃ now, ArtifactStore.run now (store ver) v.store = (y, v'.store) := by
  rw [store, assures_bind]
  refine ⟨⟨x, hid, hkey⟩, ?_⟩
  intro reply hreply
  have written : v.store.answer (.writeArtifact ver.key ver.content ver.status) =
      (reply, (v.asked (.writeArtifact ver.key ver.content ver.status)).store) :=
    Prod.ext hreply.symm rfl
  cases reply with
  | error err =>
    exact ⟨rfl, rfl, .zero, ArtifactStore.run_store_of_content_refused written⟩
  | ok key =>
    have hcontent := writeArtifact_key (congrArg Prod.fst written)
    intro now
    refine ⟨⟨x, hid, ver.key, ver.status, hkey, hcontent⟩, ?_⟩
    intro reply' hreply'
    have described : (v.asked (.writeArtifact ver.key ver.content ver.status)).store.answer
        (.writeMetadata (ver.artifact key now)) = (reply', _) := Prod.ext hreply'.symm rfl
    cases reply' with
    | ok u => exact ⟨rfl, rfl, now, ArtifactStore.run_store_of_ok written described⟩
    | error err =>
      refine ⟨⟨x, hid, ver.key, ver.status, hkey, hcontent⟩, ?_⟩
      intro _ _
      exact ⟨rfl, rfl, now, ArtifactStore.run_store_of_metadata_refused written described⟩

end Artifact

namespace Finalization

/-- The drafts of an execution lie in its lane. -/
theorem holds_of_mem_drafts {p : Playbook} {e : Execution} {d : ArtifactDraft}
    (h : d ∈ drafts p e) :
    Lane.Holds ⟨p.artifactCapability, e.id⟩ (Artifact.Version.ofDraft d).key := by
  unfold drafts draftResults at h
  obtain ⟨y, hy, hd⟩ := List.mem_filterMap.mp h
  obtain ⟨s, -, hs⟩ := List.mem_filterMap.mp hy
  unfold draftOf at hs
  cases y with
  | error fault => cases hd
  | ok d' =>
    cases hd
    cases hspec : s.artifact with
    | none =>
      rw [hspec] at hs
      cases hs
    | some spec =>
      cases hr : e.result? s.id with
      | none =>
        rw [hspec, hr] at hs
        cases hs
      | some r =>
        rw [hspec, hr] at hs
        simp only [Option.bind_eq_bind, Option.bind_some, Option.bind_none] at hs
        split at hs
        · cases hs
        · split at hs
          · cases hs
          · cases hs
            exact ⟨rfl, spec.name, rfl⟩

end Finalization

namespace Engine

open Activity

variable {answers : ToolAnswers} {limit : Span} {capability : String} {v : Share} {x : String}

theorem persistAll_assures {ds : List ArtifactDraft} (hid : v.id = some x)
    (hds : ∀ d ∈ ds, Lane.Holds ⟨capability, x⟩ (Artifact.Version.ofDraft d).key)
    {st : ArtifactStore} (hst : v.store.outline = st.outline) :
    (persistAll ds).Assures (Working.shared answers limit capability) v fun y _ =>
      y.map (List.map Artifact.untimed) =
        (st.persistAll .zero ds).1.map (List.map Artifact.untimed) := by
  induction ds generalizing v st with
  | nil => rfl
  | cons d rest ih =>
    rw [persistAll, assures_bind]
    have kept := Working.storage_assures answers limit
      (Artifact.store_assures hid (hds d List.mem_cons_self))
    apply kept.mono (Working.shared_mono _ _ _)
    intro y v' hh
    obtain ⟨hid', -, now, hrun⟩ := hh
    obtain ⟨same, hst'⟩ := ArtifactStore.run_store_congr hst now .zero (.ofDraft d)
    rw [hrun] at same hst'
    rw [ArtifactStore.persistAll, Artifact.persist]
    revert same hst'
    rcases ArtifactStore.run .zero (Artifact.store (.ofDraft d)) st with ⟨y', st'⟩
    intro same hst'
    rcases cases_of_map_eq same with ⟨err, rfl, rfl⟩ | ⟨a, a', rfl, rfl, first⟩
    · rfl
    · have hrest : ∀ d ∈ rest,
          Lane.Holds ⟨capability, x⟩ (Artifact.Version.ofDraft d).key := by
        intro d hd
        apply hds
        exact List.mem_cons_of_mem _ hd
      have others := ih (hid'.trans hid) hrest hst'
      dsimp only
      rw [assures_bind]
      apply others.mono (Working.shared_mono _ _ _)
      intro z _ hz
      rw [assures_pure]
      rcases cases_of_map_eq hz with ⟨err, rfl, hz'⟩ | ⟨as, as', rfl, hz', tail⟩
      · rw [hz']
        rfl
      · rw [hz']
        simp [Except.map, first, tail]

theorem drafts_of_finalize {p : Playbook} {e : Execution} {aggregated : Fields Json}
    {final : FinalResult} (h : finalize p e aggregated = .ok final) :
    final.artifacts = Finalization.drafts p e := by
  unfold finalize at h
  dsimp only at h
  split at h
  · cases h
    rfl
  · cases h

/-- What an execution is completed to is what it is completed to on its own store. -/
theorem complete_assures (answers : ToolAnswers) (limit : Span) (p : Playbook)
    {e e₀ : Execution} (he : e.untimed = e₀.untimed)
    (hid : v.id = some e.id) {st : ArtifactStore} (hst : v.store.outline = st.outline) :
    (complete p e).Assures (Working.shared answers limit p.artifactCapability) v fun y _ =>
      y.map ExecutionResult.untimed =
        (completion p e₀ .zero st).1.map ExecutionResult.untimed := by
  unfold complete completion
  rw [← finalize_congr he p]
  cases hfinal : finalize p e (aggregate p.outputSchema e.successfulOutputs) with
  | error faults => rfl
  | ok final =>
    have hds (d : ArtifactDraft) (hd : d ∈ final.artifacts) :
        Lane.Holds ⟨p.artifactCapability, e.id⟩ (Artifact.Version.ofDraft d).key :=
      Finalization.holds_of_mem_drafts (drafts_of_finalize hfinal ▸ hd)
    dsimp only
    rw [assures_bind]
    apply (persistAll_assures hid hds hst).mono (Working.shared_mono _ _ _)
    intro y v' hy
    revert hy
    rcases st.persistAll .zero final.artifacts with ⟨y', st'⟩
    intro hy
    rcases cases_of_map_eq hy with ⟨err, rfl, rfl⟩ | ⟨as, as', rfl, rfl, same⟩
    · rfl
    · dsimp only
      rw [assures_bind, Working.now_assures]
      intro now
      apply congrArg Except.ok
      rw [Execution.result_untimed, Execution.result_untimed, Execution.advance_untimed,
        Execution.advance_untimed, he, same]

/-- What steps come to: whether the last of them has handed out a job, and the execution then. -/
def stepsOutcome (answers : ToolAnswers) (settings : StepSettings) (p : Playbook) :
    List Step → Execution → Except EngineError (Bool × Execution)
  | [], e => .ok (false, e)
  | s :: rest, e =>
    match s.outcome answers settings e.stepping with
    | .ok r =>
      if r.status = .dispatched then .ok (true, e.stepping.record r)
      else stepsOutcome answers settings p rest (e.stepping.record r)
    | .error err =>
      if p.isOptionalTool s.tool then
        stepsOutcome answers settings p rest
          (e.stepping.record (.failed s.id err.message err.attempts .zero .zero))
      else .error (.step err)

/-- Progress without the clock and without the handle of a job. -/
def Progress.seen : Progress → Bool × Execution
  | .finished e => (false, e.untimed)
  | .dispatched _ e => (true, e.untimed)

theorem runSteps_assures (answers : ToolAnswers) (settings : StepSettings) (p : Playbook)
    (capability : String) (steps : List Step)
    {e e₀ : Execution} (he : e.untimed = e₀.untimed) (hid : v.id = some x) (hleft : 0 < v.left) :
    (runSteps settings p steps e).Assures (Working.shared answers settings.timeout capability) v
      fun y v' => v'.id = some x ∧ v'.store = v.store ∧
        y.map Progress.seen =
          (stepsOutcome answers settings p steps e₀).map fun o => (o.1, o.2.untimed) := by
  induction steps generalizing e e₀ with
  | nil =>
    refine ⟨hid, rfl, ?_⟩
    exact congrArg Except.ok (congrArg (Prod.mk false) he)
  | cons s rest ih =>
    have he₁ := Execution.stepping_congr he
    rw [runSteps, assures_bind, stepsOutcome, ← Step.outcome_congr answers settings he₁]
    have executed := Working.tooling_assures capability
      (s.execute_assures answers settings e.stepping v)
    apply executed.mono (Working.shared_mono _ _ _)
    intro y v' hh
    obtain ⟨rfl, hy⟩ := hh
    rw [← hy]
    cases y with
    | ok r =>
      have recorded : (e.stepping.record r).untimed = (e₀.stepping.record r.untimed).untimed :=
        Execution.record_congr he₁ rfl
      dsimp only [Except.map]
      rw [show r.untimed.status = r.status from rfl]
      split
      · rw [assures_bind, Working.freshId_assures]
        refine ⟨hleft, fun job => ⟨?_, rfl, ?_⟩⟩
        · rw [Share.draw, hid]
          rfl
        · exact congrArg Except.ok (congrArg (Prod.mk true) recorded)
      · exact ih recorded
    | error err =>
      dsimp only [Except.map]
      rw [assures_bind, Working.now_assures]
      intro now
      split
      · exact ih (Execution.record_congr he₁ rfl)
      · exact ⟨hid, rfl, rfl⟩

end Engine

end PlaybookEngine
