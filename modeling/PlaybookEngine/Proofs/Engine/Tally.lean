import PlaybookEngine.Proofs.Batch.Orderly
import PlaybookEngine.Proofs.Engine.Batches
import PlaybookEngine.Proofs.Fields.Pairs

namespace PlaybookEngine

/-- An item that failed tells why. -/
structure ItemResult.Formed (i : Nat) (r : ItemResult) : Prop where
  index : r.index = i
  error : r.status = .failed → ∃ f, r.error = some f

/-- The summary counts each item once, and its errors are those of the failed items in order. -/
structure BatchSummary.Counts (s : BatchSummary) (items : List ItemResult) : Prop where
  total : s.total = items.length
  parts : s.total = s.success + s.skipped + s.failed
  failed : s.errors.map (·.index) =
    (List.range items.length).filter fun i => items[i]?.any (·.status == .failed)
  errors : ∀ e ∈ s.errors, ∃ r f, items[e.index]? = some r ∧ r.error = some f ∧
    e = ⟨e.index, f.kind, f.message⟩

namespace BatchSummary

theorem count_add (items : List ItemResult) :
    items.length = count .success items + count .skipped items + count .failed items := by
  induction items with
  | nil => rfl
  | cons r items ih =>
    simp only [count, List.countP_cons, List.length_cons] at ih ⊢
    cases r.status <;> simp <;> omega

/-- The errors of items that are numbered from `n` on. -/
theorem map_index_errors {items : List ItemResult} {n : Nat}
    (formed : ∀ i (r : ItemResult), items[i]? = some r → r.Formed (n + i)) :
    (items.filterMap ItemError.ofResult?).map (·.index) =
      ((List.range items.length).filter fun i =>
        items[i]?.any (·.status == .failed)).map (n + ·) := by
  induction items generalizing n with
  | nil => rfl
  | cons r items ih =>
    have rest := ih (n := n + 1) fun i r hr => by
      rw [Nat.add_assoc, Nat.add_comm 1 i]
      exact formed (i + 1) r hr
    have shift : (n + 1 + ·) = (n + ·) ∘ Nat.succ := by
      funext i
      simp only [Function.comp_apply]
      omega
    have later : (fun i => (r :: items)[i]?.any (·.status == .failed)) ∘ Nat.succ =
        fun i => items[i]?.any (·.status == .failed) := rfl
    rw [shift, ← List.map_map] at rest
    rw [List.length_cons, List.range_succ_eq_map, List.filterMap_cons, List.filter_cons,
      List.filter_map, later]
    by_cases hr : r.status = .failed
    · obtain ⟨f, hf⟩ := (formed 0 r rfl).error hr
      have failed : ItemError.ofResult? r = some ⟨r.index, f.kind, f.message⟩ := by
        rw [ItemError.ofResult?, if_pos hr, hf]
        rfl
      simp [failed, hr, rest, (formed 0 r rfl).index]
    · have sound : ItemError.ofResult? r = none := if_neg hr
      simp [sound, hr, rest]

theorem ofItems_counts {items : List ItemResult}
    (formed : ∀ i (r : ItemResult), items[i]? = some r → r.Formed i) :
    (ofItems items).Counts items := by
  refine ⟨rfl, count_add items, ?_, ?_⟩
  · have shifted (i : Nat) (r : ItemResult) (hr : items[i]? = some r) : r.Formed (0 + i) := by
      rw [Nat.zero_add]
      exact formed i r hr
    have numbered := map_index_errors shifted
    have here : ((0 : Nat) + ·) = id := funext Nat.zero_add
    rwa [here, List.map_id] at numbered
  · intro e he
    obtain ⟨r, hr, herror⟩ := List.mem_filterMap.mp he
    obtain ⟨i, hi⟩ := List.mem_iff_getElem?.mp hr
    unfold ItemError.ofResult? at herror
    split at herror
    · obtain ⟨f, hf, rfl⟩ := Option.map_eq_some_iff.mp herror
      exact ⟨r, f, (formed i r hi).index ▸ hi, hf, rfl⟩
    · cases herror

end BatchSummary

/-- The result of a batch accounts for each of its items. -/
structure ExecutionResult.Accounts (r : ExecutionResult) (n : Nat) : Prop where
  length : r.items.length = n
  formed : ∀ (i : Nat) (item : ItemResult), r.items[i]? = some item → item.Formed i
  summary : ∃ s, r.batchSummary = some s ∧ s.Counts r.items ∧
    Fields.get? Finalization.batchSummaryField r.output = some s.encode
  outputs : ∃ outs : List Json,
    Fields.get? "results" r.output = some (.arr outs) ∧ outs.length = n ∧
    ∀ (i : Nat) (item : ItemResult), r.items[i]? = some item →
      outs[i]? = some (Json.ofOption (item.output.map Json.obj))
  artifacts : r.artifacts = r.items.flatMap (·.artifacts)

namespace Engine

open Activity

theorem endItem_formed (p : Playbook) (i : Nat) (id : String) (e : Execution) :
    (endItem p i id e).Abides (fun _ => True) (ItemResult.Formed i) := by
  unfold endItem
  split
  · exact ⟨rfl, nofun⟩
  · refine abides_bind.mpr (abides_all (fun done => ?_) _)
    cases done with
    | error err => exact ⟨rfl, fun _ => ⟨_, rfl⟩⟩
    | ok r => exact ⟨rfl, nofun⟩

theorem runItem_formed (settings : StepSettings) (p : Playbook) (traceId : String) (i : Nat)
    (raw : Fields Json) :
    (runItem settings p traceId i raw).Abides (fun _ => True) (ItemResult.Formed i) := by
  unfold runItem
  split
  · exact ⟨rfl, fun _ => ⟨_, rfl⟩⟩
  · refine abides_bind.mpr (abides_all (fun id => ?_) _)
    refine abides_bind.mpr (abides_all (fun now => ?_) _)
    refine abides_bind.mpr (abides_all (fun progress => ?_) _)
    cases progress with
    | error err => exact ⟨rfl, fun _ => ⟨_, rfl⟩⟩
    | ok progress => exact endItem_formed p i id progress.execution

theorem formed_ofEnd {i : Nat} {x : Except Panic ItemResult}
    (h : Batch.Comes ItemResult.Formed i x) (task : Nat) : (ItemResult.ofEnd i task x).Formed i := by
  cases x with
  | ok r =>
    rcases h with formed | ⟨span, rfl⟩
    · exact formed
    · exact ⟨rfl, fun _ => ⟨_, rfl⟩⟩
  | error why => exact ⟨rfl, fun _ => ⟨_, rfl⟩⟩

theorem batchResult_accounts (p : Playbook) (e : Execution) (now : Timestamp)
    {items : List ItemResult} (formed : ∀ i (r : ItemResult), items[i]? = some r → r.Formed i) :
    (batchResult p e items now).Accounts items.length := by
  have keys : ([("results", Json.arr (items.map fun r => Json.ofOption (r.output.map .obj))),
      (Finalization.batchSummaryField, (BatchSummary.ofItems items).encode)].map
        Prod.fst).Nodup := by
    simp [Finalization.batchSummaryField]
  refine ⟨rfl, formed, ⟨_, rfl, BatchSummary.ofItems_counts formed, ?_⟩,
    ⟨items.map fun r => Json.ofOption (r.output.map .obj), ?_, ?_, ?_⟩, rfl⟩
  · exact Fields.get?_ofList_of_mem keys (by simp)
  · exact Fields.get?_ofList_of_mem keys (by simp)
  · exact List.length_map ..
  · intro i item hitem
    change items[i]? = some item at hitem
    rw [List.getElem?_map, hitem]
    rfl

end Engine

namespace World

open Engine

variable {T S : Type} [ToolServer T] [IdSource S] {g : Engine} {w : World T S} {now : Instant}
variable {code locale : String} {raw : Fields Json} {r : ExecutionResult}

/-- A batch that completes was not refused. -/
theorem planned_of_completed (batch : requestedMode raw = .ok .batch)
    (completed : (w.execute g now code locale raw).1 = .ok (.ok (.completed r))) :
    ∃ p items shared, g.registry.resolve code locale = .ok p ∧ p.hasAsyncSteps = false ∧
      Batch.expandItems raw = .ok items ∧ bind [] raw = .ok shared := by
  unfold execute Engine.execute at completed
  rw [Activity.run_bind, run_freshId] at completed
  dsimp only at completed
  cases resolved : g.registry.resolve code locale with
  | error err =>
    rw [resolved] at completed
    cases completed
  | ok p =>
    rw [resolved] at completed
    dsimp only at completed
    rw [batch] at completed
    dsimp only at completed
    unfold planBatch at completed
    cases sync : p.hasAsyncSteps with
    | true =>
      simp only [sync, if_true] at completed
      cases completed
    | false =>
      simp only [sync, Bool.false_eq_true, if_false] at completed
      cases expanded : Batch.expandItems raw with
      | error err =>
        rw [expanded] at completed
        cases completed
      | ok items =>
        rw [expanded] at completed
        cases bound : bind [] raw with
        | error err =>
          simp only [bound] at completed
          cases completed
        | ok shared => exact ⟨p, items, shared, rfl, sync, rfl, rfl⟩

end World

/-- Batches lose and duplicate nothing and respect their limits, unless the machine cannot count
these: a batch of any items in any surroundings comes to results exactly when there are no items or
its limits fit, and then it is orderly; so is the batch of the engine, whose result accounts for
each item. -/
theorem batch_orderly_and_accounted (settings : BatchSettings) :
    (∀ {I : Interface} {W : Type} (task : Nat → Nat) (s : Surroundings I W)
      (items : List (Activity I ItemResult)) (begun : Instant) (w : W),
      ((∃ x, Batch.process settings task s items begun w = .ok x) ↔
        items = [] ∨ Batch.Fits settings begun) ∧
      ∀ results now w', Batch.process settings task s items begun w = .ok (results, now, w') →
        Batch.Orderly settings task s begun items (Batch.history settings s items begun w)
          results) ∧
    ∀ {T S : Type} [ToolServer T] [IdSource S] (w : World T S) (g : Engine) (now : Instant)
      (code locale : String) (raw : Fields Json) (r : ExecutionResult),
      g.batch = settings → Engine.requestedMode raw = .ok .batch →
      (w.execute g now code locale raw).1 = .ok (.ok (.completed r)) →
      ∃ (p : Playbook) (traceId : String) (inputs : List (Fields Json)) (task : Nat → Nat)
        (w' : World T S) (last : Instant × World T S),
        g.registry.resolve code locale = .ok p ∧ Batch.expandItems raw = .ok inputs ∧
        Batch.process settings task World.surroundings
          (inputs.mapIdx (Engine.runItem g.steps p traceId)) now w' = .ok (r.items, last) ∧
        r.Accounts inputs.length := by
  constructor
  · intro I W task s items begun w
    exact ⟨Batch.process_ok_iff, fun results now w' h => Batch.process_orderly h⟩
  · rintro T S _ _ w g now code locale raw r rfl batch completed
    obtain ⟨p, inputs, shared, resolved, sync, expanded, bound⟩ :=
      World.planned_of_completed batch completed
    rw [World.execute_batch resolved sync batch expanded bound] at completed
    dsimp only at completed
    split at completed
    · cases completed
    · rename_i results later w' hprocess
      cases completed
      refine ⟨p, _, inputs, _, _, _, resolved, expanded, hprocess, ?_⟩
      have items_formed (i : Nat) (a : Activity Working ItemResult)
          (ha : (inputs.mapIdx (Engine.runItem g.steps p (IdSource.fresh w.ids).1))[i]? = some a) :
          a.Abides (fun _ => True) (ItemResult.Formed i) := by
        rw [List.getElem?_mapIdx, Option.map_eq_some_iff] at ha
        obtain ⟨raw', -, rfl⟩ := ha
        exact Engine.runItem_formed ..
      have count := (Batch.length_process hprocess).trans List.length_mapIdx
      rw [← count]
      apply Engine.batchResult_accounts
      intro i item hitem
      obtain ⟨x, rfl, comes⟩ := Batch.process_abides items_formed hprocess i item hitem
      exact Engine.formed_ofEnd comes _

namespace World

open Engine

/-- A batch of two items completes, and its result accounts for both. -/
theorem clips_accounted :
    ∃ r, ((studioWorld (Identifier.Supply.mk 0)).execute (clipEngine ⟨"text", "write"⟩) 0 "clip" "en"
        (clipBatch [.obj [], .str "pasted_text"])).1 = .ok (.ok (.completed r)) ∧
      r.Accounts 2 := by
  have expanded : Batch.expandItems (clipBatch [.obj [], .str "pasted_text"]) = .ok clipItems := rfl
  have resolved : (clipEngine ⟨"text", "write"⟩).registry.resolve "clip" "en" =
      .ok (oneStep ⟨"text", "write"⟩) := rfl
  obtain ⟨⟨results, last⟩, processed⟩ :=
    ((batch_orderly_and_accounted BatchSettings.default).1 _ _ _ _ _).1.mpr (.inr Batch.fits_default)
  obtain ⟨r, completed, -⟩ := completed_of_process (w := studioWorld (Identifier.Supply.mk 0))
    resolved rfl rfl expanded rfl rfl processed
  refine ⟨r, completed, ?_⟩
  obtain ⟨p, traceId, inputs, task, w', last, -, hinputs, -, accounts⟩ :=
    (batch_orderly_and_accounted BatchSettings.default).2 _ _ _ _ _ _ _ rfl rfl completed
  obtain rfl := Except.ok.inj (expanded.symm.trans hinputs)
  exact accounts

/-- An engine whose batches have as many slots as a word can tell, and one whose batches may take as
many seconds. -/
def boundlessEngines : List Engine :=
  [{ clipEngine ⟨"text", "write"⟩ with batch := { BatchSettings.default with concurrency := 2 ^ 64 - 1 } },
    { clipEngine ⟨"text", "write"⟩ with
      batch := { BatchSettings.default with batchTimeout := Span.ofSecs (2 ^ 64 - 1) } }]

/-- Such batches of one item have no result: there cannot be so many slots, and the clock does not
go so far. -/
theorem boundless_batches_panic :
    boundlessEngines.map (fun g => ((studioWorld (Identifier.Supply.mk 0)).execute g 0 "clip" "en"
      (clipBatch [.obj []])).1) = [.error .slots, .error .clock] := by
  rfl

end World

end PlaybookEngine
