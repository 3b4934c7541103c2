import PlaybookEngine.Proofs.Batch.Orderly
import PlaybookEngine.Proofs.Engine.Single
import PlaybookEngine.Proofs.Engine.Together

namespace PlaybookEngine

def Pause.ended? {I : Interface} {α : Type} : Pause I α → Option α
  | .ended a => some a
  | .blocked _ _ => none

theorem Pause.ended?_eq_some {I : Interface} {α : Type} {x : Pause I α} {a : α} :
    x.ended? = some a ↔ x = .ended a := by
  cases x <;> simp [ended?]

def Invocation.isDispatched : Invocation → Bool
  | .dispatched _ => true
  | .completed _ => false

theorem Invocation.eq_dispatched_of_any {y : Except Panic (Except Failure Invocation)}
    (h : (y.toOption.bind Except.toOption).any isDispatched = true) :
    ∃ job, y = .ok (.ok (.dispatched job)) := by
  rcases y with why | f | r | job
  case error => cases h
  case ok.error => cases h
  case ok.ok.completed => cases h
  case ok.ok.dispatched => exact ⟨job, rfl⟩

namespace Batch

theorem requestedMode_singleMode (inputs : Fields Json) :
    Engine.requestedMode (singleMode inputs) = .ok .single := by
  have get : Fields.get? (Pattern.field RunMode) (singleMode inputs) =
      some (.named RunMode.single) := by
    rw [singleMode, Fields.get?_insert, if_pos]
    rfl
  rw [Engine.requestedMode, get]
  rfl

theorem itemInputs_single {shared inputs : Fields Json} {v : Json}
    (h : itemInputs? shared v = some inputs) : Engine.requestedMode inputs = .ok .single := by
  unfold itemInputs? at h
  split at h
  · cases h
    exact requestedMode_singleMode _
  · cases h
    exact requestedMode_singleMode _
  · cases h

theorem expandFrom_forall {Q : Fields Json → Prop} {shared : Fields Json}
    (h : ∀ v inputs, itemInputs? shared v = some inputs → Q inputs) {index : Nat} {vs : List Json}
    {items : List (Fields Json)} (hitems : expandFrom shared index vs = .ok items) :
    ∀ inputs ∈ items, Q inputs := by
  induction vs generalizing index items with
  | nil =>
    cases hitems
    intro inputs hmem
    cases hmem
  | cons v rest ih =>
    rw [expandFrom] at hitems
    split at hitems
    · cases hitems
    · rename_i inputs hinputs
      cases hrest : expandFrom shared (index + 1) rest with
      | error err =>
        rw [hrest] at hitems
        cases hitems
      | ok others =>
        rw [hrest] at hitems
        cases hitems
        intro inputs' hmem
        rcases List.mem_cons.mp hmem with rfl | hmem
        · exact h v _ hinputs
        · exact ih hrest inputs' hmem

theorem expandItems_forall {Q : Fields Json → Prop} {raw : Fields Json}
    (h : ∀ v inputs, itemInputs? (singleMode (Fields.erase itemsField raw)) v = some inputs →
      Q inputs) {items : List (Fields Json)} (hitems : expandItems raw = .ok items) :
    ∀ inputs ∈ items, Q inputs := by
  unfold expandItems at hitems
  split at hitems
  · cases hitems
  · cases hitems
  · exact expandFrom_forall h hitems
  · cases hitems

/-- The item was given up: its time was up, or its own limit was beyond the clock. -/
def GivenUp (settings : BatchSettings) (task : Nat → Nat) (begun : Instant) (i : Nat)
    (item : ItemResult) : Prop :=
  (∃ span, item = .timedOut i span) ∨ item = .taskFailed i (task i) .clock ∧
    Instant.clockEnd ≤ begun + settings.batchTimeout + settings.itemTimeout

theorem expandItems_single {raw : Fields Json} {items : List (Fields Json)}
    (h : expandItems raw = .ok items) :
    ∀ inputs ∈ items, Engine.requestedMode inputs = .ok .single :=
  expandItems_forall (fun _ _ => itemInputs_single) h

end Batch

namespace World

open Engine

section Single

variable {T S : Type} [ToolServer T] [IdSource S]

/-- A single execution of the inputs comes to the end of the steps, and all were skipped. -/
def SkipsAll (w : World T S) (g : Engine) (now : Instant) (code locale : String)
    (raw : Fields Json) : Prop :=
  ∃ x, w.begun? g now code locale raw = some x ∧ x.AllSkipped g

/-- A single execution of the inputs is parked, though it could be completed as it stands. -/
def ParksEarly (w : World T S) (g : Engine) (now : Instant) (code locale : String)
    (raw : Fields Json) : Prop :=
  ∃ x, w.begun? g now code locale raw = some x ∧ x.Overlooks g

omit [ToolServer T] in
/-- A world for the inputs of one item alone: the tools are usable, the store is the one that the
batch began with, and the ids are those of the item. -/
structure Alone (usable : T → Prop) (st : ArtifactStore) (traceId : String) (item : ItemResult)
    (w : World T S) : Prop where
  tools : usable w.tools
  store : w.store = st
  trace : (IdSource.fresh w.ids).1 = traceId
  id : ∀ id, item.executionId = some id → (IdSource.fresh (IdSource.fresh w.ids).2).1 = id
  ordered : w.jobs.Ordered
  free : w.jobs.find? (IdSource.fresh (IdSource.fresh (IdSource.fresh w.ids).2).2).1 = none

variable {answers : ToolAnswers} {usable : T → Prop} {g : Engine} {w : World T S}
variable {code locale : String} {raw : Fields Json} {p : Playbook} {item : ItemResult}

/-- An item that comes to what its inputs tell agrees with their single execution, unless that is
parked early. -/
theorem agrees_iff_of_comes (steady : ToolServer.Steady answers g.steps.timeout usable)
    {st : ArtifactStore} {traceId : String} (alone : w.Alone usable st traceId item)
    (resolved : g.registry.resolve code locale = .ok p)
    (single : requestedMode raw = .ok .single) {index : Nat}
    (comes : ItemComes answers g.steps p traceId st index raw item) (now : Instant) :
    item.Agrees p (w.execute g now code locale raw).1 (w.SkipsAll g now code locale raw) ↔
      ¬ w.ParksEarly g now code locale raw := by
  obtain ⟨tools, rfl, rfl, hid, ordered, free⟩ := alone
  have mode : requestedMode raw ≠ .ok .batch := by
    rw [single]
    exact nofun
  rw [execute_single mode]
  unfold SkipsAll ParksEarly begun?
  unfold ItemComes at comes
  cases hbind : bind p.inputSchema raw with
  | error err =>
    have refused : g.accept code locale raw = .error (.validation err) := by
      simp only [accept, resolved, single, hbind]
    rw [hbind] at comes
    rw [refused]
    dsimp only at comes ⊢
    subst comes
    apply iff_of_true
    · apply ItemResult.agrees_of_failed rfl
      · intro r hr
        cases hr
      · intro f hf
        obtain rfl := Except.error.inj (Except.ok.inj hf)
        rfl
      · intro hh
        obtain ⟨x, hx, -⟩ := hh
        cases hx
    · intro hh
      obtain ⟨x, hx, -⟩ := hh
      cases hx
  | ok inputs =>
    have accepted : g.accept code locale raw = .ok (p, inputs) := by
      simp only [accept, resolved, single, hbind]
    rw [hbind] at comes
    obtain ⟨id, hitem, same⟩ := comes
    obtain rfl := hid id hitem
    rw [accepted]
    have agrees := begin_agrees_iff p inputs now steady tools ordered free same
    simpa only [Option.some.injEq, exists_eq_left', Prod.map_fst] using agrees

end Single

section Together

variable {T S : Type} [ToolServer T] [IdSource S] {g : Engine} {w : World T S}
variable {code locale : String} {raw : Fields Json} {p : Playbook} {items : List (Fields Json)}

/-- The items of a batch that is not refused are run, and their results are put together. -/
theorem execute_batch (resolved : g.registry.resolve code locale = .ok p)
    (sync : p.hasAsyncSteps = false) (batch : requestedMode raw = .ok .batch)
    (expanded : Batch.expandItems raw = .ok items) {shared : BoundInputs}
    (bound : bind [] raw = .ok shared) (now : Instant) :
    w.execute g now code locale raw =
      let (traceId, ids) := IdSource.fresh w.ids
      let (id, ids) := IdSource.fresh ids
      let e := Execution.begin id traceId p shared (.ofNanos now)
      let w := { w with ids := ids }
      match Batch.process g.batch (IdSource.task ids) surroundings
        (items.mapIdx (runItem g.steps p traceId)) now w with
      | .error why => (.error why, now, w)
      | .ok (results, now, w) =>
        (.ok (.ok (.completed (batchResult p e results (.ofNanos now)))), now, w) := by
  unfold execute Engine.execute
  rw [Activity.run_bind, run_freshId]
  dsimp only
  rw [resolved]
  dsimp only
  rw [batch]
  dsimp only
  unfold planBatch
  simp only [sync, expanded, bound, Activity.run_bind, run_freshId, run_now, Activity.run_pure,
    Bool.false_eq_true, if_false]
  generalize Batch.process g.batch _ (surroundings : Surroundings Working (World T S)) _ now _ =
    processed
  cases processed <;> rfl

variable {task : Nat → Nat} {now now' : Instant} {w' : World T S} {results : List ItemResult}

theorem completed_of_process (resolved : g.registry.resolve code locale = .ok p)
    (sync : p.hasAsyncSteps = false) (batch : requestedMode raw = .ok .batch)
    (expanded : Batch.expandItems raw = .ok items) {shared : BoundInputs}
    (bound : bind [] raw = .ok shared) {ids : S}
    (hids : (IdSource.fresh (IdSource.fresh w.ids).2).2 = ids)
    (hprocess : Batch.process g.batch (IdSource.task ids) surroundings
      (items.mapIdx (runItem g.steps p (IdSource.fresh w.ids).1)) now { w with ids := ids } =
        .ok (results, now', w')) :
    ∃ r, (w.execute g now code locale raw).1 = .ok (.ok (.completed r)) ∧ r.items = results := by
  rw [execute_batch resolved sync batch expanded bound]
  subst hids
  dsimp only
  rw [hprocess]
  exact ⟨_, rfl, rfl⟩

/-- Each item of a batch comes to what its inputs tell, or is given up. -/
theorem process_items_comes {answers : ToolAnswers} {usable : T → Prop}
    (steady : ToolServer.Steady answers g.steps.timeout usable) (tools : usable w.tools) {size : Nat}
    (nodup : (IdSource.upcoming w.ids (items.length * 2)).Nodup)
    (formed : ∀ x ∈ IdSource.upcoming w.ids (items.length * 2), x.length = size ∧ '/' ∉ x.toList)
    (traceId : String)
    (hprocess : Batch.process g.batch task surroundings (items.mapIdx (runItem g.steps p traceId))
      now w = .ok (results, now', w')) :
    ∀ i inputs item, items[i]? = some inputs → results[i]? = some item →
      Batch.GivenUp g.batch task now i item ∨
        ItemComes answers g.steps p traceId w.store i inputs item := by
  have together : w.Together usable p.artifactCapability size w.store
      (List.replicate items.length ⟨none, w.store, 2⟩) := .start tools nodup formed
  have each (i : Nat) (a : Activity Working ItemResult)
      (ha : (items.mapIdx (runItem g.steps p traceId))[i]? = some a) :
      ∃ v, (List.replicate items.length (⟨none, w.store, 2⟩ : Share))[i]? = some v ∧
        a.Assures (Working.shared answers g.steps.timeout p.artifactCapability) v fun item _ =>
          ∀ inputs, items[i]? = some inputs →
            ItemComes answers g.steps p traceId w.store i inputs item := by
    rw [List.getElem?_mapIdx, Option.map_eq_some_iff] at ha
    obtain ⟨inputs, hinputs, rfl⟩ := ha
    obtain ⟨hi, -⟩ := List.getElem?_eq_some_iff.mp hinputs
    refine ⟨⟨none, w.store, 2⟩, List.getElem?_replicate_of_lt hi, ?_⟩
    refine (runItem_assures answers g.steps p traceId w.store i inputs).mono
      (Working.shared_mono _ _ _) ?_
    intro item _ hitem inputs' hinputs'
    obtain rfl := Option.some_inj.mp (hinputs.symm.trans hinputs')
    exact hitem
  have comes := Batch.join_comes (Together.keeps steady) g.batch (now + g.batch.batchTimeout)
    (Q := fun i item => ∀ inputs, items[i]? = some inputs →
      ItemComes answers g.steps p traceId w.store i inputs item) each together now
  intro i inputs item hinputs hitem
  have here : (items.mapIdx (runItem g.steps p traceId))[i]? =
      some (runItem g.steps p traceId i inputs) := by
    rw [List.getElem?_mapIdx, hinputs]
    rfl
  obtain ⟨r, hr, life⟩ := Batch.join_life g.batch surroundings now w here
  rw [Batch.getElem?_of_process hprocess, hr, Option.map_some, Option.some.injEq] at hitem
  subst hitem
  have end_comes := comes i r hr
  generalize Batch.eventsOf _ i = own at life
  cases life with
  | finished =>
    rcases end_comes with hcomes | late
    · exact .inr (hcomes inputs hinputs)
    · exact .inl (.inl late)
  | timedOut => exact .inl (.inl ⟨_, rfl⟩)
  | neverStarted => exact .inl (.inl ⟨_, rfl⟩)
  | crashed start inTime beyond =>
    exact .inl (.inr ⟨rfl, beyond.trans (Nat.add_le_add_right inTime _)⟩)

/-- A batch that is not refused completes, unless the machine cannot count its limits, and an item
that was not given up agrees with the single execution of its inputs, whatever the other items are,
unless that execution is parked early. -/
theorem batch_agrees_iff {T' S' : Type} [ToolServer T'] [IdSource S'] {answers : ToolAnswers}
    {usable : T → Prop} {usable' : T' → Prop}
    (steady : ToolServer.Steady answers g.steps.timeout usable)
    (steady' : ToolServer.Steady answers g.steps.timeout usable') (tools : usable w.tools)
    (resolved : g.registry.resolve code locale = .ok p) (sync : p.hasAsyncSteps = false)
    (batch : requestedMode raw = .ok .batch) (expanded : Batch.expandItems raw = .ok items)
    {shared : BoundInputs} (bound : bind [] raw = .ok shared)
    (nodup : (IdSource.upcoming w.ids (items.length * 2 + 2)).Nodup) {size : Nat}
    (formed : ∀ x ∈ IdSource.upcoming w.ids (items.length * 2 + 2),
      x.length = size ∧ '/' ∉ x.toList) (now : Instant) :
    (items ≠ [] → ¬ Batch.Fits g.batch now →
      ∃ why, (w.execute g now code locale raw).1 = .error why) ∧
    (items = [] ∨ Batch.Fits g.batch now →
      ∃ r, (w.execute g now code locale raw).1 = .ok (.ok (.completed r)) ∧
        r.items.length = items.length ∧
        ∀ i inputs item, items[i]? = some inputs → r.items[i]? = some item →
          Batch.GivenUp g.batch (IdSource.task (IdSource.fresh (IdSource.fresh w.ids).2).2) now i
              item ∨
            ∀ (alone : World T' S') (now' : Instant),
              alone.Alone usable' w.store (IdSource.fresh w.ids).1 item →
                (item.Agrees p (alone.execute g now' code locale inputs).1
                    (alone.SkipsAll g now' code locale inputs) ↔
                  ¬ alone.ParksEarly g now' code locale inputs)) := by
  have nodup' := (List.nodup_cons.mp (List.nodup_cons.mp nodup).2).2
  have formed' (x : String) (hx : x ∈ IdSource.upcoming
      (IdSource.fresh (IdSource.fresh w.ids).2).2 (items.length * 2)) :=
    formed x (List.mem_cons_of_mem _ (List.mem_cons_of_mem _ hx))
  rw [execute_batch resolved sync batch expanded bound]
  dsimp only
  split
  · rename_i why hprocess
    refine ⟨fun _ _ => ⟨why, rfl⟩, fun fits => ?_⟩
    rw [← List.mapIdx_eq_nil_iff] at fits
    obtain ⟨x, hx⟩ := Batch.process_ok_iff.mpr fits
    cases hprocess.symm.trans hx
  · rename_i results now' w' hprocess
    have fits := Batch.process_ok_iff.mp ⟨_, hprocess⟩
    rw [List.mapIdx_eq_nil_iff] at fits
    refine ⟨fun nonempty unfit => absurd fits (not_or.mpr ⟨nonempty, unfit⟩), fun _ => ?_⟩
    refine ⟨_, rfl, (Batch.length_process hprocess).trans List.length_mapIdx, ?_⟩
    intro i inputs item hinputs hitem
    have comes := process_items_comes
      (w := { w with ids := (IdSource.fresh (IdSource.fresh w.ids).2).2 }) steady tools nodup'
      formed' _ hprocess
    rcases comes i inputs item hinputs hitem with given | comes
    · exact .inl given
    · right
      intro alone now' hown
      have single := Batch.expandItems_single expanded inputs (List.mem_of_getElem? hinputs)
      exact agrees_iff_of_comes steady' hown resolved single comes now'

end Together

/-- A tool that hands out a job for each video and answers all other calls at once. -/
structure Studio where

instance : ToolServer Studio where
  call t _ tool _ :=
    (⟨0, .ok (if tool.capability = "video" then .dispatched "job" else .completed (.obj []))⟩, t)
  poll t _ _ job := (⟨0, .error (.unknownJob job)⟩, t)

theorem studio_steady (limit : Span) :
    ToolServer.Steady
      (fun tool _ => .ok (if tool.capability = "video" then .dispatched "job" else .completed (.obj [])))
      limit fun _ : Studio => True where
  answer _ _ _ _ := rfl
  inTime _ _ _ _ := Nat.zero_le limit
  usable _ _ _ _ := trivial

/-- Ids that were chosen beforehand. -/
structure Chosen where
  ids : List String

instance : IdSource Chosen where
  fresh s := (s.ids.headD "", ⟨s.ids.tail⟩)

def oneStep (tool : ToolRef) : Playbook where
  code := "clip"
  version := "1.0.0"
  name := "Clip"
  description := ""
  kind := .userWorkflow
  capabilityCode := none
  locale := "en"
  supportedLocales := ["en"]
  defaultLocale := "en"
  requiredTools := [tool]
  optionalTools := []
  steps := [⟨"make", "", tool, none, false, [], none⟩]
  inputSchema := []
  outputSchema := []
  primaryScore := "score"
  tags := []
  sections := []

def clipEngine (tool : ToolRef) : Engine := ⟨.ofPlaybooks "en" [oneStep tool], .default, .default⟩

def studioWorld {S : Type} (ids : S) : World Studio S where
  tools := ⟨⟩
  store := .memory .empty
  jobs := .empty JobTable.defaultTtl
  ids := ids

def clipBatch (items : List Json) : Fields Json :=
  [("items", .arr items), ("run_mode", .str "batch")]

def clipItems : List (Fields Json) :=
  [Batch.singleMode [], Batch.singleMode [("content_source", .str "pasted_text")]]

theorem clips_agree_iff :
    Batch.Fits (clipEngine ⟨"text", "write"⟩).batch 0 ∧
    ∃ r, ((studioWorld (Identifier.Supply.mk 0)).execute (clipEngine ⟨"text", "write"⟩) 0 "clip" "en"
        (clipBatch [.obj [], .str "pasted_text"])).1 = .ok (.ok (.completed r)) ∧
      r.items.length = 2 ∧
      ∀ i inputs item, clipItems[i]? = some inputs → r.items[i]? = some item →
        Batch.GivenUp (clipEngine ⟨"text", "write"⟩).batch (IdSource.task (Identifier.Supply.mk 2)) 0
            i item ∨
          ∀ (alone : World Studio Chosen) (now' : Instant),
            alone.Alone (fun _ => True) (.memory .empty) (Identifier.text 0) item →
              (item.Agrees (oneStep ⟨"text", "write"⟩)
                  (alone.execute (clipEngine ⟨"text", "write"⟩) now' "clip" "en" inputs).1
                  (alone.SkipsAll (clipEngine ⟨"text", "write"⟩) now' "clip" "en" inputs) ↔
                ¬ alone.ParksEarly (clipEngine ⟨"text", "write"⟩) now' "clip" "en" inputs) := by
  have expanded : Batch.expandItems (clipBatch [.obj [], .str "pasted_text"]) = .ok clipItems := rfl
  have resolved : (clipEngine ⟨"text", "write"⟩).registry.resolve "clip" "en" =
      .ok (oneStep ⟨"text", "write"⟩) := rfl
  have nodup : (IdSource.upcoming (Identifier.Supply.mk 0) 6).Nodup := by decide +kernel
  have formed : ∀ x ∈ IdSource.upcoming (Identifier.Supply.mk 0) 6,
      x.length = 36 ∧ '/' ∉ x.toList := by
    decide +kernel
  exact ⟨Batch.fits_default, (batch_agrees_iff (w := studioWorld (Identifier.Supply.mk 0))
    (studio_steady _) (studio_steady _) trivial resolved rfl rfl expanded rfl nodup formed 0).2
      (.inr Batch.fits_default)⟩

/-- The only item of a batch hands out a job in its only step, and is a success: what its inputs
come to alone is parked. -/
theorem dispatched_clip_disagrees :
    ∃ r item, ((studioWorld (Identifier.Supply.mk 0)).execute (clipEngine ⟨"video", "render"⟩) 0
        "clip" "en" (clipBatch [.obj []])).1 = .ok (.ok (.completed r)) ∧ r.items = [item] ∧
      item.status = .success ∧
      ∃ alone : World Studio Chosen,
        alone.Alone (fun _ => True) (.memory .empty) (Identifier.text 0) item ∧
        (∃ job, (alone.execute (clipEngine ⟨"video", "render"⟩) 0 "clip" "en"
          (Batch.singleMode [])).1 = .ok (.ok (.dispatched job))) ∧
        ¬ item.Agrees (oneStep ⟨"video", "render"⟩)
          (alone.execute (clipEngine ⟨"video", "render"⟩) 0 "clip" "en" (Batch.singleMode [])).1
          (alone.SkipsAll (clipEngine ⟨"video", "render"⟩) 0 "clip" "en" (Batch.singleMode [])) := by
  have ended : ((runItem .default (oneStep ⟨"video", "render"⟩) (Identifier.text 0) 0
      (Batch.singleMode [])).advance surroundings 0 (studioWorld (Identifier.Supply.mk 2))).1.ended?.map
        (fun item => (item.status, item.executionId)) = some (.success, some (Identifier.text 2)) := by
    decide +kernel
  have parked : (((studioWorld (Chosen.mk [Identifier.text 0, Identifier.text 2])).execute
      (clipEngine ⟨"video", "render"⟩) 0 "clip" "en" (Batch.singleMode [])).1.toOption.bind
        Except.toOption).any Invocation.isDispatched = true := by
    decide +kernel
  obtain ⟨item, hitem, same⟩ := Option.map_eq_some_iff.mp ended
  have status : item.status = .success := congrArg Prod.fst same
  have id : item.executionId = some (Identifier.text 2) := congrArg Prod.snd same
  obtain ⟨job, hjob⟩ := Invocation.eq_dispatched_of_any parked
  have own : 0 + BatchSettings.default.itemTimeout < Instant.clockEnd := by decide
  have processed := Batch.process_singleton_of_ended (IdSource.task (Identifier.Supply.mk 2))
    (Prod.ext (Pause.ended?_eq_some.mp hitem) rfl) Batch.fits_default own
  have expanded : Batch.expandItems (clipBatch [.obj []]) = .ok [Batch.singleMode []] := rfl
  have resolved : (clipEngine ⟨"video", "render"⟩).registry.resolve "clip" "en" =
      .ok (oneStep ⟨"video", "render"⟩) := rfl
  obtain ⟨r, completed, hitems⟩ := completed_of_process
    (w := studioWorld (Identifier.Supply.mk 0)) resolved rfl rfl expanded rfl rfl processed
  refine ⟨r, item, completed, hitems, status,
    studioWorld ⟨[Identifier.text 0, Identifier.text 2]⟩, ?_, ⟨job, hjob⟩, ?_⟩
  · refine ⟨trivial, rfl, rfl, ?_, JobTable.ordered_empty _, JobTable.find?_empty _ _⟩
    intro x hx
    exact Option.some_inj.mp (id.symm.trans hx)
  · intro agrees
    obtain ⟨⟨r, hr⟩, -⟩ := agrees.success.mp status
    rw [hjob] at hr
    cases hr

end World

end PlaybookEngine
