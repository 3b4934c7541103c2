import PlaybookEngine.Engine.World
import PlaybookEngine.Proofs.Artifact.Metadata
import PlaybookEngine.Proofs.Json.Record
import PlaybookEngine.Proofs.Text.Blank
import PlaybookEngine.Proofs.Text.Parts

namespace PlaybookEngine

open Artifact (nat32_of_lt nat64_of_lt)
open Decoder (bind_of_eq required_eq required_written optional_written nullable_written
  value_written list_map list_map_self listed_written tagged_written_iff)

theorem StepStatus.ofText?_text (s : StepStatus) : Named.ofText? (Named.text s) = some s := by
  cases s <;> decide

theorem ExecutionStatus.ofText?_text (s : ExecutionStatus) :
    Named.ofText? (Named.text s) = some s := by
  cases s <;> decide

theorem ItemStatus.ofText?_text (s : ItemStatus) : Named.ofText? (Named.text s) = some s := by
  cases s <;> decide

theorem ErrorKind.ofText?_text (k : ErrorKind) : Named.ofText? (Named.text k) = some k := by
  cases k <;> decide

theorem Timestamp.decode_encode {t : Timestamp} (h : t.Shown) : decode t.encode = some t := by
  have text : Decoder.string t.encode = some t.text := rfl
  rw [decode, Decoder.stringWith, text, Option.bind_some, read_text h]

/-- A finite number is written as itself. -/
theorem Binary64.number_ofBinary64 {x : Binary64} (h : x.isFinite = true) :
    Json.ofBinary64 x ≠ .null ∧ Decoder.number (.ofBinary64 x) = some x := by
  cases x with
  | finite y => exact ⟨nofun, rfl⟩
  | _ => cases h

namespace StepResult

/-- The numbers of the result fit their words, and a clock can show its times. -/
structure Sized (r : StepResult) : Prop where
  attempts : r.attempts < 0x1_0000_0000
  duration : r.durationMillis < 0x1_0000_0000_0000_0000
  started : r.startedAt.Shown
  completed : r.completedAt.Shown

/-- The result without an output that is null. -/
def reread (r : StepResult) : StepResult := { r with output := r.output.bind Json.present? }

theorem reread_eq_self_iff (r : StepResult) : r.reread = r ↔ r.output ≠ some .null := by
  have same : r.reread = r ↔ r.output.bind Json.present? = r.output :=
    ⟨fun h => congrArg output h, fun h => by rw [reread, h]⟩
  rw [same, Json.bind_present?_eq_self_iff]

def record (r : StepResult) : List (String × Option Json) :=
  [("step_id", some (.str r.stepId)), ("status", some (.named r.status)), ("output", r.output),
    ("job_id", r.jobId.map .str), ("error", r.error.map .str),
    ("attempts", some (.nat r.attempts)), ("started_at", some r.startedAt.encode),
    ("completed_at", some r.completedAt.encode), ("duration_ms", some (.nat r.durationMillis))]

theorem encode_eq (r : StepResult) : r.encode = .ofObject (Json.written r.record) := by
  simp only [encode, Json.entry_eq, Json.entry?_eq, ← Json.written_append]
  rfl

theorem decode_encode {r : StepResult} (h : r.Sized) : decode r.encode = some r.reread := by
  have hkeys : (r.record.map Prod.fst).Nodup := by simp [record]
  rw [encode_eq]
  exact bind_of_eq rfl <|
    bind_of_eq (required_written hkeys rfl rfl) <|
    bind_of_eq (required_written hkeys rfl r.status.ofText?_text) <|
    bind_of_eq (value_written hkeys rfl) <|
    bind_of_eq (optional_written hkeys rfl fun _ _ => ⟨nofun, rfl⟩) <|
    bind_of_eq (optional_written hkeys rfl fun _ _ => ⟨nofun, rfl⟩) <|
    bind_of_eq (required_written hkeys rfl (nat32_of_lt h.attempts)) <|
    bind_of_eq (required_written hkeys rfl (Timestamp.decode_encode h.started)) <|
    bind_of_eq (required_written hkeys rfl (Timestamp.decode_encode h.completed)) <|
    bind_of_eq (required_written hkeys rfl (nat64_of_lt h.duration)) rfl

end StepResult

namespace Failure

def record (f : Failure) : List (String × Option Json) :=
  [("error_kind", some (.named f.kind)), ("message", some (.str f.message)),
    ("trace_id", f.traceId.map .str), ("execution_id", f.executionId.map .str),
    ("step_id", f.stepId.map .str), ("fields", Json.listed? (f.fields.map .str))]

theorem encode_eq (f : Failure) : f.encode = .ofObject (Json.written f.record) := by
  simp only [encode, Json.entry_eq, Json.entry?_eq, Json.entryList_eq, ← Json.written_append]
  rfl

theorem decode_encode (f : Failure) : decode f.encode = some f := by
  have hkeys : (f.record.map Prod.fst).Nodup := by simp [record]
  rw [encode_eq]
  exact bind_of_eq rfl <|
    bind_of_eq (required_written hkeys rfl f.kind.ofText?_text) <|
    bind_of_eq (required_written hkeys rfl rfl) <|
    bind_of_eq (optional_written hkeys rfl fun _ _ => ⟨nofun, rfl⟩) <|
    bind_of_eq (optional_written hkeys rfl fun _ _ => ⟨nofun, rfl⟩) <|
    bind_of_eq (optional_written hkeys rfl fun _ _ => ⟨nofun, rfl⟩) <|
    bind_of_eq (listed_written hkeys rfl fun _ _ => rfl) rfl

end Failure

namespace ItemError

def record (e : ItemError) : List (String × Option Json) :=
  [("item_index", some (.nat e.index)), ("error_kind", some (.named e.kind)),
    ("message", some (.str e.message))]

theorem decode_encode {e : ItemError} (h : e.index < 0x1_0000_0000_0000_0000) :
    decode e.encode = some e := by
  have hkeys : (e.record.map Prod.fst).Nodup := by simp [record]
  have hencode : e.encode = .ofObject (Json.written e.record) := rfl
  rw [hencode]
  exact bind_of_eq rfl <|
    bind_of_eq (required_written hkeys rfl (nat64_of_lt h)) <|
    bind_of_eq (required_written hkeys rfl e.kind.ofText?_text) <|
    bind_of_eq (required_written hkeys rfl rfl) rfl

end ItemError

namespace BatchSummary

/-- The counts fit their words, and the mean is finite. -/
structure Sized (s : BatchSummary) : Prop where
  total : s.total < 0x1_0000_0000_0000_0000
  success : s.success < 0x1_0000_0000_0000_0000
  failed : s.failed < 0x1_0000_0000_0000_0000
  skipped : s.skipped < 0x1_0000_0000_0000_0000
  mean : ∀ x, s.avgScore = some x → x.isFinite = true
  errors : ∀ e ∈ s.errors, e.index < 0x1_0000_0000_0000_0000

def record (s : BatchSummary) : List (String × Option Json) :=
  [("total", some (.nat s.total)), ("success", some (.nat s.success)),
    ("failed", some (.nat s.failed)), ("skipped", some (.nat s.skipped)),
    ("avg_score", some (.ofOption (s.avgScore.map Json.ofBinary64))),
    ("errors", some (.arr (s.errors.map ItemError.encode)))]

theorem decode_encode {s : BatchSummary} (h : s.Sized) : decode s.encode = some s := by
  have hkeys : (s.record.map Prod.fst).Nodup := by simp [record]
  have hencode : s.encode = .ofObject (Json.written s.record) := rfl
  rw [hencode]
  exact bind_of_eq rfl <|
    bind_of_eq (required_written hkeys rfl (nat64_of_lt h.total)) <|
    bind_of_eq (required_written hkeys rfl (nat64_of_lt h.success)) <|
    bind_of_eq (required_written hkeys rfl (nat64_of_lt h.failed)) <|
    bind_of_eq (required_written hkeys rfl (nat64_of_lt h.skipped)) <|
    bind_of_eq (nullable_written hkeys rfl fun x hx => Binary64.number_ofBinary64 (h.mean x hx)) <|
    bind_of_eq (required_written hkeys rfl
      (list_map_self fun e he => ItemError.decode_encode (h.errors e he))) rfl

end BatchSummary

namespace GovernanceFlags

def record (f : GovernanceFlags) : List (String × Option Json) :=
  [("is_artifact", some (.bool f.isArtifact)),
    ("has_structured_output", some (.bool f.hasStructuredOutput)),
    ("should_embed", some (.bool f.shouldEmbed)), ("is_final", some (.bool f.isFinal))]

theorem decode_encode (f : GovernanceFlags) : decode f.encode = some f := by
  have hkeys : (f.record.map Prod.fst).Nodup := by simp [record]
  have hencode : f.encode = .ofObject (Json.written f.record) := rfl
  rw [hencode]
  exact bind_of_eq rfl <|
    bind_of_eq (required_written hkeys rfl rfl) <|
    bind_of_eq (required_written hkeys rfl rfl) <|
    bind_of_eq (required_written hkeys rfl rfl) <|
    bind_of_eq (required_written hkeys rfl rfl) rfl

end GovernanceFlags

namespace ItemResult

/-- The index fits its word, the score is finite, and the artifacts are sound. -/
structure Sized (r : ItemResult) : Prop where
  index : r.index < 0x1_0000_0000_0000_0000
  score : ∀ x, r.score = some x → x.isFinite = true
  artifacts : ∀ a ∈ r.artifacts, a.Sound

def record (r : ItemResult) : List (String × Option Json) :=
  [("item_index", some (.nat r.index)), ("status", some (.named r.status)),
    ("execution_id", r.executionId.map .str), ("output", r.output.map .obj),
    ("score", r.score.map Json.ofBinary64),
    ("artifacts", Json.listed? (r.artifacts.map Artifact.encode)),
    ("error", r.error.map Failure.encode)]

theorem encode_eq (r : ItemResult) : r.encode = .ofObject (Json.written r.record) := by
  simp only [encode, Json.entry_eq, Json.entry?_eq, Json.entryList_eq, ← Json.written_append]
  rfl

theorem decode_encode {r : ItemResult} (h : r.Sized) : decode r.encode = some r := by
  have hkeys : (r.record.map Prod.fst).Nodup := by simp [record]
  rw [encode_eq]
  exact bind_of_eq rfl <|
    bind_of_eq (required_written hkeys rfl (nat64_of_lt h.index)) <|
    bind_of_eq (required_written hkeys rfl r.status.ofText?_text) <|
    bind_of_eq (optional_written hkeys rfl fun _ _ => ⟨nofun, rfl⟩) <|
    bind_of_eq (optional_written hkeys rfl fun _ _ => ⟨nofun, rfl⟩) <|
    bind_of_eq (optional_written hkeys rfl fun x hx => Binary64.number_ofBinary64 (h.score x hx)) <|
    bind_of_eq (listed_written hkeys rfl fun a ha => Artifact.decode_encode (h.artifacts a ha)) <|
    bind_of_eq (optional_written hkeys rfl fun f _ => ⟨nofun, f.decode_encode⟩) rfl

end ItemResult

namespace ExecutionResult

/-- All numbers fit their words, scores are finite, and a clock can show the times. -/
structure Sized (r : ExecutionResult) : Prop where
  steps : ∀ s ∈ r.stepResults, s.Sized
  artifacts : ∀ a ∈ r.artifacts, a.Sound
  summary : ∀ s, r.batchSummary = some s → s.Sized
  items : ∀ i ∈ r.items, i.Sized
  started : r.startedAt.Shown
  completed : ∀ t, r.completedAt = some t → t.Shown

/-- The result without the outputs of steps that are null. -/
def reread (r : ExecutionResult) : ExecutionResult :=
  { r with stepResults := r.stepResults.map StepResult.reread }

/-- No step has put out null. -/
def NoNull (r : ExecutionResult) : Prop := ∀ s ∈ r.stepResults, s.output ≠ some .null

theorem reread_eq_self_iff (r : ExecutionResult) : r.reread = r ↔ r.NoNull := by
  have same : r.reread = r ↔ r.stepResults.map StepResult.reread = r.stepResults.map id := by
    rw [List.map_id]
    exact ⟨fun h => congrArg stepResults h, fun h => by rw [reread, h]⟩
  rw [same, List.map_inj_left]
  exact forall₂_congr fun s _ => s.reread_eq_self_iff

def record (r : ExecutionResult) : List (String × Option Json) :=
  [("execution_id", some (.str r.executionId)), ("trace_id", some (.str r.traceId)),
    ("playbook_code", some (.str r.playbookCode)), ("locale", some (.str r.locale)),
    ("status", some (.named r.status)), ("output", some (.obj r.output)),
    ("flags", some r.flags.encode),
    ("step_results", some (.arr (r.stepResults.map StepResult.encode))),
    ("artifacts", Json.listed? (r.artifacts.map Artifact.encode)),
    ("batch_summary", r.batchSummary.map BatchSummary.encode),
    ("items", Json.listed? (r.items.map ItemResult.encode)),
    ("started_at", some r.startedAt.encode),
    ("completed_at", r.completedAt.map Timestamp.encode)]

theorem encode_eq (r : ExecutionResult) : r.encode = .ofObject (Json.written r.record) := by
  simp only [encode, Json.entry_eq, Json.entry?_eq, Json.entryList_eq, ← Json.written_append]
  rfl

theorem decode_encode {r : ExecutionResult} (h : r.Sized) : decode r.encode = some r.reread := by
  have hkeys : (r.record.map Prod.fst).Nodup := by simp [record]
  rw [encode_eq]
  exact bind_of_eq rfl <|
    bind_of_eq (required_written hkeys rfl rfl) <|
    bind_of_eq (required_written hkeys rfl rfl) <|
    bind_of_eq (required_written hkeys rfl rfl) <|
    bind_of_eq (required_written hkeys rfl rfl) <|
    bind_of_eq (required_written hkeys rfl r.status.ofText?_text) <|
    bind_of_eq (required_written hkeys rfl rfl) <|
    bind_of_eq (required_written hkeys rfl r.flags.decode_encode) <|
    bind_of_eq (required_written hkeys rfl
      (list_map fun s hs => StepResult.decode_encode (h.steps s hs))) <|
    bind_of_eq (listed_written hkeys rfl fun a ha => Artifact.decode_encode (h.artifacts a ha)) <|
    bind_of_eq (optional_written hkeys rfl
      fun s hs => ⟨nofun, BatchSummary.decode_encode (h.summary s hs)⟩) <|
    bind_of_eq (listed_written hkeys rfl fun i hi => ItemResult.decode_encode (h.items i hi)) <|
    bind_of_eq (required_written hkeys rfl (Timestamp.decode_encode h.started)) <|
    bind_of_eq (optional_written hkeys rfl
      fun t ht => ⟨nofun, Timestamp.decode_encode (h.completed t ht)⟩) rfl

theorem decode_encode_iff {r : ExecutionResult} (h : r.Sized) :
    decode r.encode = some r ↔ r.NoNull := by
  rw [decode_encode h, Option.some.injEq, reread_eq_self_iff]

end ExecutionResult

namespace ToolRef

/-- The text of the reference is read as the reference. -/
def Readable (t : ToolRef) : Prop := ofText? t.text = some t

theorem readable_of_ofText? {s : String} {t : ToolRef} (h : ofText? s = some t) : t.Readable := by
  rw [ofText?] at h
  split at h
  · rename_i capability tool hsplit
    have without {part : List Char} (hpart : part ∈ Text.splitOn '.' s.toList) :
        '.' ∉ Text.trim part := fun hmem =>
      Text.not_mem_of_mem_splitOn hpart (Text.trim_subset part hmem)
    rw [hsplit] at without
    have hcapability : '.' ∉ Text.trim capability := without List.mem_cons_self
    have htool : '.' ∉ Text.trim tool := without (List.mem_cons_of_mem _ List.mem_cons_self)
    dsimp only at h
    split at h
    · cases h
    · rename_i hblank
      cases h
      have htext : (text ⟨String.ofList (Text.trim capability),
          String.ofList (Text.trim tool)⟩).toList =
          Text.trim capability ++ '.' :: Text.trim tool := by
        simp [text]
      rw [Readable, ofText?, htext, Text.splitOn_append_cons, Text.splitOn_of_not_mem hcapability,
        Text.splitOn_of_not_mem htool]
      simp only [List.singleton_append, Text.trim_trim, if_neg hblank]
  · cases h

end ToolRef

namespace JobHandle

def record (j : JobHandle) : List (String × Option Json) :=
  [("job_id", some (.str j.jobId)), ("tool_job_id", some (.str j.toolJobId)),
    ("execution_id", some (.str j.executionId)), ("trace_id", some (.str j.traceId)),
    ("playbook_code", some (.str j.playbookCode)), ("step_id", some (.str j.stepId)),
    ("tool", some j.tool.encode), ("dispatched_at", some j.dispatchedAt.encode)]

/-- A job is read back with the tool that its reference is read as. -/
theorem decode_encode {j : JobHandle} (h : j.dispatchedAt.Shown) :
    decode j.encode = (ToolRef.ofText? j.tool.text).map fun t => { j with tool := t } := by
  have hkeys : (j.record.map Prod.fst).Nodup := by simp [record]
  have hencode : j.encode = .ofObject (Json.written j.record) := rfl
  have htool : Decoder.required "tool" ToolRef.decode (Fields.ofList (Json.written j.record)) =
      ToolRef.ofText? j.tool.text :=
    required_eq (v := j.tool.encode) hkeys rfl
  rw [hencode]
  refine bind_of_eq rfl <|
    bind_of_eq (required_written hkeys rfl rfl) <|
    bind_of_eq (required_written hkeys rfl rfl) <|
    bind_of_eq (required_written hkeys rfl rfl) <|
    bind_of_eq (required_written hkeys rfl rfl) <|
    bind_of_eq (required_written hkeys rfl rfl) <|
    bind_of_eq (required_written hkeys rfl rfl) ?_
  rw [htool]
  cases ToolRef.ofText? j.tool.text with
  | none => rfl
  | some t =>
    exact bind_of_eq rfl <|
      bind_of_eq (required_written hkeys rfl (Timestamp.decode_encode h)) rfl

theorem decode_encode_iff {j : JobHandle} (h : j.dispatchedAt.Shown) :
    decode j.encode = some j ↔ j.tool.Readable := by
  rw [decode_encode h, Option.map_eq_some_iff, ToolRef.Readable]
  constructor
  · rintro ⟨t, ht, hj⟩
    rw [ht, ← congrArg tool hj]
  · intro ht
    exact ⟨j.tool, ht, rfl⟩

end JobHandle

namespace Invocation

def Sized : Invocation → Prop
  | .completed r => r.Sized
  | .dispatched job => job.dispatchedAt.Shown

/-- No step has put out null; the tool of a job can be read. -/
def Kept : Invocation → Prop
  | .completed r => r.NoNull
  | .dispatched job => job.tool.Readable

theorem decode_encode_iff {i : Invocation} (h : i.Sized) :
    decode i.encode = some i ↔ i.Kept := by
  cases i with
  | completed r =>
    have hread : decode (encode (.completed r)) = some (.completed r) ↔
        ExecutionResult.decode r.encode = some r :=
      tagged_written_iff (by decide) (fun _ _ => completed.inj) fun _ => rfl
    exact hread.trans (ExecutionResult.decode_encode_iff h)
  | dispatched job =>
    have hread : decode (encode (.dispatched job)) = some (.dispatched job) ↔
        JobHandle.decode job.encode = some job :=
      tagged_written_iff (by decide) (fun _ _ => dispatched.inj) fun _ => rfl
    exact hread.trans (JobHandle.decode_encode_iff h)

end Invocation

namespace JobStatus

def Sized : JobStatus → Prop
  | .pending job => job.dispatchedAt.Shown
  | .completed r => r.Sized
  | .failed _ => True

/-- No step has put out null; the tool of a job can be read. -/
def Kept : JobStatus → Prop
  | .pending job => job.tool.Readable
  | .completed r => r.NoNull
  | .failed _ => True

theorem decode_encode_iff {s : JobStatus} (h : s.Sized) : decode s.encode = some s ↔ s.Kept := by
  cases s with
  | pending job =>
    have hread : decode (encode (.pending job)) = some (.pending job) ↔
        JobHandle.decode job.encode = some job :=
      tagged_written_iff (by decide) (fun _ _ => pending.inj) fun _ => rfl
    exact hread.trans (JobHandle.decode_encode_iff h)
  | completed r =>
    have hread : decode (encode (.completed r)) = some (.completed r) ↔
        ExecutionResult.decode r.encode = some r :=
      tagged_written_iff (by decide) (fun _ _ => completed.inj) fun _ => rfl
    exact hread.trans (ExecutionResult.decode_encode_iff h)
  | failed f =>
    have hread : decode (encode (.failed f)) = some (.failed f) ↔
        Failure.decode f.encode = some f :=
      tagged_written_iff (by decide) (fun _ _ => failed.inj) fun _ => rfl
    exact iff_of_true (hread.mpr f.decode_encode) trivial

end JobStatus

/-- What the engine answers, and the results of items within it. -/
inductive Reply
  | execution (r : ExecutionResult)
  | invocation (i : Invocation)
  | status (s : JobStatus)
  | item (r : ItemResult)

namespace Reply

def Sized : Reply → Prop
  | .execution r => r.Sized
  | .invocation i => i.Sized
  | .status s => s.Sized
  | .item r => r.Sized

/-- What is read of the JSON form is the same value. -/
def ReadBack : Reply → Prop
  | .execution r => ExecutionResult.decode r.encode = some r
  | .invocation i => Invocation.decode i.encode = some i
  | .status s => JobStatus.decode s.encode = some s
  | .item r => ItemResult.decode r.encode = some r

/-- No step has put out null; the tool of a job can be read. -/
def Kept : Reply → Prop
  | .execution r => r.NoNull
  | .invocation i => i.Kept
  | .status s => s.Kept
  | .item _ => True

/-- An answer is read back as it was iff no step has put out null and, of a job, the tool can be
read, as every tool can whose reference has come from a text. -/
theorem read_back_iff_kept {x : Reply} (h : x.Sized) :
    (x.ReadBack ↔ x.Kept) ∧ ∀ s t, ToolRef.ofText? s = some t → t.Readable := by
  refine ⟨?_, fun s t ht => ToolRef.readable_of_ofText? ht⟩
  cases x with
  | execution r => exact ExecutionResult.decode_encode_iff h
  | invocation i => exact Invocation.decode_encode_iff h
  | status s => exact JobStatus.decode_encode_iff h
  | item r => exact iff_of_true (ItemResult.decode_encode h) trivial

end Reply

def pingTimes : Timestamp × Timestamp := (⟨1715337000, 0⟩, ⟨1715337000, 250000000⟩)

def pingItem : ItemResult := .success 0 "exec-2" [("score", .null)] (some Binary64.one) []

def pingResult : ExecutionResult where
  executionId := "exec-1"
  traceId := "trace-1"
  playbookCode := "ping"
  locale := "en"
  status := .partialFailure
  output := [("answer", .null)]
  flags := ⟨false, true, false, false⟩
  stepResults := [.success "ping" (.arr [.null]) 1 pingTimes.1 pingTimes.2,
    .success "check" (.bool false) 2 pingTimes.1 pingTimes.2, .skipped "wait" pingTimes.2]
  artifacts := []
  batchSummary := some (.ofItems [pingItem])
  items := [pingItem]
  startedAt := pingTimes.1
  completedAt := some pingTimes.2

def pingJob : JobHandle :=
  ⟨"job-1", "7", "exec-1", "trace-1", "ping", "ping", ⟨"probe", "ping"⟩, pingTimes.1⟩

theorem ping_read_back :
    ExecutionResult.decode pingResult.encode = some pingResult ∧
      Invocation.decode (Invocation.encode (.dispatched pingJob)) = some (.dispatched pingJob) ∧
      JobStatus.decode (JobStatus.encode (.completed pingResult)) = some (.completed pingResult) ∧
      ItemResult.decode pingItem.encode = some pingItem := by
  have hone : Binary64.one.isFinite = true := by decide
  have hitem : pingItem.Sized := ⟨by decide, fun x hx => Option.some.inj hx ▸ hone, nofun⟩
  have hmean : (Reducer.mean.reduce? [Binary64.one]).all (·.isFinite) = true := by decide +kernel
  have hsummary : (BatchSummary.ofItems [pingItem]).Sized := by
    refine ⟨by decide, by decide, by decide, by decide, fun x hx => ?_, nofun⟩
    exact (Option.all_eq_true _ _).mp hmean x hx
  have hsteps : ∀ s ∈ pingResult.stepResults, s.Sized ∧ s.output ≠ some .null := by
    simp only [pingResult, List.forall_mem_cons]
    exact ⟨⟨⟨by decide, by decide, by decide, by decide⟩, nofun⟩,
      ⟨⟨by decide, by decide, by decide, by decide⟩, nofun⟩,
      ⟨⟨by decide, by decide, by decide, by decide⟩, nofun⟩, nofun⟩
  have hsized : pingResult.Sized := by
    refine ⟨fun s hs => (hsteps s hs).1, nofun, fun s hs => ?_, fun i hi => ?_, by decide,
      fun t ht => ?_⟩
    · exact Option.some.inj hs ▸ hsummary
    · exact List.mem_singleton.mp hi ▸ hitem
    · exact Option.some.inj ht ▸ (by decide : pingTimes.2.Shown)
  have hnull : pingResult.NoNull := fun s hs => (hsteps s hs).2
  have hjob : pingJob.dispatchedAt.Shown := by decide
  obtain ⟨hdispatched, hreadable⟩ :=
    Reply.read_back_iff_kept (x := .invocation (.dispatched pingJob)) hjob
  have htool : pingJob.tool.Readable := hreadable "probe.ping" _ (by decide)
  exact ⟨(Reply.read_back_iff_kept (x := .execution pingResult) hsized).1.mpr hnull,
    hdispatched.mpr htool,
    (Reply.read_back_iff_kept (x := .status (.completed pingResult)) hsized).1.mpr hnull,
    (Reply.read_back_iff_kept (x := .item pingItem) hitem).1.mpr trivial⟩

/-- A playbook with one step, whose tool is asked whether it is there. -/
def pingPlaybook : Playbook where
  code := "ping"
  version := "1.0.0"
  name := "Ping"
  description := ""
  kind := .userWorkflow
  capabilityCode := none
  locale := "en"
  supportedLocales := ["en"]
  defaultLocale := "en"
  requiredTools := [⟨"probe", "ping"⟩]
  optionalTools := []
  steps := [⟨"ping", "", ⟨"probe", "ping"⟩, none, false, [], none⟩]
  inputSchema := []
  outputSchema := []
  primaryScore := "score"
  tags := []
  sections := []

def pingEngine : Engine := ⟨.ofPlaybooks "en" [pingPlaybook], .default, .default⟩

/-- The tool puts out the same value on every call. -/
def pingWorld (output : Json) : World where
  tools := ToolSet.empty.register ⟨"probe", "ping"⟩ ⟨"probe.ping", .static output, 0, 0⟩
  store := .memory .empty
  jobs := .empty JobTable.defaultTtl
  ids := ⟨0⟩

/-- The tool answers with null, which the result holds and loses. -/
theorem null_output_not_read_back :
    ∃ i, ((pingWorld .null).execute pingEngine 0 "ping" "en" []).1 = .ok (.ok i) ∧
      Invocation.decode i.encode ≠ some i := by
  have changed : (match ((pingWorld .null).execute pingEngine 0 "ping" "en" []).1 with
      | .ok (.ok i) => ((Invocation.decode i.encode).map Invocation.encode == some i.encode)
      | _ => true) = false := by
    decide +kernel
  rcases hrun : ((pingWorld .null).execute pingEngine 0 "ping" "en" []).1 with why | f | i
  case error =>
    rw [hrun] at changed
    cases changed
  case ok.error =>
    rw [hrun] at changed
    cases changed
  case ok.ok =>
    rw [hrun] at changed
    refine ⟨i, rfl, fun hread => ?_⟩
    simp [hread] at changed

end PlaybookEngine
