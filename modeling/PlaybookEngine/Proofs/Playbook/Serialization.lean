import PlaybookEngine.Playbook.FrontMatter
import PlaybookEngine.Proofs.Engine.Serialization
import PlaybookEngine.Proofs.Playbook.Loaded

namespace PlaybookEngine

open Decoder (bind_of_eq required_written optional_written value_written nullable_written
  defaulted_written listed_written list_map_self fields_mapValues fields_mapValues_self
  closedRecord_written)

theorem PlaybookKind.ofText?_text (k : PlaybookKind) : Named.ofText? (Named.text k) = some k := by
  cases k <;> decide

theorem ParamType.ofText?_text (t : ParamType) : Named.ofText? (Named.text t) = some t := by
  cases t <;> decide

theorem FieldType.ofText?_text (t : FieldType) : Named.ofText? (Named.text t) = some t := by
  cases t <;> decide

theorem Reducer.ofText?_text (r : Reducer) : Named.ofText? (Named.text r) = some r := by
  cases r <;> decide

namespace Condition

mutual

/-- A condition of any depth is read back. -/
theorem decode_encode : (c : Condition) → decode c.encode = some c
  | .always => rfl
  | .notSkipped _ => rfl
  | .inputPresent _ => rfl
  | .inputEquals _ _ => rfl
  | .inputIn _ _ => rfl
  | .flag _ => rfl
  | .stepSucceeded _ => rfl
  | .stepOutputEquals _ _ _ => rfl
  | .all cs => by simp [encode, tagged, decode, decodeArray, decodeList_encodeList cs]
  | .any cs => by simp [encode, tagged, decode, decodeArray, decodeList_encodeList cs]
  | .not c => by simp [encode, tagged, decode, decode_encode c]

theorem decodeList_encodeList : (cs : List Condition) → decodeList (encodeList cs) = some cs
  | [] => rfl
  | c :: cs => bind_of_eq (decode_encode c) <| bind_of_eq (decodeList_encodeList cs) rfl

end

theorem encode_ne_null (c : Condition) : c.encode ≠ .null := by
  cases c <;> simp [encode, tagged]

end Condition

namespace Param

/-- The declaration without a default that is null. -/
def reread (p : Param) : Param := { p with default := p.default.bind Json.present? }

theorem reread_eq_self_iff (p : Param) : p.reread = p ↔ p.default ≠ some .null := by
  have same : p.reread = p ↔ p.default.bind Json.present? = p.default :=
    ⟨fun h => congrArg default h, fun h => by rw [reread, h]⟩
  rw [same, Json.bind_present?_eq_self_iff]

def record (p : Param) : List (String × Option Json) :=
  [("type", some (.named p.type)), ("required", some (.bool p.required)), ("default", p.default),
    ("values", Json.listed? (p.values.map .str)), ("description", p.description.map .str)]

theorem encode_eq (p : Param) : p.encode = .ofObject (Json.written p.record) := by
  simp only [encode, Json.entry_eq, Json.entry?_eq, Json.entryList_eq, ← Json.written_append]
  rfl

theorem decode_encode (p : Param) : decode p.encode = some p.reread := by
  have hkeys : (p.record.map Prod.fst).Nodup := by simp [record]
  rw [encode_eq]
  exact bind_of_eq (closedRecord_written (List.Subset.refl _)) <|
    bind_of_eq (required_written hkeys rfl p.type.ofText?_text) <|
    bind_of_eq (defaulted_written hkeys rfl rfl) <|
    bind_of_eq (value_written hkeys rfl) <|
    bind_of_eq (listed_written hkeys rfl fun _ _ => rfl) <|
    bind_of_eq (optional_written hkeys rfl fun _ _ => ⟨nofun, rfl⟩) rfl

end Param

namespace MergePolicy

theorem decode_encode (m : MergePolicy) : decode m.encode = some m := by
  have hlist (names : List String) :
      Decoder.list Decoder.string (Json.strings names) = some names :=
    list_map_self fun _ _ => rfl
  cases m with
  | overwriteLast => rfl
  | unionByKey key dedup max =>
    have hmax : Decoder.optional "max" Decoder.string
        [("dedup", Json.strings dedup), ("key", .str key), ("max", .ofOption (max.map .str))] =
          some max := by
      cases max <;> rfl
    exact bind_of_eq rfl <| bind_of_eq rfl <| bind_of_eq (hlist dedup) <| bind_of_eq hmax rfl
  | reduce reducer source =>
    exact bind_of_eq rfl <| bind_of_eq reducer.ofText?_text <| bind_of_eq (hlist source) rfl

end MergePolicy

namespace OutputField

def record (f : OutputField) : List (String × Option Json) :=
  [("type", some (.named f.type)), ("required", some (.bool f.required)),
    ("merge", some f.merge.encode)]

theorem decode_encode (f : OutputField) : decode f.encode = some f := by
  have hkeys : (f.record.map Prod.fst).Nodup := by simp [record]
  have hencode : f.encode = .ofObject (Json.written f.record) := rfl
  rw [hencode]
  exact bind_of_eq (closedRecord_written (List.Subset.refl _)) <|
    bind_of_eq (defaulted_written hkeys rfl f.type.ofText?_text) <|
    bind_of_eq (defaulted_written hkeys rfl rfl) <|
    bind_of_eq (defaulted_written hkeys rfl f.merge.decode_encode) rfl

end OutputField

namespace ArtifactSpec

def record (a : ArtifactSpec) : List (String × Option Json) :=
  [("name", some (.str a.name)), ("content_field", some (.str a.contentField)),
    ("extension", some (.str a.extension))]

theorem decode_encode (a : ArtifactSpec) : decode a.encode = some a := by
  have hkeys : (a.record.map Prod.fst).Nodup := by simp [record]
  have hencode : a.encode = .ofObject (Json.written a.record) := rfl
  rw [hencode]
  exact bind_of_eq (closedRecord_written (List.Subset.refl _)) <|
    bind_of_eq (required_written hkeys rfl rfl) <|
    bind_of_eq (required_written hkeys rfl rfl) <|
    bind_of_eq (defaulted_written hkeys rfl rfl) rfl

theorem encode_ne_null (a : ArtifactSpec) : a.encode ≠ .null := by
  simp [encode, Json.ofObject]

end ArtifactSpec

namespace Step

def record (s : Step) : List (String × Option Json) :=
  [("id", some (.str s.id)), ("action", some (.str s.action)), ("tool", some s.tool.encode),
    ("condition", s.condition.map Condition.encode), ("async", some (.bool s.isAsync)),
    ("params", if s.params = [] then none else some (.obj s.params)),
    ("artifact", s.artifact.map ArtifactSpec.encode)]

theorem encode_eq (s : Step) : s.encode = .ofObject (Json.written s.record) := by
  have hparams : (if s.params = [] then [] else Json.entry "params" (.obj s.params)) =
      Json.written [("params", if s.params = [] then none else some (.obj s.params))] := by
    split <;> rfl
  rw [encode, hparams]
  simp only [Json.entry_eq, Json.entry?_eq, ← Json.written_append]
  rfl

theorem decode_encode {s : Step} (h : s.tool.Readable) : decode s.encode = some s := by
  have hkeys : (s.record.map Prod.fst).Nodup := by simp [record]
  have hparams : Decoder.defaulted "params" [] Decoder.object
      (Fields.ofList (Json.written s.record)) = some s.params := by
    by_cases hnil : s.params = []
    · have hentry : Fields.get? "params" s.record = some none := by
        simp [record, Fields.get?_cons, hnil]
      rw [Decoder.defaulted, Json.get?_written hkeys hentry, hnil]
    · have hentry : Fields.get? "params" s.record = some (some (.obj s.params)) := by
        simp [record, Fields.get?_cons, hnil]
      exact defaulted_written hkeys hentry rfl
  rw [encode_eq]
  exact bind_of_eq (closedRecord_written (List.Subset.refl _)) <|
    bind_of_eq (required_written hkeys rfl rfl) <|
    bind_of_eq (required_written hkeys rfl rfl) <|
    bind_of_eq (required_written hkeys rfl h) <|
    bind_of_eq (optional_written hkeys rfl fun c _ => ⟨c.encode_ne_null, c.decode_encode⟩) <|
    bind_of_eq (defaulted_written hkeys rfl rfl) <|
    bind_of_eq hparams <|
    bind_of_eq (optional_written hkeys rfl fun a _ => ⟨a.encode_ne_null, a.decode_encode⟩) rfl

end Step

namespace Playbook

/-- The references to tools can be read. -/
structure ToolsReadable (p : Playbook) : Prop where
  required : ∀ t ∈ p.requiredTools, t.Readable
  optional : ∀ t ∈ p.optionalTools, t.Readable
  steps : ∀ s ∈ p.steps, s.tool.Readable

/-- The playbook without defaults that are null. -/
def reread (p : Playbook) : Playbook :=
  { p with inputSchema := Fields.mapValues Param.reread p.inputSchema }

/-- No input has null as its default. -/
def NoNullDefault (p : Playbook) : Prop := ∀ q ∈ p.inputSchema, q.2.default ≠ some .null

instance (p : Playbook) : Decidable p.NoNullDefault :=
  decidable_of_iff (∀ q ∈ p.inputSchema, q.2.default.any Json.isNull = false) <| by
    refine forall₂_congr fun q _ => ?_
    cases q.2.default with
    | none => exact iff_of_true rfl nofun
    | some v => simp [← Json.isNull_iff]

theorem reread_eq_self_iff (p : Playbook) : p.reread = p ↔ p.NoNullDefault := by
  have same : p.reread = p ↔
      p.inputSchema.map (fun q => (q.1, q.2.reread)) = p.inputSchema.map id := by
    rw [List.map_id]
    exact ⟨fun h => congrArg inputSchema h, fun h => by rw [reread, Fields.mapValues, h]⟩
  rw [same, List.map_inj_left]
  refine forall₂_congr fun q _ => ?_
  rw [← q.2.reread_eq_self_iff]
  exact ⟨fun h => congrArg Prod.snd h, fun h => Prod.ext rfl h⟩

def record (p : Playbook) : List (String × Option Json) :=
  [("code", some (.str p.code)), ("version", some (.str p.version)), ("name", some (.str p.name)),
    ("description", some (.str p.description)), ("kind", some (.named p.kind)),
    ("capability_code", p.capabilityCode.map .str), ("locale", some (.str p.locale)),
    ("supported_locales", some (Json.strings p.supportedLocales)),
    ("default_locale", some (.str p.defaultLocale)),
    ("required_tools", some (.arr (p.requiredTools.map ToolRef.encode))),
    ("optional_tools", some (.arr (p.optionalTools.map ToolRef.encode))),
    ("steps", some (.arr (p.steps.map Step.encode))),
    ("input_schema", some (.obj (Fields.mapValues Param.encode p.inputSchema))),
    ("output_schema", some (.obj (Fields.mapValues OutputField.encode p.outputSchema))),
    ("primary_score", some (.str p.primaryScore)), ("tags", some (Json.strings p.tags)),
    ("sections", some (.obj (Fields.mapValues .str p.sections)))]

theorem encode_eq (p : Playbook) : p.encode = .ofObject (Json.written p.record) := by
  simp only [encode, Json.entry_eq, Json.entry?_eq, ← Json.written_append, List.cons_append,
    List.nil_append, record]

theorem decode_encode {p : Playbook} (h : p.ToolsReadable) : decode p.encode = some p.reread := by
  have hkeys : (p.record.map Prod.fst).Nodup := by simp [record]
  rw [encode_eq]
  exact bind_of_eq rfl <|
    bind_of_eq (required_written hkeys rfl rfl) <|
    bind_of_eq (required_written hkeys rfl rfl) <|
    bind_of_eq (required_written hkeys rfl rfl) <|
    bind_of_eq (defaulted_written hkeys rfl rfl) <|
    bind_of_eq (required_written hkeys rfl p.kind.ofText?_text) <|
    bind_of_eq (optional_written hkeys rfl fun _ _ => ⟨nofun, rfl⟩) <|
    bind_of_eq (required_written hkeys rfl rfl) <|
    bind_of_eq (required_written hkeys rfl (list_map_self fun _ _ => rfl)) <|
    bind_of_eq (required_written hkeys rfl rfl) <|
    bind_of_eq (defaulted_written hkeys rfl (list_map_self h.required)) <|
    bind_of_eq (defaulted_written hkeys rfl (list_map_self h.optional)) <|
    bind_of_eq (defaulted_written hkeys rfl
      (list_map_self fun s hs => Step.decode_encode (h.steps s hs))) <|
    bind_of_eq (defaulted_written hkeys rfl (fields_mapValues fun q _ => q.2.decode_encode)) <|
    bind_of_eq (defaulted_written hkeys rfl
      (fields_mapValues_self fun q _ => q.2.decode_encode)) <|
    bind_of_eq (required_written hkeys rfl rfl) <|
    bind_of_eq (defaulted_written hkeys rfl (list_map_self fun _ _ => rfl)) <|
    bind_of_eq (defaulted_written hkeys rfl (fields_mapValues_self fun _ _ => rfl)) rfl

theorem decode_encode_iff {p : Playbook} (h : p.ToolsReadable) :
    decode p.encode = some p ↔ p.NoNullDefault := by
  rw [decode_encode h, Option.some.injEq, reread_eq_self_iff]

end Playbook

namespace FrontMatter

open Yaml

theorem readable_of_toolRef {n : Node} {t : ToolRef} (h : toolRef n = some t) : t.Readable := by
  obtain ⟨s, -, hs⟩ := Option.bind_eq_some_iff.mp h
  exact ToolRef.readable_of_ofText? hs

/-- Whatever is read of each node is there of all in a list. -/
theorem forall_of_list {α : Type} {read : Node → Option α} {Q : α → Prop}
    (hread : ∀ n a, read n = some a → Q a) {n : Node} {as : List α}
    (h : Node.list read n = some as) : ∀ a ∈ as, Q a := by
  obtain ⟨items, -, hitems⟩ := Option.bind_eq_some_iff.mp h
  clear h
  induction items generalizing as with
  | nil =>
    cases hitems
    intro a ha
    cases ha
  | cons item items ih =>
    rw [List.mapM_cons] at hitems
    obtain ⟨a, hitem, hitems⟩ := Option.bind_eq_some_iff.mp hitems
    obtain ⟨rest, hrest, hitems⟩ := Option.bind_eq_some_iff.mp hitems
    cases hitems
    exact List.forall_mem_cons.mpr ⟨hread item a hitem, ih hrest⟩

theorem forall_of_defaulted_list {α : Type} {read : Node → Option α} {Q : α → Prop}
    (hread : ∀ n a, read n = some a → Q a) {k : String} {fs : Fields Node} {as : List α}
    (h : Node.defaulted k [] (Node.list read) fs = some as) : ∀ a ∈ as, Q a := by
  unfold Node.defaulted at h
  split at h
  · cases h
    intro a ha
    cases ha
  · exact forall_of_list hread h

theorem readable_of_playbook {sections : Fields String} {n : Node} {p : Playbook}
    (h : playbook sections n = some p) :
    (∀ t ∈ p.requiredTools, t.Readable) ∧ ∀ t ∈ p.optionalTools, t.Readable := by
  obtain ⟨fs, -, h⟩ := Option.bind_eq_some_iff.mp h
  iterate 9 obtain ⟨_, -, h⟩ := Option.bind_eq_some_iff.mp h
  obtain ⟨required, hrequired, h⟩ := Option.bind_eq_some_iff.mp h
  obtain ⟨optional, hoptional, h⟩ := Option.bind_eq_some_iff.mp h
  iterate 5 obtain ⟨_, -, h⟩ := Option.bind_eq_some_iff.mp h
  cases h
  exact ⟨forall_of_defaulted_list (fun _ _ => readable_of_toolRef) hrequired,
    forall_of_defaulted_list (fun _ _ => readable_of_toolRef) hoptional⟩

end FrontMatter

namespace Playbook

/-- The steps of a document call declared tools, and these were read from texts. -/
theorem toolsReadable_of_ofDocument {text : String} {p : Playbook} (h : ofDocument text = .ok p) :
    p.ToolsReadable := by
  obtain ⟨⟨sections, n, hread⟩, hfault⟩ := frontMatter_of_ofDocument h
  obtain ⟨hrequired, hoptional⟩ := FrontMatter.readable_of_playbook hread
  refine ⟨hrequired, hoptional, fun s hs => ?_⟩
  have hdeclared := declaresTool_of_fault? hfault s hs
  rw [declaresTool, Bool.or_eq_true, List.contains_iff_mem, List.contains_iff_mem] at hdeclared
  exact hdeclared.elim (hrequired _) (hoptional _)

theorem stepFault?_reread (p : Playbook) (seen : List String) (steps : List Step) :
    p.reread.stepFault? seen steps = p.stepFault? seen steps := by
  induction steps generalizing seen with
  | nil => rfl
  | cons s rest ih =>
    rw [stepFault?, stepFault?, ih]
    rfl

/-- The rules do not speak of the inputs. -/
theorem validate_reread (p : Playbook) : p.reread.validate = p.validate := by
  unfold validate fault?
  rw [stepFault?_reread]
  rfl

/-- The playbook of a document is read back with all of its parts, and keeps the rules again. It is
the same playbook exactly when no input has null as its default; and a reference to a tool that is
read from a text is read again from its own. -/
theorem document_read_back_iff {text : String} {p : Playbook} (h : ofDocument text = .ok p) :
    decode p.encode = some p.reread ∧ p.reread.validate = .ok () ∧
      (decode p.encode = some p ↔ p.NoNullDefault) ∧
      ∀ s t, ToolRef.ofText? s = some t → ToolRef.ofText? t.text = some t := by
  have htools := toolsReadable_of_ofDocument h
  refine ⟨decode_encode htools, ?_, decode_encode_iff htools,
    fun s t => ToolRef.readable_of_ofText?⟩
  rw [validate_reread]
  exact validate_eq_ok.mpr (fault?_of_ofDocument h)

theorem exists_of_declared {text : List Char} {test : Playbook → Bool}
    (h : (declared? text).any test = true) :
    ∃ p, ofDocument (String.ofList text) = .ok p ∧ test p = true := by
  obtain ⟨p, hp, htest⟩ := (Option.any_eq_true _ _).mp h
  rw [← String.toList_ofList (l := text)] at hp
  exact ⟨p, ofDocument_eq_ok_iff.mpr hp, htest⟩

/-- A document with a default, a merge policy, a null within a condition, and a section. -/
def digest : List Char :=
  Document.unlines (List.map String.toList
    ["---", "playbook_code: d", "version: 1.0.0", "name: D", "kind: system_tool",
      "required_tools: [a . b]", "input_schema:", "  n: \x7btype: integer, default: 2\x7d",
      "output_schema:", "  c: \x7bmerge: \x7bunion_by_key: \x7bkey: k\x7d\x7d\x7d",
      "steps: [\x7bid: s, action: a, tool: a.b,", "condition: \x7bnot: \x7ball:",
      "[\x7binput_equals:", "\x7bfield: n, value: null\x7d\x7d]\x7d\x7d\x7d]",
      "---", "## Goal", "All."])

/-- The whole digest is read back. -/
theorem digest_read_back :
    ∃ p, ofDocument (String.ofList digest) = .ok p ∧ p.steps.length = 1 ∧
      p.outputSchema.length = 1 ∧ p.sections.length = 1 ∧ decode p.encode = some p ∧
      ToolRef.ofText? (ToolRef.text ⟨"a", "b"⟩) = some ⟨"a", "b"⟩ := by
  have declared : (declared? digest).any (fun p => p.steps.length = 1 ∧
      p.outputSchema.length = 1 ∧ p.sections.length = 1 ∧ p.NoNullDefault) = true := by
    decide +kernel
  obtain ⟨p, hp, htest⟩ := exists_of_declared declared
  obtain ⟨hsteps, houtputs, hsections, hdefaults⟩ := of_decide_eq_true htest
  obtain ⟨-, -, hback, htool⟩ := document_read_back_iff hp
  exact ⟨p, hp, hsteps, houtputs, hsections, hback.mpr hdefaults,
    htool "a . b" ⟨"a", "b"⟩ (by decide +kernel)⟩

/-- A document with an input that is not a number by default. -/
def nanDigest : List Char :=
  Document.unlines (List.map String.toList
    ["---", "playbook_code: x", "version: 1.0.0", "name: X", "kind: system_tool",
      "input_schema: \x7ba: \x7btype: number, default: .nan\x7d\x7d", "---"])

/-- The default is null, and a playbook without it is read back. -/
theorem nan_default_not_read_back :
    ∃ p, ofDocument (String.ofList nanDigest) = .ok p ∧ decode p.encode ≠ some p := by
  have declared : (declared? nanDigest).any (fun p => ¬p.NoNullDefault) = true := by
    decide +kernel
  obtain ⟨p, hp, htest⟩ := exists_of_declared declared
  have hback := decode_encode_iff (toolsReadable_of_ofDocument hp)
  exact ⟨p, hp, fun h => of_decide_eq_true htest (hback.mp h)⟩

end Playbook

end PlaybookEngine
