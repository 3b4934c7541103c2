import PlaybookEngine.Playbook.Validation
import PlaybookEngine.Proofs.Artifact.Reading
import PlaybookEngine.Proofs.Output.Schema
import Mathlib.Data.List.Nodup

namespace PlaybookEngine

namespace ArtifactDraft

variable {d d' : ArtifactDraft} {ds : List ArtifactDraft} {taken : String → Prop} {side : String}

structure Free (d : ArtifactDraft) (taken : String → Prop) : Prop where
  content : ¬ taken d.contentKey
  side : ∀ side, d.metadataKey? = some side → ¬ taken side

/-- The keys of the drafts can be read, and no two drafts have a key in common. -/
structure Separate (ds : List ArtifactDraft) : Prop where
  readable : ∀ d ∈ ds, d.metadataKey? ≠ none
  contents : (ds.map contentKey).Nodup
  sides : (ds.map metadataKey?).Nodup

theorem fits_iff : d.Fits taken ↔ d.metadataKey? ≠ none ∧ d.Free taken := by
  constructor
  · rintro ⟨side, hside, hcontent, hfree⟩
    refine ⟨hside ▸ Option.some_ne_none side, hcontent, fun side' hside' => ?_⟩
    obtain rfl := Option.some_inj.mp (hside.symm.trans hside')
    exact hfree
  · rintro ⟨hreadable, hcontent, hfree⟩
    obtain ⟨side, hside⟩ := Option.ne_none_iff_exists'.mp hreadable
    exact ⟨side, hside, hcontent, hfree side hside⟩

theorem side_ne_contentKey (h : d.metadataKey? = some side) (d' : ArtifactDraft) :
    side ≠ d'.contentKey := by
  rintro rfl
  exact ArtifactKey.not_isSide_contentKey d'.key d'.contentStatus ⟨d.contentKey, h⟩

theorem free_takenWith_iff (h : d'.metadataKey? ≠ none) :
    d'.Free (d.takenWith taken) ↔
      d'.Free taken ∧ d.contentKey ≠ d'.contentKey ∧ d.metadataKey? ≠ d'.metadataKey? := by
  constructor
  · rintro ⟨hcontent, hside⟩
    rw [takenWith, not_or, not_or] at hcontent
    refine ⟨⟨hcontent.1, fun side hs ht => hside side hs (.inl ht)⟩, Ne.symm hcontent.2.1, ?_⟩
    intro hsame
    obtain ⟨side, hs⟩ := Option.ne_none_iff_exists'.mp h
    exact hside side hs (.inr (.inr (hsame.trans hs)))
  · rintro ⟨⟨hcontent, hside⟩, hne, hne'⟩
    constructor
    · rintro (ht | ht | ht)
      · exact hcontent ht
      · exact hne ht.symm
      · exact side_ne_contentKey ht d' rfl
    · rintro side hs (ht | ht | ht)
      · exact hside side hs ht
      · exact side_ne_contentKey hs d ht
      · exact hne' (ht.trans hs.symm)

theorem separate_cons_iff : Separate (d :: ds) ↔ d.metadataKey? ≠ none ∧ Separate ds ∧
    ∀ d' ∈ ds, d.contentKey ≠ d'.contentKey ∧ d.metadataKey? ≠ d'.metadataKey? := by
  have apart {β : Type} (f : ArtifactDraft → β) : f d ∉ ds.map f ↔ ∀ d' ∈ ds, f d ≠ f d' := by
    simp [eq_comm]
  constructor
  · rintro ⟨hreadable, hcontents, hsides⟩
    obtain ⟨hreadable, hreadable'⟩ := List.forall_mem_cons.mp hreadable
    rw [List.map_cons, List.nodup_cons, apart] at hcontents hsides
    exact ⟨hreadable, ⟨hreadable', hcontents.2, hsides.2⟩, fun d' hd' =>
      ⟨hcontents.1 d' hd', hsides.1 d' hd'⟩⟩
  · rintro ⟨hreadable, ⟨hreadable', hcontents, hsides⟩, hapart⟩
    refine ⟨List.forall_mem_cons.mpr ⟨hreadable, hreadable'⟩, ?_, ?_⟩
    · rw [List.map_cons, List.nodup_cons, apart]
      exact ⟨fun d' hd' => (hapart d' hd').1, hcontents⟩
    · rw [List.map_cons, List.nodup_cons, apart]
      exact ⟨fun d' hd' => (hapart d' hd').2, hsides⟩

/-- Drafts can be stored one after the other if they are apart and their keys are free. -/
theorem fitAll_iff : FitAll taken ds ↔ Separate ds ∧ ∀ d ∈ ds, d.Free taken := by
  induction ds generalizing taken with
  | nil => simpa [FitAll] using (⟨nofun, .nil, .nil⟩ : Separate [])
  | cons d rest ih =>
    have later (h : Separate rest) : (∀ d' ∈ rest, d'.Free (d.takenWith taken)) ↔
        (∀ d' ∈ rest, d'.Free taken) ∧
          ∀ d' ∈ rest, d.contentKey ≠ d'.contentKey ∧ d.metadataKey? ≠ d'.metadataKey? := by
      rw [← forall₂_and]
      exact forall₂_congr fun d' hd' => free_takenWith_iff (h.readable d' hd')
    rw [FitAll, fits_iff, ih, separate_cons_iff, List.forall_mem_cons]
    constructor
    · rintro ⟨⟨hreadable, hfree⟩, hrest, hlater⟩
      obtain ⟨hfree', hapart⟩ := (later hrest).mp hlater
      exact ⟨⟨hreadable, hrest, hapart⟩, hfree, hfree'⟩
    · rintro ⟨⟨hreadable, hrest, hapart⟩, hfree, hfree'⟩
      exact ⟨⟨hreadable, hfree⟩, hrest, (later hrest).mpr ⟨hfree', hapart⟩⟩

end ArtifactDraft

namespace MemoryStore

/-- No part of any key in the store starts with the execution. -/
def FreeOf (m : MemoryStore) (executionId : String) : Prop :=
  ∀ key, m.Taken key → ¬ '/' :: executionId.toList ++ ['-'] <:+: key.toList

/-- Drafts are stored, one after the other, exactly if they fit. -/
theorem persistAll_ok_iff {m : MemoryStore} {now : Timestamp} {ds : List ArtifactDraft} :
    (∃ as st, ArtifactStore.persistAll now ds (.memory m) = (.ok as, st)) ↔
      ArtifactDraft.FitAll m.Taken ds := by
  obtain ⟨kept, m', -, -, ⟨hall, -, hout⟩ | ⟨hnot, -, err, hout⟩⟩ := m.persistAll_memory now ds
  · exact iff_of_true ⟨_, _, hout⟩ hall
  · refine iff_of_false ?_ hnot
    rintro ⟨as, st, hok⟩
    rw [hout] at hok
    cases hok

end MemoryStore

namespace ArtifactSpec

/-- The name of the version with all that stands before the last point of its file's name. -/
def stem (spec : ArtifactSpec) : String :=
  match Text.splitLast '.' spec.extension.toList with
  | none => spec.name ++ "-v1"
  | some (front, _) => spec.name ++ "-v1." ++ String.ofList front

def ending (spec : ArtifactSpec) : String :=
  match Text.splitLast '.' spec.extension.toList with
  | none => spec.extension
  | some (_, back) => String.ofList back

/-- The key that the content of the artifact is read back as. -/
def storedKey (spec : ArtifactSpec) (capability executionId : String) : ArtifactKey :=
  ⟨capability, executionId ++ "-" ++ spec.stem, spec.ending⟩

/-- The capability and the names can stand in keys, and no two artifacts have the same stem. -/
structure Storable (capability : String) (specs : List ArtifactSpec) : Prop where
  capability : specs ≠ [] → capability ≠ "" ∧ '/' ∉ capability.toList
  names : ∀ spec ∈ specs, '/' ∉ spec.name.toList ∧ '/' ∉ spec.extension.toList
  apart : (specs.map stem).Nodup

variable {spec : ArtifactSpec} {specs : List ArtifactSpec} {capability executionId : String}

theorem stem_ending (spec : ArtifactSpec) :
    spec.name ++ "-v1." ++ spec.extension = spec.stem ++ "." ++ spec.ending := by
  unfold stem ending
  cases hsplit : Text.splitLast '.' spec.extension.toList with
  | none => simp [← String.toList_inj]
  | some parts => simp [← String.toList_inj, Text.splitLast_eq_some hsplit]

theorem point_not_mem_ending (spec : ArtifactSpec) : '.' ∉ spec.ending.toList := by
  unfold ending
  cases hsplit : Text.splitLast '.' spec.extension.toList with
  | none => exact Text.splitLast_eq_none_iff.mp hsplit
  | some parts => simpa using Text.not_mem_of_splitLast hsplit

theorem stem_of_pointless (h : '.' ∉ spec.extension.toList) : spec.stem = spec.name ++ "-v1" := by
  rw [stem, Text.splitLast_eq_none_iff.mpr h]

theorem stems_nodup_iff (h : ∀ spec ∈ specs, '.' ∉ spec.extension.toList) :
    (specs.map stem).Nodup ↔ (specs.map name).Nodup := by
  have stems : specs.map stem = (specs.map name).map (· ++ "-v1") := by
    rw [List.map_map]
    exact List.map_congr_left fun spec hspec => stem_of_pointless (h spec hspec)
  rw [stems]
  exact List.nodup_map_iff fun a b hab => by simpa [← String.toList_inj] using hab

theorem Storable.sublist {specs' : List ArtifactSpec} (h : Storable capability specs)
    (hsub : specs'.Sublist specs) : Storable capability specs' where
  capability hne := h.capability fun hnil => hne (List.sublist_nil.mp (hnil ▸ hsub))
  names spec hspec := h.names spec (hsub.mem hspec)
  apart := h.apart.sublist (hsub.map stem)

theorem slash_not_mem_iff :
    '/' ∉ spec.stem.toList ∧ '/' ∉ spec.ending.toList ↔
      '/' ∉ spec.name.toList ∧ '/' ∉ spec.extension.toList := by
  have file := congrArg (fun s : String => '/' ∈ s.toList) (stem_ending spec)
  simp at file
  rw [← not_or, ← not_or, file]

theorem plain_storedKey_iff (h : '/' ∉ executionId.toList) :
    (spec.storedKey capability executionId).Plain ↔
      (capability ≠ "" ∧ '/' ∉ capability.toList) ∧
        '/' ∉ spec.name.toList ∧ '/' ∉ spec.extension.toList := by
  have hid : '/' ∉ (executionId ++ "-" ++ spec.stem).toList ↔ '/' ∉ spec.stem.toList := by
    simp [h]
  rw [← slash_not_mem_iff]
  constructor
  · intro plain
    exact ⟨⟨plain.capability_ne, plain.capability⟩, hid.mp plain.id, plain.extension⟩
  · rintro ⟨⟨hcapability, hslash⟩, hstem, hending⟩
    exact ⟨hcapability, hslash, by simp [storedKey], hid.mpr hstem, hending,
      spec.point_not_mem_ending⟩

theorem metadataKeys_nodup_iff :
    (specs.map fun spec => some (spec.storedKey capability executionId).metadataKey).Nodup ↔
      (specs.map stem).Nodup := by
  have keyed : (specs.map fun spec => some (spec.storedKey capability executionId).metadataKey) =
      (specs.map stem).map fun stem =>
        some (capability ++ "/metadata/" ++ (executionId ++ "-" ++ stem) ++ ".json") := by
    rw [List.map_map]
    rfl
  rw [keyed]
  exact List.nodup_map_iff fun s t hst => by simpa [← String.toList_inj] using hst

end ArtifactSpec

namespace Finalization

variable {p : Playbook} {e : Execution} {x : Step × ArtifactSpec} {d : ArtifactDraft}
  {xs : List (Step × ArtifactSpec)} {ds : List ArtifactDraft}

def declared (p : Playbook) : List ArtifactSpec := p.steps.filterMap (·.artifact)

def produced (p : Playbook) (e : Execution) : List ArtifactSpec := (artifactSteps p e).map (·.2)

theorem produced_sublist (p : Playbook) (e : Execution) :
    (produced p e).Sublist (declared p) := by
  unfold produced artifactSteps declared
  induction p.steps with
  | nil => exact .slnil
  | cons s rest ih =>
    rw [List.filterMap_cons, List.filterMap_cons]
    cases s.artifact with
    | none => exact ih
    | some spec =>
      rw [Option.bind_some]
      by_cases hok : e.succeeded s = true
      · rw [if_pos hok]
        exact ih.cons_cons spec
      · rw [if_neg hok]
        exact ih.cons spec

theorem Keeps.contentKey_eq (h : Keeps p e x d) :
    d.contentKey =
      (x.2.storedKey p.artifactCapability e.id).contentKey d.contentStatus := by
  have file := congrArg String.toList x.2.stem_ending
  have one : toString 1 = "1" := rfl
  simp [ArtifactDraft.contentKey, ArtifactDraft.key, artifactId, ArtifactSpec.storedKey,
    ArtifactKey.contentKey, h.capability, h.name, h.extension, h.execution, one,
    ← String.toList_inj] at file ⊢
  exact file

/-- The metadata of a draft lies where the stem says, if its key can be read at all. -/
theorem Keeps.metadataKey?_eq (h : Keeps p e x d)
    (plain : (x.2.storedKey p.artifactCapability e.id).Plain) :
    d.metadataKey? = some (x.2.storedKey p.artifactCapability e.id).metadataKey := by
  rw [ArtifactDraft.metadataKey?, h.contentKey_eq, plain.ofContentKey?]
  rfl

theorem Keeps.readable_iff (h : Keeps p e x d) :
    d.metadataKey? ≠ none ↔ (x.2.storedKey p.artifactCapability e.id).Plain := by
  constructor
  · intro hreadable
    rw [ArtifactDraft.metadataKey?, h.contentKey_eq, Ne, Option.map_eq_none_iff] at hreadable
    obtain ⟨hcapability, hslash, hid, hextension⟩ :=
      ArtifactKey.slashless_of_readable hreadable
    exact ⟨hcapability, hslash, by simp [ArtifactSpec.storedKey], hid, hextension,
      x.2.point_not_mem_ending⟩
  · intro plain
    rw [h.metadataKey?_eq plain]
    exact Option.some_ne_none _

theorem Keeps.free {m : MemoryStore} (h : Keeps p e x d) (hfree : m.FreeOf e.id) :
    d.Free m.Taken := by
  constructor
  · intro taken
    refine hfree _ taken
      ⟨(p.artifactCapability ++ "/generated/" ++ Named.text d.contentStatus).toList,
        (x.2.stem ++ "." ++ x.2.ending).toList, ?_⟩
    rw [h.contentKey_eq]
    simp [ArtifactKey.contentKey, ArtifactSpec.storedKey]
  · intro side hside taken
    have plain := h.readable_iff.mp (hside ▸ Option.some_ne_none side)
    rw [h.metadataKey?_eq plain, Option.some_inj] at hside
    refine hfree side taken
      ⟨(p.artifactCapability ++ "/metadata").toList, (x.2.stem ++ ".json").toList, ?_⟩
    rw [← hside]
    simp [ArtifactKey.metadataKey, ArtifactSpec.storedKey]

/-- The keys of the drafts are readable and apart just when the artifacts are storable. -/
theorem separate_iff (h : List.Forall₂ (Keeps p e) xs ds) (hid : '/' ∉ e.id.toList) :
    ArtifactDraft.Separate ds ↔
      ArtifactSpec.Storable p.artifactCapability (xs.map (·.2)) := by
  have plain : (∀ d ∈ ds, d.metadataKey? ≠ none) ↔
      ∀ x ∈ xs, (x.2.storedKey p.artifactCapability e.id).Plain := by
    clear hid
    induction h with
    | nil => simp
    | cons hkeep _ ih => rw [List.forall_mem_cons, List.forall_mem_cons, ih, hkeep.readable_iff]
  have sides (hplain : ∀ x ∈ xs, (x.2.storedKey p.artifactCapability e.id).Plain) :
      ds.map (·.metadataKey?) = (xs.map (·.2)).map fun spec =>
        some (spec.storedKey p.artifactCapability e.id).metadataKey := by
    clear hid plain
    induction h with
    | nil => rfl
    | cons hkeep _ ih =>
      obtain ⟨hplain, hrest⟩ := List.forall_mem_cons.mp hplain
      rw [List.map_cons, List.map_cons, List.map_cons, hkeep.metadataKey?_eq hplain, ih hrest]
  constructor
  · rintro ⟨hreadable, -, hsides⟩
    have hplain := plain.mp hreadable
    have parts (x) (hx : x ∈ xs) := (ArtifactSpec.plain_storedKey_iff hid).mp (hplain x hx)
    refine ⟨fun hne => ?_, ?_, ?_⟩
    · obtain ⟨x, hx⟩ := List.exists_mem_of_ne_nil xs (mt List.map_eq_nil_iff.mpr hne)
      exact (parts x hx).1
    · exact List.forall_mem_map.mpr fun x hx => (parts x hx).2
    · exact ArtifactSpec.metadataKeys_nodup_iff.mp (sides hplain ▸ hsides)
  · rintro ⟨hcapability, hnames, hstems⟩
    have hplain (x) (hx : x ∈ xs) :=
      (ArtifactSpec.plain_storedKey_iff hid).mpr
        ⟨hcapability (List.ne_nil_of_mem (List.mem_map_of_mem hx)),
          hnames x.2 (List.mem_map_of_mem hx)⟩
    have hsides : (ds.map (·.metadataKey?)).Nodup :=
      sides hplain ▸ ArtifactSpec.metadataKeys_nodup_iff.mpr hstems
    refine ⟨plain.mpr hplain, ?_, hsides⟩
    have keyed : ds.map (·.metadataKey?) =
        (ds.map ArtifactDraft.contentKey).map ArtifactKey.side? := by
      rw [List.map_map]
      rfl
    exact List.Nodup.of_map ArtifactKey.side? (keyed ▸ hsides)

end Finalization

open Finalization

/-- The drafts of an execution can be stored, one after the other, in a store that has nothing of
the execution, if and only if the capability and the names of its artifacts can stand in keys and no
two artifacts have the same stem; and this is when all the keys can be read back and are pairwise
different. A playbook of which this holds with all that it declares stores the drafts of any
execution; without points in the extensions, the stems differ just when the names do. -/
theorem artifacts_stored_iff_storable {p : Playbook} {e : Execution} {aggregated : Fields Json}
    {r : FinalResult} (h : finalize p e aggregated = .ok r) (hid : '/' ∉ e.id.toList)
    {m : MemoryStore} (hfree : m.FreeOf e.id) (now : Timestamp) :
    ((∃ as st, ArtifactStore.persistAll now r.artifacts (.memory m) = (.ok as, st)) ↔
        ArtifactSpec.Storable p.artifactCapability (produced p e)) ∧
      (ArtifactDraft.Separate r.artifacts ↔
        ArtifactSpec.Storable p.artifactCapability (produced p e)) ∧
      (ArtifactSpec.Storable p.artifactCapability (declared p) →
        ∃ as st, ArtifactStore.persistAll now r.artifacts (.memory m) = (.ok as, st)) ∧
      ((∀ spec ∈ declared p, '.' ∉ spec.extension.toList) →
        (((declared p).map ArtifactSpec.stem).Nodup ↔ ((declared p).map (·.name)).Nodup)) := by
  have drafts := (projects_of_finalize h).drafts
  have separate := separate_iff drafts hid
  have free (d) (hd : d ∈ r.artifacts) : d.Free m.Taken := by
    obtain ⟨x, -, hkeeps⟩ := exists_of_mem_forall₂ drafts hd
    exact hkeeps.free hfree
  have stored : (∃ as st, ArtifactStore.persistAll now r.artifacts (.memory m) = (.ok as, st)) ↔
      ArtifactSpec.Storable p.artifactCapability (produced p e) := by
    rw [MemoryStore.persistAll_ok_iff, ArtifactDraft.fitAll_iff]
    exact ⟨fun hfit => separate.mp hfit.1, fun hstorable => ⟨separate.mpr hstorable, free⟩⟩
  refine ⟨stored, separate, fun hdeclared => ?_, ArtifactSpec.stems_nodup_iff⟩
  exact stored.mpr (hdeclared.sublist (produced_sublist p e))

/-- A playbook of which each step writes one artifact. -/
def documentsPlaybook (specs : List ArtifactSpec) : Playbook where
  code := "documents"
  version := "1.0.0"
  name := "Documents"
  description := ""
  kind := .userWorkflow
  capabilityCode := none
  locale := "en"
  supportedLocales := ["en"]
  defaultLocale := "en"
  requiredTools := [⟨"writer", "write"⟩]
  optionalTools := []
  steps := specs.map fun spec =>
    ⟨spec.name ++ "." ++ spec.extension, "", ⟨"writer", "write"⟩, none, false, [], some spec⟩
  inputSchema := []
  outputSchema := []
  primaryScore := "score"
  tags := []
  sections := []

/-- All documents have been written. -/
def writtenDocuments (specs : List ArtifactSpec) : Execution :=
  (documentsPlaybook specs).steps.foldl
    (fun e s => e.record (.success s.id (.obj [("body", .str "text")]) 1 ⟨0, 0⟩ ⟨0, 0⟩))
    (.init "00000000-0000-4000-8000-000000000001" "trace-1" "documents" [] ⟨0, 0⟩)

/-- The key of a document of another execution. -/
def otherDocument : String :=
  "documents/generated/draft/00000000-0000-4000-8000-000000000002-report-v1.md"

def documentStore : MemoryStore := ⟨[(otherDocument, "text".toUTF8)]⟩

theorem documentStore_freeOf :
    documentStore.FreeOf "00000000-0000-4000-8000-000000000001" := by
  intro key taken
  by_cases hkey : otherDocument = key
  · rw [← hkey]
    decide +kernel
  · exact absurd (if_neg hkey) taken

def reportAndTable : List ArtifactSpec := [⟨"report", "body", "md"⟩, ⟨"table", "body", "tar.gz"⟩]

/-- A report and a table are stored beside the report of another execution. -/
theorem report_and_table_stored :
    ∃ r, finalize (documentsPlaybook reportAndTable) (writtenDocuments reportAndTable) [] = .ok r ∧
      r.artifacts.length = 2 ∧
      ∃ as st, ArtifactStore.persistAll ⟨0, 0⟩ r.artifacts (.memory documentStore) =
        (.ok as, st) := by
  have final : ∃ r, finalize (documentsPlaybook reportAndTable) (writtenDocuments reportAndTable)
      [] = .ok r ∧ r.artifacts.length = 2 := ⟨_, rfl, rfl⟩
  obtain ⟨r, hfinal, two⟩ := final
  obtain ⟨-, -, stored, -⟩ :=
    artifacts_stored_iff_storable hfinal (by decide) documentStore_freeOf ⟨0, 0⟩
  exact ⟨r, hfinal, two, stored ⟨by decide, by decide, by decide⟩⟩

def reportInTwoFormats : List ArtifactSpec :=
  [⟨"report", "body", "md"⟩, ⟨"report", "body", "html"⟩]

/-- A playbook of one report in two formats is valid, but the second format is refused. -/
theorem second_format_refused :
    (documentsPlaybook reportInTwoFormats).validate = .ok () ∧
    ∃ r, finalize (documentsPlaybook reportInTwoFormats) (writtenDocuments reportInTwoFormats) [] =
        .ok r ∧
      (ArtifactStore.persistAll ⟨0, 0⟩ r.artifacts (.memory .empty)).1 = .error (.alreadyExists
        "documents/metadata/00000000-0000-4000-8000-000000000001-report-v1.json") := by
  refine ⟨?_, _, rfl, ?_⟩
  · decide +kernel
  · decide +kernel

end PlaybookEngine
