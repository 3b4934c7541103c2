import PlaybookEngine.Artifact.Store
import PlaybookEngine.Proofs.Fields.Pairs
import PlaybookEngine.Proofs.Json.RoundTrip
import PlaybookEngine.Proofs.Time.Reading

namespace PlaybookEngine

namespace Json

/-- The value is no list, no object and no float, and an integer fits 64 bits. -/
def Plain (v : Json) : Prop := v.Exact ∧ v.Ordered ∧ v.levels = 0

theorem plain_str (s : String) : (Json.str s).Plain := by
  refine ⟨?_, ordered_str s, rfl⟩
  rw [Exact]
  · trivial
  all_goals
    intro _ h
    cases h

theorem plain_nat {n : Nat} (h : n < 0x1_0000_0000_0000_0000) : (Json.nat n).Plain := by
  refine ⟨?_, ?_, rfl⟩
  · rw [nat, Exact]
    omega
  · rw [nat, Ordered]
    · trivial
    all_goals exact nofun

variable {fs : List (String × Json)}

theorem exactFields_of_plain (h : ∀ p ∈ fs, p.2.Plain) : ExactFields fs := by
  induction fs with
  | nil => trivial
  | cons p fs ih =>
    rw [ExactFields]
    exact ⟨(h p List.mem_cons_self).1, ih fun q hq => h q (List.mem_cons_of_mem _ hq)⟩

theorem orderedFields_of_plain (h : ∀ p ∈ fs, p.2.Plain) : OrderedFields fs := by
  induction fs with
  | nil => trivial
  | cons p fs ih =>
    rw [OrderedFields]
    exact ⟨(h p List.mem_cons_self).2.1, ih fun q hq => h q (List.mem_cons_of_mem _ hq)⟩

theorem levelsFields_of_plain (h : ∀ p ∈ fs, p.2.Plain) : levelsFields fs = 0 := by
  induction fs with
  | nil => rfl
  | cons p fs ih =>
    rw [levelsFields, (h p List.mem_cons_self).2.2, ih fun q hq => h q (List.mem_cons_of_mem _ hq)]
    rfl

/-- A record of plain values is read back, written without blanks or with them. -/
theorem read_ofObject {pairs : List (String × Json)} (h : ∀ p ∈ pairs, p.2.Plain) :
    read (ofObject pairs).compact = some (ofObject pairs) ∧
      read (ofObject pairs).pretty = some (ofObject pairs) := by
  have hplain : ∀ p ∈ Fields.ofList pairs, p.2.Plain :=
    fun p hp => h p (Fields.mem_of_mem_ofList hp)
  have hexact : (ofObject pairs).Exact := by
    rw [ofObject, Exact]
    exact exactFields_of_plain hplain
  have hordered : (ofObject pairs).Ordered := by
    rw [ofObject, Ordered]
    exact ⟨Fields.ordered_ofList pairs, orderedFields_of_plain hplain⟩
  have hlevels : (ofObject pairs).levels ≤ 127 := by
    rw [ofObject, levels, levelsFields_of_plain hplain]
    decide
  exact ⟨read_compact hexact hordered hlevels, read_pretty hexact hordered hlevels⟩

end Json

namespace Artifact

/-- The numbers of the artifact fit their words, and a clock can show its time. -/
structure Sound (a : Artifact) : Prop where
  version : a.version < 0x1_0000_0000
  size : a.sizeBytes < 0x1_0000_0000_0000_0000
  shown : a.createdAt.Shown

theorem decode_createdAt {a : Artifact} (h : a.Sound) :
    Timestamp.decode a.createdAt.encode = some a.createdAt := by
  have text : Decoder.string a.createdAt.encode = some a.createdAt.text := rfl
  rw [Timestamp.decode, Decoder.stringWith, text, Option.bind_some, Timestamp.read_text h.shown]

theorem decode_status (s : ContentStatus) :
    (Decoder.named : Decoder ContentStatus) (Json.named s) = some s := by
  cases s <;> decide

/-- The fields of the metadata. -/
def entries (a : Artifact) : List (String × Json) :=
  Json.entry "id" (.str a.id) ++ Json.entry "storage_key" (.str a.storageKey)
    ++ Json.entry "capability" (.str a.capability) ++ Json.entry "name" (.str a.name)
    ++ Json.entry "version" (.nat a.version) ++ Json.entry "extension" (.str a.extension)
    ++ Json.entry "content_status" (.named a.contentStatus)
    ++ Json.entry? "derived_from" (a.derivedFrom.map .str)
    ++ Json.entry "execution_id" (.str a.executionId)
    ++ Json.entry? "step_id" (a.stepId.map .str)
    ++ Json.entry "created_at" a.createdAt.encode
    ++ Json.entry "sha256" (.str a.sha256)
    ++ Json.entry "size_bytes" (.nat a.sizeBytes)

theorem encode_eq (a : Artifact) : a.encode = .ofObject a.entries := rfl

theorem nodup_entries (a : Artifact) : (a.entries.map Prod.fst).Nodup := by
  cases hderived : a.derivedFrom <;> cases hstep : a.stepId <;>
    simp [entries, hderived, hstep, Json.entry, Json.entry?]

/-- The numbers of the artifact fit their words. -/
structure Sized (a : Artifact) : Prop where
  version : a.version < 0x1_0000_0000
  size : a.sizeBytes < 0x1_0000_0000_0000_0000

theorem Sound.sized {a : Artifact} (h : a.Sound) : a.Sized := ⟨h.version, h.size⟩

theorem plain_entries {a : Artifact} (h : a.Sized) : ∀ p ∈ a.entries, p.2.Plain := by
  have optional (k : String) (o : Option String) :
      ∀ p ∈ Json.entry? k (o.map .str), p.2.Plain := by
    cases o with
    | none => nofun
    | some s =>
      intro p hp
      rw [List.mem_singleton.mp hp]
      exact Json.plain_str s
  intro p hp
  simp only [entries, Json.entry, List.mem_append, List.mem_singleton] at hp
  have hversion : a.version < 0x1_0000_0000_0000_0000 := h.version.trans (by decide)
  rcases hp with (((((((((((rfl | rfl) | rfl) | rfl) | rfl) | rfl) | rfl) | hp) | rfl) | hp) |
    rfl) | rfl) | rfl
  · exact Json.plain_str _
  · exact Json.plain_str _
  · exact Json.plain_str _
  · exact Json.plain_str _
  · exact Json.plain_nat hversion
  · exact Json.plain_str _
  · exact Json.plain_str _
  · exact optional _ _ p hp
  · exact Json.plain_str _
  · exact optional _ _ p hp
  · exact Json.plain_str _
  · exact Json.plain_str _
  · exact Json.plain_nat h.size

/-- A field that is left out when there is no value is read back as it was. -/
theorem optional_entry? {pairs : List (String × Json)} (hkeys : (pairs.map Prod.fst).Nodup)
    (k : String) (o : Option String) (hsome : ∀ s, o = some s → (k, .str s) ∈ pairs)
    (hnone : o = none → k ∉ pairs.map Prod.fst) :
    Decoder.optional k Decoder.string (Fields.ofList pairs) = some o := by
  cases o with
  | none => rw [Decoder.optional, Fields.get?_ofList_of_not_mem (hnone rfl)]
  | some s =>
    rw [Decoder.optional, Fields.get?_ofList_of_mem hkeys (hsome s rfl)]
    rfl

theorem nat_of_lt {limit n : Nat} (h : n < limit) : Decoder.natBelow limit (.nat n) = some n := by
  rw [Json.nat, Decoder.natBelow, if_pos ⟨Int.natCast_nonneg n, Int.ofNat_lt.mpr h⟩]
  rfl

theorem nat32_of_lt {n : Nat} (h : n < 0x1_0000_0000) : Decoder.nat32 (.nat n) = some n := by
  rw [Decoder.nat32, nat_of_lt h]

theorem nat64_of_lt {n : Nat} (h : n < 0x1_0000_0000_0000_0000) :
    Decoder.nat64 (.nat n) = some n := by
  rw [Decoder.nat64, nat_of_lt h]

theorem derivedFrom_entries (a : Artifact) :
    Decoder.optional "derived_from" Decoder.string (Fields.ofList a.entries) =
      some a.derivedFrom := by
  have found := optional_entry? (nodup_entries a) "derived_from" a.derivedFrom
  refine found (fun s hs => ?_) fun hnone => ?_
  · simp [entries, hs, Json.entry, Json.entry?]
  · cases hstep : a.stepId <;> simp [entries, hnone, hstep, Json.entry, Json.entry?]

theorem stepId_entries (a : Artifact) :
    Decoder.optional "step_id" Decoder.string (Fields.ofList a.entries) = some a.stepId := by
  have found := optional_entry? (nodup_entries a) "step_id" a.stepId
  refine found (fun s hs => ?_) fun hnone => ?_
  · simp [entries, hs, Json.entry, Json.entry?]
  · cases hderived : a.derivedFrom <;> simp [entries, hnone, hderived, Json.entry, Json.entry?]

theorem decode_encode {a : Artifact} (h : a.Sound) : decode a.encode = some a := by
  have hkeys := nodup_entries a
  have required {α : Type} {d : Decoder α} {x : α} (k : String) (v : Json)
      (hmem : (k, v) ∈ a.entries) (hd : d v = some x) :
      Decoder.required k d (Fields.ofList a.entries) = some x := by
    rw [Decoder.required, Fields.get?_ofList_of_mem hkeys hmem, Option.bind_some, hd]
  have text (k s : String) (hmem : (k, .str s) ∈ a.entries) :
      Decoder.required k Decoder.string (Fields.ofList a.entries) = some s :=
    required k (.str s) hmem rfl
  have hversion : Decoder.required "version" Decoder.nat32 (Fields.ofList a.entries) =
      some a.version :=
    required "version" (.nat a.version) (by simp [entries, Json.entry]) (nat32_of_lt h.version)
  have hstatus : Decoder.required "content_status" Decoder.named (Fields.ofList a.entries) =
      some a.contentStatus :=
    required "content_status" (.named a.contentStatus) (by simp [entries, Json.entry])
      (decode_status a.contentStatus)
  have hcreated : Decoder.required "created_at" Timestamp.decode (Fields.ofList a.entries) =
      some a.createdAt :=
    required "created_at" a.createdAt.encode (by simp [entries, Json.entry]) (decode_createdAt h)
  have hsize : Decoder.required "size_bytes" Decoder.nat64 (Fields.ofList a.entries) =
      some a.sizeBytes :=
    required "size_bytes" (.nat a.sizeBytes) (by simp [entries, Json.entry]) (nat64_of_lt h.size)
  have step {α β : Type} (x : α) (f : α → Option β) : (some x >>= f) = f x := rfl
  rw [encode_eq, Json.ofObject, decode, Decoder.record_obj, step,
    text "id" a.id (by simp [entries, Json.entry]), step,
    text "storage_key" a.storageKey (by simp [entries, Json.entry]), step,
    text "capability" a.capability (by simp [entries, Json.entry]), step,
    text "name" a.name (by simp [entries, Json.entry]), step, hversion, step,
    text "extension" a.extension (by simp [entries, Json.entry]), step, hstatus, step,
    derivedFrom_entries, step, text "execution_id" a.executionId (by simp [entries, Json.entry]),
    step, stepId_entries, step, hcreated, step,
    text "sha256" a.sha256 (by simp [entries, Json.entry]), step, hsize, step]

/-- Written without blanks or with them, the metadata of an artifact is read back as one value. -/
theorem read_encode {a : Artifact} (h : a.Sized) :
    (String.fromUTF8? a.encode.compact.toUTF8).bind Json.read = some a.encode ∧
      (String.fromUTF8? a.encode.pretty.toUTF8).bind Json.read = some a.encode := by
  obtain ⟨hcompact, hpretty⟩ := Json.read_ofObject (plain_entries h)
  rw [← encode_eq] at hcompact hpretty
  have utf8 (s : String) : String.fromUTF8? s.toUTF8 = some s := by
    rw [String.fromUTF8?, String.toUTF8_eq_toByteArray, dif_pos s.isValidUTF8]
    rfl
  constructor
  · rw [utf8, Option.bind_some, hcompact]
  · rw [utf8, Option.bind_some, hpretty]

theorem ofBytes_encode {a : Artifact} (h : a.Sound) :
    ofBytes a.encode.compact.toUTF8 = .ok a ∧ ofBytes a.encode.pretty.toUTF8 = .ok a := by
  obtain ⟨hcompact, hpretty⟩ := read_encode h.sized
  constructor
  · rw [ofBytes, hcompact, Option.bind_some, decode_encode h]
  · rw [ofBytes, hpretty, Option.bind_some, decode_encode h]

theorem ofBytes_pretty {a : Artifact} (h : a.Sized) :
    ofBytes a.encode.pretty.toUTF8 = ofBytes a.encode.compact.toUTF8 := by
  obtain ⟨hcompact, hpretty⟩ := read_encode h
  rw [ofBytes, ofBytes, hcompact, hpretty]

end Artifact

end PlaybookEngine
