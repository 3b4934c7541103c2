import PlaybookEngine.Json.Codec
import PlaybookEngine.Proofs.Fields.Pairs
import Mathlib.Data.List.Nodup

namespace PlaybookEngine

namespace Json

/-- The value, none when it is null. -/
def present? : Json → Option Json
  | .null => none
  | v => some v

theorem present?_of_ne_null {v : Json} (h : v ≠ .null) : v.present? = some v := by
  cases v with
  | null => exact absurd rfl h
  | _ => rfl

theorem bind_present?_eq_self_iff {o : Option Json} :
    o.bind present? = o ↔ o ≠ some .null := by
  cases o with
  | none => exact iff_of_true rfl nofun
  | some v => cases v <;> simp [present?]

/-- A list as a field that is left out when it is empty. -/
def listed? : List Json → Option Json
  | [] => none
  | v :: vs => some (.arr (v :: vs))

/-- The pairs that are written of a record's fields. -/
def written (fields : List (String × Option Json)) : List (String × Json) :=
  fields.filterMap fun f => f.2.map fun v => (f.1, v)

theorem entry_eq (k : String) (v : Json) : entry k v = written [(k, some v)] := rfl

theorem entry?_eq (k : String) (o : Option Json) : entry? k o = written [(k, o)] := by
  cases o <;> rfl

theorem entryList_eq (k : String) (vs : List Json) :
    entryList k vs = written [(k, listed? vs)] := by
  cases vs <;> rfl

theorem written_append (fields more : List (String × Option Json)) :
    written (fields ++ more) = written fields ++ written more :=
  List.filterMap_append

variable {fields : List (String × Option Json)} {k : String} {o : Option Json}

theorem mem_written_iff {p : String × Json} : p ∈ written fields ↔ (p.1, some p.2) ∈ fields := by
  obtain ⟨j, v⟩ := p
  simp only [written, List.mem_filterMap, Option.map_eq_some_iff, Prod.mk.injEq]
  constructor
  · rintro ⟨⟨i, o⟩, hf, w, rfl, rfl, rfl⟩
    exact hf
  · intro hf
    exact ⟨_, hf, v, rfl, rfl, rfl⟩

theorem keys_written (fields : List (String × Option Json)) :
    ((written fields).map Prod.fst).Sublist (fields.map Prod.fst) := by
  induction fields with
  | nil => exact .slnil
  | cons f fields ih =>
    obtain ⟨j, o⟩ := f
    cases o with
    | none => exact ih.cons j
    | some v => exact ih.cons_cons j

/-- Of a record with distinct keys each field is found as it was written. -/
theorem get?_written (hkeys : (fields.map Prod.fst).Nodup) (h : Fields.get? k fields = some o) :
    Fields.get? k (Fields.ofList (written fields)) = o := by
  have hfield : (k, o) ∈ fields := Fields.mem_of_get? h
  cases o with
  | some v =>
    exact Fields.get?_ofList_of_mem (hkeys.sublist (keys_written fields))
      (mem_written_iff.mpr hfield)
  | none =>
    refine Fields.get?_ofList_of_not_mem fun hmem => ?_
    obtain ⟨⟨j, v⟩, hp, rfl⟩ := List.mem_map.mp hmem
    have hsame := List.inj_on_of_nodup_map hkeys hfield (mem_written_iff.mp hp) rfl
    cases hsame

end Json

namespace Decoder

open Json (written get?_written)

variable {α β γ : Type} {d : Decoder α} {encode : α → Json}

theorem bind_of_eq {x : Option α} {a : α} {f : α → Option β} {y : Option β} (hx : x = some a)
    (hf : f a = y) : (x >>= f) = y := by
  rw [hx, Option.bind_eq_bind, Option.bind_some, hf]

section Written

variable {fields : List (String × Option Json)} {k : String}
  (hkeys : (fields.map Prod.fst).Nodup)

include hkeys

theorem required_eq {v : Json} (h : Fields.get? k fields = some (some v)) :
    required k d (Fields.ofList (written fields)) = d v := by
  rw [required, get?_written hkeys h, Option.bind_some]

theorem required_written {v : Json} {a : α} (h : Fields.get? k fields = some (some v))
    (hd : d v = some a) : required k d (Fields.ofList (written fields)) = some a := by
  rw [required_eq hkeys h, hd]

theorem optional_of_ne_null {v : Json} (h : Fields.get? k fields = some (some v))
    (hv : v ≠ .null) : optional k d (Fields.ofList (written fields)) = (d v).map some := by
  rw [optional, get?_written hkeys h]
  cases v with
  | null => exact absurd rfl hv
  | _ => rfl

/-- An optional field whose value is not written as null is read as it was. -/
theorem optional_written {o : Option α} (h : Fields.get? k fields = some (o.map encode))
    (hd : ∀ a, o = some a → encode a ≠ .null ∧ d (encode a) = some a) :
    optional k d (Fields.ofList (written fields)) = some o := by
  cases o with
  | none => rw [optional, get?_written hkeys h, Option.map_none]
  | some a =>
    obtain ⟨hnull, hread⟩ := hd a rfl
    rw [optional_of_ne_null hkeys h hnull, hread, Option.map_some]

/-- An optional field that is written as null when there is none is read as it was. -/
theorem nullable_written {o : Option α}
    (h : Fields.get? k fields = some (some (.ofOption (o.map encode))))
    (hd : ∀ a, o = some a → encode a ≠ .null ∧ d (encode a) = some a) :
    optional k d (Fields.ofList (written fields)) = some o := by
  cases o with
  | none =>
    rw [optional, get?_written hkeys h]
    rfl
  | some a =>
    obtain ⟨hnull, hread⟩ := hd a rfl
    rw [optional_of_ne_null hkeys h hnull]
    exact congrArg (Option.map some) hread

/-- Of any values, an optional field loses null. -/
theorem value_written {o : Option Json} (h : Fields.get? k fields = some o) :
    optional k value (Fields.ofList (written fields)) = some (o.bind Json.present?) := by
  cases o with
  | none => rw [optional, get?_written hkeys h, Option.bind_none]
  | some v =>
    cases v with
    | null =>
      rw [optional, get?_written hkeys h]
      rfl
    | _ =>
      rw [optional_of_ne_null hkeys h nofun]
      rfl

/-- A field that is always written is read as it was, whatever stands for an absent one. -/
theorem defaulted_written {v : Json} {a absent : α} (h : Fields.get? k fields = some (some v))
    (hd : d v = some a) : defaulted k absent d (Fields.ofList (written fields)) = some a := by
  rw [defaulted, get?_written hkeys h]
  exact hd

end Written

theorem closedRecord_written {fields : List (String × Option Json)} {needed : Nat}
    {keys : List String} (hknown : fields.map Prod.fst ⊆ keys) :
    closedRecord needed keys (.ofObject (written fields)) =
      some (Fields.ofList (written fields)) := by
  have hall : (Fields.ofList (written fields)).all (fun p => keys.contains p.1) = true := by
    refine List.all_eq_true.mpr fun p hp => List.contains_iff_mem.mpr (hknown ?_)
    exact List.mem_map_of_mem (Json.mem_written_iff.mp (Fields.mem_of_mem_ofList hp))
  exact bind_of_eq rfl (if_pos hall)

theorem mapM_map {as : List α} {write : α → β} {read : β → Option γ} {f : α → γ}
    (h : ∀ a ∈ as, read (write a) = some (f a)) :
    (as.map write).mapM read = some (as.map f) := by
  induction as with
  | nil => rfl
  | cons a as ih =>
    have hrest := ih fun b hb => h b (List.mem_cons_of_mem _ hb)
    rw [List.map_cons, List.mapM_cons, h a List.mem_cons_self, hrest]
    rfl

/-- A list is read element by element. -/
theorem list_map {as : List α} {f : α → α} (hd : ∀ a ∈ as, d (encode a) = some (f a)) :
    list d (.arr (as.map encode)) = some (as.map f) := mapM_map hd

theorem fields_mapValues {fs : Fields α} {f : α → α}
    (hd : ∀ p ∈ fs, d (encode p.2) = some (f p.2)) :
    Decoder.fields d (.obj (Fields.mapValues encode fs)) = some (Fields.mapValues f fs) := by
  refine mapM_map fun p hp => ?_
  rw [hd p hp]
  rfl

theorem fields_mapValues_self {fs : Fields α} (hd : ∀ p ∈ fs, d (encode p.2) = some p.2) :
    Decoder.fields d (.obj (Fields.mapValues encode fs)) = some fs := by
  have hread := fields_mapValues (f := id) hd
  have hsame : Fields.mapValues id fs = fs := List.map_id fs
  rwa [hsame] at hread

theorem list_map_self {as : List α} (hd : ∀ a ∈ as, d (encode a) = some a) :
    list d (.arr (as.map encode)) = some as := by
  rw [list_map (f := id) hd, List.map_id]

/-- A list that was left out when it was empty is read as it was. -/
theorem listed_written {fields : List (String × Option Json)} {k : String} {as : List α}
    (hkeys : (fields.map Prod.fst).Nodup)
    (h : Fields.get? k fields = some (Json.listed? (as.map encode)))
    (hd : ∀ a ∈ as, d (encode a) = some a) :
    defaulted k [] (list d) (Fields.ofList (written fields)) = some as := by
  cases as with
  | nil =>
    rw [defaulted, get?_written hkeys h]
    rfl
  | cons a as =>
    rw [defaulted, get?_written hkeys h]
    exact list_map_self hd

/-- Of a record with a tag and one value, what is read is made of what the value is read as. -/
theorem tagged_written_iff {tag name k : String} {v : Json} {a : α} {make : α → β}
    {next : Fields Json → String → Option β} (hkeys : tag ≠ k) (hmake : Function.Injective make)
    (hnext : ∀ fs, next fs name = (required k d fs).map make) :
    (object (.ofObject [(tag, .str name), (k, v)]) >>= fun fs =>
      required tag string fs >>= next fs) = some (make a) ↔ d v = some a := by
  let fields : List (String × Option Json) := [(tag, some (.str name)), (k, some v)]
  have hnodup : (fields.map Prod.fst).Nodup := by simpa [fields] using hkeys
  have htag : required tag string (Fields.ofList (written fields)) = some name :=
    required_written (v := .str name) hnodup (by simp [fields, Fields.get?_cons]) rfl
  have hvalue : required k d (Fields.ofList (written fields)) = d v :=
    required_eq hnodup (by simp [fields, Fields.get?_cons, hkeys])
  have hread : (object (.ofObject [(tag, .str name), (k, v)]) >>= fun fs =>
      required tag string fs >>= next fs) = (d v).map make :=
    bind_of_eq rfl <| bind_of_eq htag <| (hnext _).trans (congrArg (Option.map make) hvalue)
  rw [hread, ← Option.map_some, (Option.map_injective hmake).eq_iff]

end Decoder

end PlaybookEngine
