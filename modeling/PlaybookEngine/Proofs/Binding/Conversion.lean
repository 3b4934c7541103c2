import PlaybookEngine.Binding.Basic
import PlaybookEngine.Proofs.Number.Whole

namespace PlaybookEngine.Param

variable {p : Param} {v w : Json}

/-- The value counts as one of the declared type. -/
def Coercible (p : Param) (v : Json) : Prop :=
  match p.type, v with
  | .string, .str _ => True
  | .string, .int _ => True
  | .string, .float _ => True
  | .string, .bool _ => True
  | .integer, .int _ => True
  | .integer, .float x => ∃ i, x.HasValue i
  | .integer, .str s => ∃ i, IsNumeral (Text.trim s.toList) i ∧ inInt64 i = true
  | .number, .int _ => True
  | .number, .float _ => True
  | .number, .str s => ∃ x, Binary64.read (Text.trim s.toList) = some (.finite x)
  | .boolean, .bool _ => True
  | .boolean, .str s => Text.lowerAscii s = "true" ∨ Text.lowerAscii s = "false"
  | .array, .obj _ => False
  | .array, _ => True
  | .object, .obj _ => True
  | .contentSource, .str s => ∃ source, ContentSource.ofText? s = some source
  | .enumeration, .str s => s ∈ p.values
  | _, _ => False

/-- The value is one of the declared type. -/
def Conforms (p : Param) (w : Json) : Prop :=
  match p.type, w with
  | .string, .str _ => True
  | .integer, .int _ => True
  | .number, .int _ => True
  | .number, .float _ => True
  | .boolean, .bool _ => True
  | .array, .arr _ => True
  | .object, .obj _ => True
  | .contentSource, .str s => ∃ source, ContentSource.ofText? s = some source
  | .enumeration, .str s => s ∈ p.values
  | _, _ => False

theorem isSome_toInteger?_float {x : Binary64.Finite} :
    (toInteger? (.float x)).isSome = true ↔ ∃ i, x.HasValue i := by
  rw [toInteger?]
  constructor
  · intro h
    split at h
    · rename_i hintegral
      exact ⟨x.truncate, Binary64.Finite.hasValue_iff.mpr ⟨hintegral, rfl⟩⟩
    · cases h
  · rintro ⟨i, h⟩
    rw [if_pos (Binary64.Finite.hasValue_iff.mp h).1]
    rfl

theorem isSome_toInteger?_str {s : String} :
    (toInteger? (.str s)).isSome = true ↔
      ∃ i, IsNumeral (Text.trim s.toList) i ∧ inInt64 i = true := by
  rw [toInteger?]
  cases h : readInt (Text.trim s.toList) with
  | none =>
    refine iff_of_false Bool.false_ne_true ?_
    rintro ⟨i, hi, -⟩
    cases h.symm.trans (readInt_eq_some.mpr hi)
  | some i =>
    have hread : ∀ j, IsNumeral (Text.trim s.toList) j ↔ i = j := fun j => by
      rw [← readInt_eq_some, h, Option.some.injEq]
    by_cases hi : inInt64 i = true <;> simp [hi, hread]

theorem isSome_toNumber?_str {s : String} :
    (toNumber? (.str s)).isSome = true ↔
      ∃ x, Binary64.read (Text.trim s.toList) = some (.finite x) := by
  rw [toNumber?]
  split <;> simp_all

/-- A type takes the values that are coercible to it, and no others. -/
theorem isSome_coerce? : (p.coerce? v).isSome = true ↔ p.Coercible v := by
  cases htype : p.type with
  | integer =>
    cases v with
    | float x => simpa [coerce?, Coercible, htype] using isSome_toInteger?_float
    | str s => simpa [coerce?, Coercible, htype] using isSome_toInteger?_str
    | _ => simp [coerce?, Coercible, htype, toInteger?]
  | number =>
    cases v with
    | str s => simpa [coerce?, Coercible, htype] using isSome_toNumber?_str
    | _ => simp [coerce?, Coercible, htype, toNumber?]
  | boolean =>
    cases v with
    | str s => by_cases Text.lowerAscii s = "true" <;> simp_all [coerce?, Coercible, toBoolean?]
    | _ => simp [coerce?, Coercible, htype, toBoolean?]
  | contentSource =>
    cases v <;> simp [coerce?, Coercible, htype, Json.str?, Option.isSome_iff_exists]
  | string => cases v <;> simp [coerce?, Coercible, htype, toText?]
  | array => cases v <;> simp [coerce?, Coercible, htype, toArray?]
  | object => cases v <;> simp [coerce?, Coercible, htype, Json.obj?]
  | enumeration => cases v <;> simp [coerce?, Coercible, htype, Json.str?]

instance (p : Param) : DecidablePred p.Coercible := fun _ => decidable_of_iff _ isSome_coerce?

theorem str_of_toText? (h : toText? v = some w) : ∃ s, w = .str s := by
  cases v <;> cases h <;> exact ⟨_, rfl⟩

theorem int_of_toInteger? (h : toInteger? v = some w) : ∃ i, w = .int i := by
  unfold toInteger? at h
  split at h
  · cases h
    exact ⟨_, rfl⟩
  · dsimp only at h
    split at h <;> cases h
    exact ⟨_, rfl⟩
  · split at h
    · split at h <;> cases h
      exact ⟨_, rfl⟩
    · cases h
  · cases h

theorem number_of_toNumber? (h : toNumber? v = some w) :
    (∃ i, w = .int i) ∨ ∃ x, w = .float x := by
  unfold toNumber? at h
  split at h
  · exact .inl ⟨_, (Option.some.inj h).symm⟩
  · exact .inr ⟨_, (Option.some.inj h).symm⟩
  · split at h
    · exact .inr ⟨_, (Option.some.inj h).symm⟩
    · cases h
  · cases h

theorem bool_of_toBoolean? (h : toBoolean? v = some w) : ∃ b, w = .bool b := by
  unfold toBoolean? at h
  split at h
  · exact ⟨_, (Option.some.inj h).symm⟩
  · split at h
    · exact ⟨_, (Option.some.inj h).symm⟩
    · split at h
      · exact ⟨_, (Option.some.inj h).symm⟩
      · cases h
  · cases h

theorem arr_of_toArray? (h : toArray? v = some w) : ∃ items, w = .arr items := by
  cases v <;> cases h <;> exact ⟨_, rfl⟩

/-- What a type takes it turns into a value of the type. -/
theorem conforms_of_coerce? (h : p.coerce? v = some w) : p.Conforms w := by
  unfold coerce? at h
  unfold Conforms
  cases htype : p.type with
  | string =>
    rw [htype] at h
    obtain ⟨s, rfl⟩ := str_of_toText? h
    trivial
  | integer =>
    rw [htype] at h
    obtain ⟨i, rfl⟩ := int_of_toInteger? h
    trivial
  | number =>
    rw [htype] at h
    obtain ⟨i, rfl⟩ | ⟨x, rfl⟩ := number_of_toNumber? h <;> trivial
  | boolean =>
    rw [htype] at h
    obtain ⟨b, rfl⟩ := bool_of_toBoolean? h
    trivial
  | array =>
    rw [htype] at h
    obtain ⟨items, rfl⟩ := arr_of_toArray? h
    trivial
  | object =>
    rw [htype] at h
    obtain ⟨fields, -, rfl⟩ := Option.map_eq_some_iff.mp h
    trivial
  | contentSource =>
    rw [htype] at h
    obtain ⟨s, -, hs⟩ := Option.bind_eq_some_iff.mp h
    obtain ⟨source, hsource, rfl⟩ := Option.map_eq_some_iff.mp hs
    exact ⟨source, hsource⟩
  | enumeration =>
    rw [htype] at h
    obtain ⟨s, -, hs⟩ := Option.bind_eq_some_iff.mp h
    split at hs
    · rename_i hlisted
      obtain rfl := Option.some.inj hs
      exact List.contains_iff_mem.mp hlisted
    · cases hs

/-- No type has null as a value. -/
theorem Conforms.isNull (h : p.Conforms w) : w.isNull = false := by
  cases w with
  | null => cases htype : p.type <;> simp [Conforms, htype] at h
  | _ => rfl

/-- A value of the type stays as it is. -/
theorem coerce?_of_conforms (h : p.Conforms w) : p.coerce? w = some w := by
  cases htype : p.type <;> cases w <;>
    simp_all [Conforms, coerce?, toText?, toInteger?, toNumber?, toBoolean?, toArray?, Json.obj?,
      Json.str?]

end PlaybookEngine.Param
