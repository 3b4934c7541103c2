import PlaybookEngine.Proofs.Binding.Conversion
import PlaybookEngine.Proofs.Fields.Folded

namespace PlaybookEngine.Binding

variable {schema : Fields Param} {raw bound : Fields Json} {name : String} {p : Param}

/-- The value that counts for a declared input: what is supplied, else the default of an input
that may be absent. -/
def used? (raw : Fields Json) (name : String) (p : Param) : Option Json :=
  (supplied? name raw).or (if p.required then none else p.default)

/-- A declared input is in order: it is there if it has to be, and the value that counts can be
taken for one of its type. -/
structure Suits (raw : Fields Json) (name : String) (p : Param) : Prop where
  present : p.required = true → (supplied? name raw).isSome = true
  coercible : ∀ v ∈ used? raw name p, p.Coercible v

instance (raw : Fields Json) (name : String) (p : Param) : Decidable (Suits raw name p) :=
  decidable_of_iff ((p.required = true → (supplied? name raw).isSome = true) ∧
      ∀ v ∈ used? raw name p, p.Coercible v)
    ⟨fun ⟨hpresent, hcoercible⟩ => ⟨hpresent, hcoercible⟩, fun h => ⟨h.present, h.coercible⟩⟩

/-- The first declared input that is not in order. -/
def firstOffending? (schema : Fields Param) (raw : Fields Json) : Option (String × Param) :=
  schema.find? fun q => ¬Suits raw q.1 q.2

/-- What is said of an input that is not in order. -/
def offence (raw : Fields Json) (name : String) (p : Param) : BindingError :=
  match used? raw name p with
  | some v => .invalidValue name (p.mismatch v)
  | none => .missingField name

/-- The value that a declared input is bound to. -/
def boundTo? (raw : Fields Json) (name : String) (p : Param) : Option Json :=
  (used? raw name p).bind p.coerce?

theorem supplied?_eq_some {v : Json} :
    supplied? name raw = some v ↔ Fields.get? name raw = some v ∧ v.isNull = false := by
  rw [supplied?, Option.filter_eq_some_iff]
  simp

theorem declared_eq (hpresent : p.required = true → (supplied? name raw).isSome = true) :
    declared name p raw =
      match used? raw name p with
      | some v => (p.coerce name v).map some
      | none => .ok none := by
  rw [declared, used?]
  cases hsupplied : supplied? name raw with
  | some v => rfl
  | none =>
    have hoptional : p.required = false := by
      rw [hsupplied] at hpresent
      simpa using hpresent
    cases hdefault : p.default <;> simp [hoptional]

theorem suits_iff_of_used {v : Json} (hused : used? raw name p = some v) :
    Suits raw name p ↔ p.Coercible v := by
  refine ⟨fun h => h.coercible v hused, fun h => ⟨fun hrequired => ?_, fun u hu => ?_⟩⟩
  · rw [used?, hrequired, if_pos rfl, Option.or_none] at hused
    exact Option.isSome_of_eq_some hused
  · obtain rfl := Option.some.inj (hused.symm.trans hu)
    exact h

theorem declared_of_suits (h : Suits raw name p) :
    declared name p raw = .ok (boundTo? raw name p) := by
  rw [declared_eq h.present, boundTo?]
  cases hused : used? raw name p with
  | none => rfl
  | some v =>
    obtain ⟨w, hw⟩ := Option.isSome_iff_exists.mp (Param.isSome_coerce?.mpr (h.coercible v hused))
    rw [Option.bind_some, hw]
    exact congrArg (Except.map some) (Param.coerce_eq_ok.mpr hw)

theorem declared_of_not_suits (h : ¬Suits raw name p) :
    declared name p raw = .error (offence raw name p) := by
  by_cases hpresent : p.required = true → (supplied? name raw).isSome = true
  · rw [declared_eq hpresent, offence]
    cases hused : used? raw name p with
    | none => exact absurd ⟨hpresent, fun v hv => by cases hused.symm.trans hv⟩ h
    | some v =>
      have hnone : p.coerce? v = none := by
        by_contra hsome
        refine h ⟨hpresent, fun u hu => Param.isSome_coerce?.mp ?_⟩
        obtain rfl := Option.some.inj (hused.symm.trans hu)
        exact Option.isSome_iff_ne_none.mpr hsome
      simp only [Param.coerce, hnone]
      rfl
  · obtain ⟨hrequired, hsupplied⟩ := Classical.not_imp.mp hpresent
    have hnone : supplied? name raw = none := by simpa using hsupplied
    simp only [declared, offence, used?, hnone, hrequired, if_true, Option.none_or]

/-- One input put in its place, unless it stays absent. -/
def place (raw : Fields Json) (bound : Fields Json) (q : String × Param) : Fields Json :=
  match boundTo? raw q.1 q.2 with
  | some w => Fields.insert q.1 w bound
  | none => bound

/-- Binding stops at the first input that is not in order; else it puts each one in its place. -/
theorem bindDeclared_eq (schema : Fields Param) (raw bound : Fields Json) :
    bindDeclared raw bound schema =
      match firstOffending? schema raw with
      | some q => .error (offence raw q.1 q.2)
      | none => .ok (schema.foldl (place raw) bound) := by
  -- What is bound already grows from one input to the next, so the induction is for all of it.
  induction schema generalizing bound with
  | nil => rfl
  | cons q schema ih =>
    obtain ⟨name, p⟩ := q
    rw [bindDeclared, firstOffending?, List.find?_cons]
    by_cases h : Suits raw name p
    · simp only [h, not_true_eq_false, decide_false, declared_of_suits h]
      cases hbound : boundTo? raw name p with
      | some w =>
        simp only [List.foldl_cons, place, hbound]
        exact ih (Fields.insert name w bound)
      | none =>
        simp only [List.foldl_cons, place, hbound]
        exact ih bound
    · simp only [h, not_false_eq_true, decide_true, declared_of_not_suits h]
      rfl

/-- An input that is not in order is the first such one when those with smaller names are. -/
theorem firstOffending?_of_smaller (hschema : Fields.Ordered schema)
    (hp : Fields.get? name schema = some p) (hsuits : ¬Suits raw name p)
    (hsmaller : ∀ q ∈ schema, q.1 < name → Suits raw q.1 q.2) :
    firstOffending? schema raw = some (name, p) := by
  obtain ⟨pre, post, rfl⟩ := List.append_of_mem (Fields.mem_of_get? hp)
  obtain ⟨-, -, hcross⟩ := List.pairwise_append.mp hschema
  refine List.find?_eq_some_iff_append.mpr ⟨decide_eq_true hsuits, pre, post, rfl, fun q hq => ?_⟩
  have hq : Suits raw q.1 q.2 :=
    hsmaller q (List.mem_append_left _ hq) (hcross q hq (name, p) List.mem_cons_self)
  simpa using hq

/-- The map of the values that are bound, when all inputs are in order. -/
def assigned (schema : Fields Param) (raw : Fields Json) : Fields Json :=
  schema.foldl (place raw) (undeclared schema raw)

/-- What is bound to a name, declared or not. -/
def assigned? (schema : Fields Param) (raw : Fields Json) (name : String) : Option Json :=
  match Fields.get? name schema with
  | some p => boundTo? raw name p
  | none => supplied? name raw

theorem get?_undeclared (hraw : Fields.Ordered raw) (name : String) :
    Fields.get? name (undeclared schema raw) =
      if (Fields.get? name schema).isSome then none else supplied? name raw := by
  rw [undeclared, Fields.get?_filter hraw, supplied?]
  cases h : (Fields.get? name schema).isSome with
  | true => simp [Fields.contains, h]
  | false => simp [Fields.contains, h]

theorem get?_assigned (hschema : Fields.Ordered schema) (hraw : Fields.Ordered raw)
    (name : String) : Fields.get? name (assigned schema raw) = assigned? schema raw name := by
  have hother : ∀ (m : Fields Json) (q : String × Param), q.1 ≠ name →
      Fields.get? name (place raw m q) = Fields.get? name m := by
    intro m q hq
    rw [place]
    split
    · exact Fields.get?_insert_of_ne hq _ m
    · rfl
  have hown : ∀ (m : Fields Json) (p : Param), Fields.get? name (place raw m (name, p)) =
      (boundTo? raw name p).or (Fields.get? name m) := by
    intro m p
    rw [place]
    cases boundTo? raw name p with
    | some w => exact Fields.get?_insert_self name w m
    | none => rfl
  rw [assigned, Fields.get?_foldl hschema hother hown, get?_undeclared hraw, assigned?]
  cases Fields.get? name schema with
  | none => rfl
  | some p => exact Option.or_none

theorem ordered_assigned (hraw : Fields.Ordered raw) : Fields.Ordered (assigned schema raw) := by
  refine Fields.ordered_foldl (fun m q hm => ?_) (hraw.filter _)
  rw [place]
  split
  · exact hm.insert _ _
  · exact hm

end PlaybookEngine.Binding
