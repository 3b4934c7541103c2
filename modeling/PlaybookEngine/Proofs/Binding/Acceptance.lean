import PlaybookEngine.Proofs.Binding.Assignment

namespace PlaybookEngine

namespace Json

theorem str?_eq_some {v : Json} {s : String} : v.str? = some s ↔ v = .str s := by
  cases v <;> simp [str?]

/-- A list of texts is read as those texts. -/
theorem filterMap_str?_map_str (ids : List String) : (ids.map Json.str).filterMap str? = ids := by
  induction ids with
  | nil => rfl
  | cons id ids ih => exact congrArg (id :: ·) ih

theorem map_str_filterMap_str? {items : List Json}
    (h : items.all (fun v => v.str?.isSome) = true) :
    (items.filterMap str?).map Json.str = items := by
  induction items with
  | nil => rfl
  | cons v items ih =>
    rw [List.all_cons, Bool.and_eq_true] at h
    cases v with
    | str s => exact congrArg (Json.str s :: ·) (ih h.2)
    | _ => cases h.1

end Json

namespace Binding

/-- What is asked of an input of a fixed name, wherever its value comes from. -/
structure Rule where
  field : String
  Legal : Json → Prop
  decidable : DecidablePred Legal
  /-- Why a value is not legal. -/
  reason : Json → String

namespace Rule

instance (rule : Rule) : DecidablePred rule.Legal := rule.decidable

/-- The rule is kept by the value found for its input, if there is one. -/
def Kept (rule : Rule) (found : Option Json) : Prop := ∀ v ∈ found, rule.Legal v

instance (rule : Rule) : DecidablePred rule.Kept :=
  fun found => inferInstanceAs (Decidable (∀ v ∈ found, rule.Legal v))

/-- A pattern is the text of one of its names. -/
def ofPattern (α : Type) [Pattern α] : Rule where
  field := Pattern.field α
  Legal
    | .str s => s ∈ (Named.all (α := α)).map Named.text
    | _ => False
  decidable
    | .str s => inferInstanceAs (Decidable (s ∈ _))
    | .null | .bool _ | .int _ | .float _ | .arr _ | .obj _ => inferInstanceAs (Decidable False)
  reason
    | .str s => notOneOf s ((Named.all (α := α)).map Named.text)
    | _ => "expected a string"

theorem all_str?_iff {v : Json} : (v.arr?.getD [.null]).all (fun u => u.str?.isSome) = true ↔
    ∃ ids, v = Json.strings ids := by
  constructor
  · intro h
    cases v with
    | arr items =>
      exact ⟨items.filterMap Json.str?, congrArg Json.arr (Json.map_str_filterMap_str? h).symm⟩
    | _ => cases h
  · rintro ⟨ids, rfl⟩
    simp [Json.strings, Json.arr?, Json.str?]

/-- The steps to skip are a list of names. -/
def skipSteps : Rule where
  field := "skip_steps"
  Legal v := ∃ ids, v = Json.strings ids
  decidable _ := decidable_of_iff _ all_str?_iff
  reason _ := "expected a list of step ids"

/-- The rules in the order in which they are checked. -/
def all : List Rule :=
  [ofPattern RunMode, ofPattern ContentStatus, ofPattern CitationMode, skipSteps]

/-- The rule checked on what is found. -/
def check (rule : Rule) : Option Json → Except BindingError Unit
  | some v => if rule.Legal v then .ok () else .error (.invalidValue rule.field (rule.reason v))
  | none => .ok ()

/-- What is said when the rule is not kept by what is found. -/
def breach (rule : Rule) (found : Option Json) : BindingError :=
  .invalidValue rule.field (rule.reason (found.getD .null))

theorem check_eq (rule : Rule) (found : Option Json) :
    rule.check found = if rule.Kept found then .ok () else .error (rule.breach found) := by
  cases found with
  | none => exact (if_pos fun v hv => by cases hv).symm
  | some v =>
    have hkept : rule.Kept (some v) ↔ rule.Legal v :=
      ⟨fun h => h v rfl, fun h u hu => Option.some.inj hu ▸ h⟩
    simp only [check, hkept, breach, Option.getD_some]

theorem forM_check (rules : List Rule) (found : String → Option Json) :
    (forM rules fun rule : Rule => rule.check (found rule.field) : Except BindingError Unit) =
      match rules.find? fun rule => ¬rule.Kept (found rule.field) with
      | some rule => .error (rule.breach (found rule.field))
      | none => .ok () := by
  induction rules with
  | nil => rfl
  | cons rule rules ih =>
    rw [List.forM_cons, check_eq, List.find?_cons]
    by_cases h : rule.Kept (found rule.field)
    · simp only [h, if_true, not_true_eq_false, decide_false]
      exact ih
    · simp only [h, if_false, not_false_eq_true, decide_true]
      rfl

end Rule

/-- The first rule that is not kept by what is found. -/
def firstBroken? (found : String → Option Json) : Option Rule :=
  Rule.all.find? fun rule => ¬rule.Kept (found rule.field)

theorem isSome_ofText? {α : Type} [Named α] {s : String} :
    (Named.ofText? (α := α) s).isSome = true ↔ s ∈ (Named.all (α := α)).map Named.text := by
  simp [Named.ofText?]

theorem checkPattern_eq (α : Type) [Pattern α] (bound : Fields Json) :
    checkPattern α bound =
      (Rule.ofPattern α).check (Fields.get? (Rule.ofPattern α).field bound) := by
  unfold checkPattern
  change _ = (Rule.ofPattern α).check (Fields.get? (Pattern.field α) bound)
  cases Fields.get? (Pattern.field α) bound with
  | none => rfl
  | some v =>
    cases v with
    | str s =>
      have hlegal : (Rule.ofPattern α).Legal (.str s) ↔
        (Named.ofText? (α := α) s).isSome = true := isSome_ofText?.symm
      simp only [Rule.check, hlegal, Pattern.read]
      cases Named.ofText? (α := α) s <;> rfl
    | _ => rfl

theorem checkSkipSteps_eq (bound : Fields Json) :
    checkSkipSteps bound = Rule.skipSteps.check (Fields.get? Rule.skipSteps.field bound) := by
  unfold checkSkipSteps
  change _ = Rule.skipSteps.check (Fields.get? "skip_steps" bound)
  cases Fields.get? "skip_steps" bound with
  | none => rfl
  | some v =>
    have hlegal : Rule.skipSteps.Legal v ↔ _ := Rule.all_str?_iff.symm
    simp only [Rule.check, hlegal]
    rfl

theorem checkPatterns_eq (bound : Fields Json) :
    checkPatterns bound =
      forM Rule.all fun rule => rule.check (Fields.get? rule.field bound) := by
  simp only [checkPatterns, checkPattern_eq, checkSkipSteps_eq, Rule.all, List.forM_cons,
    List.forM_nil, bind_pure_unit]

/-- The whole of binding: the first input that is not in order, else the first rule that is not
kept, is the error. -/
theorem bind_eq (schema : Fields Param) (raw : Fields Json) :
    PlaybookEngine.bind schema raw =
      match firstOffending? schema raw with
      | some q => .error (offence raw q.1 q.2)
      | none =>
        match firstBroken? fun name => Fields.get? name (assigned schema raw) with
        | some rule => .error (rule.breach (Fields.get? rule.field (assigned schema raw)))
        | none => .ok (assigned schema raw) := by
  rw [PlaybookEngine.bind, bindDeclared_eq, ← assigned]
  cases firstOffending? schema raw with
  | some q => rfl
  | none =>
    change (checkPatterns (assigned schema raw) >>= fun _ => Except.ok (assigned schema raw)) = _
    have hchecked := Rule.forM_check Rule.all fun name => Fields.get? name (assigned schema raw)
    rw [checkPatterns_eq, hchecked, firstBroken?]
    cases Rule.all.find? _ <;> rfl

/-- What accepted inputs are: the undeclared ones that are there, unchanged, and the declared ones
that are supplied or have a default, converted to their type; what the inputs of fixed names are
read as is what they are bound to. -/
structure Bound (schema : Fields Param) (raw bound : Fields Json) : Prop where
  ordered : Fields.Ordered bound
  undeclared : ∀ name v, Fields.get? name schema = none →
    (Fields.get? name bound = some v ↔ Fields.get? name raw = some v ∧ v.isNull = false)
  declared : ∀ name p, Fields.get? name schema = some p →
    ((Fields.get? name bound).isSome = true ↔
      (supplied? name raw).isSome = true ∨ p.default.isSome = true)
  converted : ∀ name p w, Fields.get? name schema = some p → Fields.get? name bound = some w →
    boundTo? raw name p = some w ∧ p.Conforms w
  runMode : ∀ v, Fields.get? "run_mode" bound = some v →
    v = .str (Named.text (BoundInputs.runMode bound))
  contentStatus : ∀ v, Fields.get? "content_status" bound = some v →
    v = .str (Named.text (BoundInputs.contentStatus bound))
  citationMode : ∀ v, Fields.get? "citation_mode" bound = some v →
    v = .str (Named.text (BoundInputs.citationMode bound))
  skipSteps : ∀ v, Fields.get? "skip_steps" bound = some v →
    v = Json.strings (BoundInputs.skipSteps bound)

/-- A legal pattern is read as what it says. -/
theorem pattern_of_legal {α : Type} [Pattern α] {bound : Fields Json} {v : Json}
    (hfound : Fields.get? (Pattern.field α) bound = some v) (hlegal : (Rule.ofPattern α).Legal v) :
    v = .str (Named.text (BoundInputs.pattern α bound)) := by
  cases v with
  | str s =>
    obtain ⟨a, ha⟩ := Option.isSome_iff_exists.mp (isSome_ofText?.mpr hlegal)
    have hpattern : BoundInputs.pattern α bound = a := by
      simp [BoundInputs.pattern, hfound, Json.str?, ha]
    rw [hpattern, Named.text_of_ofText? ha]
  | _ => exact hlegal.elim

theorem skipSteps_of_legal {bound : Fields Json} {v : Json}
    (hfound : Fields.get? "skip_steps" bound = some v) (hlegal : Rule.skipSteps.Legal v) :
    v = Json.strings (BoundInputs.skipSteps bound) := by
  obtain ⟨ids, rfl⟩ := hlegal
  have hskip : BoundInputs.skipSteps bound = ids := by
    simp only [BoundInputs.skipSteps, hfound, Json.strings, Json.arr?, Option.bind_some]
    exact Json.filterMap_str?_map_str ids
  rw [hskip]

variable {schema : Fields Param} {raw : Fields Json}

theorem isSome_boundTo? {name : String} {p : Param} (h : Suits raw name p) :
    (boundTo? raw name p).isSome = true ↔
      (supplied? name raw).isSome = true ∨ p.default.isSome = true := by
  have hbound : (boundTo? raw name p).isSome = (used? raw name p).isSome := by
    rw [boundTo?]
    cases hused : used? raw name p with
    | none => rfl
    | some v => exact Param.isSome_coerce?.mpr (h.coercible v hused)
  rw [hbound, used?, Option.isSome_or, Bool.or_eq_true]
  cases hrequired : p.required with
  | false => rfl
  | true =>
    have hsupplied := h.present hrequired
    exact iff_of_true (.inl hsupplied) (.inl hsupplied)

/-- Of inputs in order, with the rules kept, the map that is built is as `Bound` says. -/
theorem bound_assigned (hschema : Fields.Ordered schema) (hraw : Fields.Ordered raw)
    (hsuits : ∀ q ∈ schema, Suits raw q.1 q.2)
    (hrules : ∀ rule ∈ Rule.all, rule.Kept (assigned? schema raw rule.field)) :
    Bound schema raw (assigned schema raw) := by
  have hfound := get?_assigned hschema hraw
  simp only [← hfound] at hrules
  exact {
    ordered := ordered_assigned hraw
    undeclared := fun name v hname => by
      rw [hfound, assigned?, hname]
      exact supplied?_eq_some
    declared := fun name p hp => by
      rw [hfound, assigned?, hp]
      exact isSome_boundTo? (hsuits (name, p) (Fields.mem_of_get? hp))
    converted := fun name p w hp hw => by
      rw [hfound, assigned?, hp] at hw
      obtain ⟨v, -, hv⟩ := Option.bind_eq_some_iff.mp hw
      exact ⟨hw, Param.conforms_of_coerce? hv⟩
    runMode := fun v hv =>
      pattern_of_legal hv (hrules (.ofPattern RunMode) (by simp [Rule.all]) v hv)
    contentStatus := fun v hv =>
      pattern_of_legal hv (hrules (.ofPattern ContentStatus) (by simp [Rule.all]) v hv)
    citationMode := fun v hv =>
      pattern_of_legal hv (hrules (.ofPattern CitationMode) (by simp [Rule.all]) v hv)
    skipSteps := fun v hv => skipSteps_of_legal hv (hrules .skipSteps (by simp [Rule.all]) v hv) }

theorem firstOffending?_eq_none :
    firstOffending? schema raw = none ↔ ∀ q ∈ schema, Suits raw q.1 q.2 := by
  simp [firstOffending?]

theorem firstBroken?_eq_none {found : String → Option Json} :
    firstBroken? found = none ↔ ∀ rule ∈ Rule.all, rule.Kept (found rule.field) := by
  simp [firstBroken?]

theorem bind_eq_ok_iff (hschema : Fields.Ordered schema) (hraw : Fields.Ordered raw)
    {bound : Fields Json} :
    PlaybookEngine.bind schema raw = .ok bound ↔
      ((∀ q ∈ schema, Suits raw q.1 q.2) ∧
        ∀ rule ∈ Rule.all, rule.Kept (assigned? schema raw rule.field)) ∧
      assigned schema raw = bound := by
  rw [bind_eq, ← firstOffending?_eq_none, ← firstBroken?_eq_none]
  simp only [get?_assigned hschema hraw]
  cases firstOffending? schema raw with
  | some q => simp
  | none => cases firstBroken? (assigned? schema raw) <;> simp

theorem bind_eq_error_iff (hschema : Fields.Ordered schema) (hraw : Fields.Ordered raw)
    {e : BindingError} :
    PlaybookEngine.bind schema raw = .error e ↔
      (∃ q, firstOffending? schema raw = some q ∧ e = offence raw q.1 q.2) ∨
      (∀ q ∈ schema, Suits raw q.1 q.2) ∧ ∃ rule, firstBroken? (assigned? schema raw) = some rule ∧
        e = rule.breach (assigned? schema raw rule.field) := by
  rw [bind_eq, ← firstOffending?_eq_none]
  simp only [get?_assigned hschema hraw]
  cases firstOffending? schema raw with
  | some q => simp [eq_comm]
  | none => cases firstBroken? (assigned? schema raw) <;> simp [eq_comm]

/-- Inputs bind exactly when each declared one is in order and the patterns are legal as they are
bound in the end. What they are bound to is known, and what a refusal names. -/
theorem bind_sound_and_complete (hschema : Fields.Ordered schema) (hraw : Fields.Ordered raw) :
    ((∃ bound, PlaybookEngine.bind schema raw = .ok bound) ↔
      (∀ q ∈ schema, Suits raw q.1 q.2) ∧
        ∀ rule ∈ Rule.all, rule.Kept (assigned? schema raw rule.field)) ∧
    (∀ bound, PlaybookEngine.bind schema raw = .ok bound → Bound schema raw bound) ∧
    ∀ e, PlaybookEngine.bind schema raw = .error e →
      (∃ q, firstOffending? schema raw = some q ∧ e = offence raw q.1 q.2) ∨
      (∀ q ∈ schema, Suits raw q.1 q.2) ∧ ∃ rule, firstBroken? (assigned? schema raw) = some rule ∧
        e = rule.breach (assigned? schema raw rule.field) := by
  have hok := fun bound => @bind_eq_ok_iff schema raw hschema hraw bound
  refine ⟨⟨?_, fun h => ?_⟩, fun bound h => ?_, fun e h => ?_⟩
  · rintro ⟨bound, h⟩
    exact ((hok bound).mp h).1
  · exact ⟨assigned schema raw, (hok _).mpr ⟨h, rfl⟩⟩
  · obtain ⟨⟨hsuits, hrules⟩, rfl⟩ := (hok bound).mp h
    exact bound_assigned hschema hraw hsuits hrules
  · exact (bind_eq_error_iff hschema hraw).mp h

/-- A topic, and a limit that a text gives when none is supplied. -/
def articleSchema : Fields Param :=
  [("limit", ⟨.integer, false, some (.str " 20 "), [], none⟩),
    ("topic", ⟨.string, true, none, [], none⟩)]

def articleInputs : Fields Json :=
  [("content_status", .str "in_review"), ("limit", .null), ("note", .null),
    ("skip_steps", Json.strings ["outline"]), ("topic", .int 7)]

theorem article_inputs_bound :
    Fields.Ordered articleSchema ∧ Fields.Ordered articleInputs ∧
    ∃ bound, PlaybookEngine.bind articleSchema articleInputs = .ok bound ∧
      Bound articleSchema articleInputs bound := by
  have hschema : Fields.Ordered articleSchema := by decide +kernel
  have hraw : Fields.Ordered articleInputs := by decide +kernel
  have hsuits : ∀ q ∈ articleSchema, Suits articleInputs q.1 q.2 := by decide +kernel
  have hrules : ∀ rule ∈ Rule.all,
      rule.Kept (assigned? articleSchema articleInputs rule.field) := by
    decide +kernel
  obtain ⟨hiff, hbound, -⟩ := bind_sound_and_complete hschema hraw
  obtain ⟨bound, h⟩ := hiff.mpr ⟨hsuits, hrules⟩
  exact ⟨hschema, hraw, bound, h, hbound bound h⟩

/-- The declared type comes first: as an array the mode is not a text any more. -/
example : PlaybookEngine.bind [("run_mode", ⟨.array, false, none, [], none⟩)]
    [("run_mode", .str "batch")] = .error (.invalidValue "run_mode" "expected a string") := rfl

end Binding

end PlaybookEngine
