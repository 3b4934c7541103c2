import PlaybookEngine.Proofs.Binding.Acceptance

namespace PlaybookEngine

namespace Json

/-- The integer that a value holds: the exact value of a number, or of the numeral that a text is
between blanks. -/
def HoldsInteger : Json → Int → Prop
  | .int j, i => j = i
  | .float x, i => x.HasValue i
  | .str s, i => IsNumeral (Text.trim s.toList) i
  | _, _ => False

/-- The integer that a value holds can be bound: it is an integer already, or is one of 64 bits. -/
def Fits : Json → Int → Prop
  | .int _, _ => True
  | _, i => inInt64 i = true

/-- A float that holds an integer beyond 64 bits. -/
def Oversized (v : Json) : Prop := ∃ x i, v = .float x ∧ x.HasValue i ∧ inInt64 i = false

theorem HoldsInteger.unique {v : Json} {i j : Int} (hi : v.HoldsInteger i) (hj : v.HoldsInteger j) :
    i = j := by
  cases v with
  | int k => exact hi.symm.trans hj
  | float x =>
    exact (Binary64.Finite.hasValue_iff.mp hi).2.symm.trans (Binary64.Finite.hasValue_iff.mp hj).2
  | str s => exact Option.some.inj ((readInt_eq_some.mpr hi).symm.trans (readInt_eq_some.mpr hj))
  | _ => exact hi.elim

end Json

/-- The nearest integer of 64 bits. -/
def clampInt64 (i : Int) : Int := max (-0x8000_0000_0000_0000) (min (0x8000_0000_0000_0000 - 1) i)

theorem clampInt64_eq_iff {i : Int} : clampInt64 i = i ↔ inInt64 i = true := by
  simp only [clampInt64, inInt64, decide_eq_true_eq]
  omega

namespace Param

variable {p : Param} {v w : Json} {i : Int}

theorem toInteger?_float {x : Binary64.Finite} (h : x.HasValue i) :
    toInteger? (.float x) = some (.int (clampInt64 i)) := by
  obtain ⟨hintegral, rfl⟩ := Binary64.Finite.hasValue_iff.mp h
  rw [toInteger?, if_pos hintegral]
  rfl

theorem toInteger?_of_fits (hheld : v.HoldsInteger i) (hfits : v.Fits i) :
    toInteger? v = some (.int i) := by
  cases v with
  | int j => exact congrArg (some ∘ Json.int) hheld
  | float x => rw [toInteger?_float hheld, clampInt64_eq_iff.mpr hfits]
  | str s =>
    have hfits : inInt64 i = true := hfits
    simp only [toInteger?, readInt_eq_some.mpr hheld, hfits, if_true]
  | _ => exact hheld.elim

/-- What is bound for an integer is held by the value and fits, or the value is oversized. -/
theorem toInteger?_cases (h : toInteger? v = some w) :
    (∃ i, w = .int i ∧ v.HoldsInteger i ∧ v.Fits i) ∨
    ∃ i, w = .int (clampInt64 i) ∧ v.HoldsInteger i ∧ v.Oversized := by
  cases v with
  | int j => exact .inl ⟨j, (Option.some.inj h).symm, rfl, trivial⟩
  | float x =>
    obtain ⟨i, hi⟩ := isSome_toInteger?_float.mp (Option.isSome_of_eq_some h)
    obtain rfl := Option.some.inj (h.symm.trans (toInteger?_float hi))
    cases hfits : inInt64 i with
    | true => exact .inl ⟨i, by rw [clampInt64_eq_iff.mpr hfits], hi, hfits⟩
    | false => exact .inr ⟨i, rfl, hi, x, i, rfl, hi, hfits⟩
  | str s =>
    obtain ⟨i, hi, hfits⟩ := isSome_toInteger?_str.mp (Option.isSome_of_eq_some h)
    exact .inl ⟨i, Option.some.inj (h.symm.trans (toInteger?_of_fits hi hfits)), hi, hfits⟩
  | _ => cases h

theorem not_holds_clamped (hheld : v.HoldsInteger i) (hover : v.Oversized) :
    ¬v.HoldsInteger (clampInt64 i) := by
  intro hclamped
  obtain ⟨x, j, rfl, hj, hbeyond⟩ := hover
  obtain rfl : i = j := Json.HoldsInteger.unique hheld hj
  have hfits := clampInt64_eq_iff.mp (Json.HoldsInteger.unique hclamped hheld)
  cases hfits.symm.trans hbeyond

theorem not_oversized_of_fits (hheld : v.HoldsInteger i) (hfits : v.Fits i) : ¬v.Oversized := by
  rintro ⟨x, j, rfl, hj, hbeyond⟩
  obtain rfl : i = j := Json.HoldsInteger.unique hheld hj
  have hfits : inInt64 i = true := hfits
  cases hfits.symm.trans hbeyond

/-- What counts as an integer holds one that fits, or is an oversized float. -/
theorem coercible_integer_iff (htype : p.type = .integer) :
    p.Coercible v ↔ (∃ i, v.HoldsInteger i ∧ v.Fits i) ∨ v.Oversized := by
  have hcoerce : p.coerce? v = toInteger? v := by rw [coerce?, htype]
  rw [← isSome_coerce?, hcoerce, Option.isSome_iff_exists]
  constructor
  · rintro ⟨w, hw⟩
    obtain ⟨i, -, hheld, hfits⟩ | ⟨i, -, -, hover⟩ := toInteger?_cases hw
    · exact .inl ⟨i, hheld, hfits⟩
    · exact .inr hover
  · rintro (⟨i, hheld, hfits⟩ | ⟨x, i, rfl, hheld, -⟩)
    · exact ⟨_, toInteger?_of_fits hheld hfits⟩
    · exact ⟨_, toInteger?_float hheld⟩

end Param

namespace Binding

variable {schema : Fields Param} {raw : Fields Json} {name : String} {p : Param} {v : Json}

theorem boundTo?_integer (htype : p.type = .integer) (hused : used? raw name p = some v) :
    boundTo? raw name p = Param.toInteger? v := by
  rw [boundTo?, hused, Option.bind_some, Param.coerce?, htype]

/-- The integer that an input is bound to is the one its value holds, unless that is a float beyond
64 bits. Any other value that holds no integer, or one that does not fit, is refused by name. -/
theorem integer_kept_iff (hschema : Fields.Ordered schema) (hraw : Fields.Ordered raw)
    (hp : Fields.get? name schema = some p) (htype : p.type = .integer)
    (hused : used? raw name p = some v) :
    (∀ bound, PlaybookEngine.bind schema raw = .ok bound →
      ∃ i, Fields.get? name bound = some (.int i) ∧ (v.HoldsInteger i ↔ ¬v.Oversized)) ∧
    (∀ i, v.HoldsInteger i → v.Fits i → declared name p raw = .ok (some (.int i))) ∧
    (¬v.Oversized → (∀ i, v.HoldsInteger i → ¬v.Fits i) →
      declared name p raw = .error (.invalidValue name (p.mismatch v)) ∧
      (∀ bound, PlaybookEngine.bind schema raw ≠ .ok bound) ∧
      ((∀ q ∈ schema, q.1 < name → Suits raw q.1 q.2) →
        PlaybookEngine.bind schema raw = .error (.invalidValue name (p.mismatch v)))) := by
  have hsuits := suits_iff_of_used hused
  have hbound := boundTo?_integer htype hused
  refine ⟨fun bound hbind => ?_, fun i hheld hfits => ?_, fun hover hnone => ?_⟩
  · obtain ⟨⟨hall, -⟩, rfl⟩ := (bind_eq_ok_iff hschema hraw).mp hbind
    have hcoercible := hsuits.mp (hall (name, p) (Fields.mem_of_get? hp))
    rw [get?_assigned hschema hraw, assigned?, hp]
    obtain ⟨w, hw⟩ := Option.isSome_iff_exists.mp (Param.isSome_coerce?.mpr hcoercible)
    rw [Param.coerce?, htype] at hw
    obtain ⟨i, rfl, hheld, hfits⟩ | ⟨i, rfl, hheld, hover⟩ := Param.toInteger?_cases hw
    · exact ⟨i, hbound.trans hw, iff_of_true hheld (Param.not_oversized_of_fits hheld hfits)⟩
    · exact ⟨clampInt64 i, hbound.trans hw,
        iff_of_false (Param.not_holds_clamped hheld hover) fun h => h hover⟩
  · have hcoercible := (Param.coercible_integer_iff htype).mpr (.inl ⟨i, hheld, hfits⟩)
    rw [declared_of_suits (hsuits.mpr hcoercible), hbound, Param.toInteger?_of_fits hheld hfits]
  · have hcoercible : ¬p.Coercible v := by
      rw [Param.coercible_integer_iff htype]
      rintro (⟨i, hheld, hfits⟩ | h)
      · exact hnone i hheld hfits
      · exact hover h
    have hoffends : ¬Suits raw name p := fun h => hcoercible (hsuits.mp h)
    have hoffence : offence raw name p = .invalidValue name (p.mismatch v) := by
      rw [offence, hused]
    refine ⟨hoffence ▸ declared_of_not_suits hoffends, fun bound hbind => ?_, fun hsmaller => ?_⟩
    · obtain ⟨⟨hall, -⟩, -⟩ := (bind_eq_ok_iff hschema hraw).mp hbind
      exact hoffends (hall (name, p) (Fields.mem_of_get? hp))
    · rw [← hoffence, bind_eq, firstOffending?_of_smaller hschema hp hoffends hsmaller]

def page : Param := ⟨.integer, true, none, [], none⟩

def twoPow64 : Binary64.Finite := ⟨false, 0x10_0000_0000_0000, 12, by decide⟩

/-- A numeral with blanks around it is bound to its number. -/
theorem page_text_kept :
    Fields.Ordered [("page", page)] ∧ Fields.Ordered [("page", Json.str " 12 ")] ∧
    used? [("page", .str " 12 ")] "page" page = some (.str " 12 ") ∧
    declared "page" page [("page", .str " 12 ")] = .ok (some (.int 12)) := by
  have hschema : Fields.Ordered [("page", page)] := by decide +kernel
  have hraw : Fields.Ordered [("page", Json.str " 12 ")] := by decide +kernel
  have hused : used? [("page", .str " 12 ")] "page" page = some (.str " 12 ") := rfl
  have hheld : (Json.str " 12 ").HoldsInteger 12 := readInt_eq_some.mp (by decide +kernel)
  have hfits : inInt64 12 = true := by decide
  obtain ⟨-, hkept, -⟩ := integer_kept_iff hschema hraw rfl rfl hused
  exact ⟨hschema, hraw, hused, hkept 12 hheld hfits⟩

/-- The float `2 ^ 64` is bound to another integer, the largest one of 64 bits. -/
theorem huge_page_not_kept :
    Fields.Ordered [("page", page)] ∧ Fields.Ordered [("page", Json.float twoPow64)] ∧
    used? [("page", .float twoPow64)] "page" page = some (.float twoPow64) ∧
    (Json.float twoPow64).HoldsInteger 0x1_0000_0000_0000_0000 ∧
    ∃ bound, PlaybookEngine.bind [("page", page)] [("page", .float twoPow64)] = .ok bound ∧
      Fields.get? "page" bound = some (.int 0x7FFF_FFFF_FFFF_FFFF) ∧
      ∀ i, Fields.get? "page" bound = some (.int i) → ¬(Json.float twoPow64).HoldsInteger i := by
  have hschema : Fields.Ordered [("page", page)] := by decide +kernel
  have hraw : Fields.Ordered [("page", Json.float twoPow64)] := by decide +kernel
  have hused : used? [("page", .float twoPow64)] "page" page = some (.float twoPow64) := rfl
  have hsuits : ∀ q ∈ [("page", page)], Suits [("page", .float twoPow64)] q.1 q.2 := by
    decide +kernel
  have hrules : ∀ rule ∈ Rule.all,
      rule.Kept (assigned? [("page", page)] [("page", .float twoPow64)] rule.field) := by
    decide +kernel
  have hheld : (Json.float twoPow64).HoldsInteger 0x1_0000_0000_0000_0000 :=
    Binary64.Finite.hasValue_iff.mpr ⟨by decide +kernel, by decide +kernel⟩
  have hbind := (bind_eq_ok_iff hschema hraw).mpr ⟨⟨hsuits, hrules⟩, rfl⟩
  have hpage : Fields.get? "page" (assigned [("page", page)] [("page", .float twoPow64)]) =
      some (.int 0x7FFF_FFFF_FFFF_FFFF) := by
    have hclamped : clampInt64 0x1_0000_0000_0000_0000 = 0x7FFF_FFFF_FFFF_FFFF := by decide
    rw [get?_assigned hschema hraw, ← hclamped, ← Param.toInteger?_float hheld]
    exact boundTo?_integer rfl hused
  refine ⟨hschema, hraw, hused, hheld, _, hbind, hpage, fun i hi hholds => ?_⟩
  cases hpage.symm.trans hi
  cases hheld.unique hholds

end Binding

end PlaybookEngine
