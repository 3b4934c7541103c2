import PlaybookEngine.Proofs.Binding.Acceptance
import PlaybookEngine.Proofs.Json.RoundTrip

namespace PlaybookEngine

namespace Binary64

theorem isDigit_of_mem_significantDigits {n : Nat} {c : Char} (h : c ∈ significantDigits n) :
    c.isDigit = true := by
  unfold significantDigits at h
  split at h
  · rw [List.mem_singleton.mp h]
    decide
  · rename_i hdigits
    have hkept := List.mem_reverse.mp h
    exact isDigit_of_mem_toDigits
      (List.mem_reverse.mp ((List.dropWhile_suffix _).subset hkept))

theorem exists_isDigit_positional {ds : List Char} (hds : ∀ c ∈ ds, c.isDigit = true)
    (whole : Int) : ∃ c ∈ positional ds whole, c.isDigit = true := by
  unfold positional
  split
  · exact ⟨'0', List.mem_cons_self, by decide⟩
  · dsimp only
    split
    · exact ⟨'0', by simp, by decide⟩
    · rename_i hlonger
      obtain ⟨c, hc⟩ := List.exists_mem_of_ne_nil (ds.drop whole.toNat) fun hnil =>
        hlonger (List.drop_eq_nil_iff.mp hnil)
      exact ⟨c, List.mem_append_right _ (List.mem_cons_of_mem _ hc), hds c (List.mem_of_mem_drop hc)⟩

theorem exists_isDigit_scientific (ds : List Char) (exponent : Int) :
    ∃ c ∈ scientific ds exponent, c.isDigit = true := by
  obtain ⟨c, hc⟩ := List.exists_mem_of_ne_nil _ (Nat.toDigits_ne_nil (n := exponent.natAbs) (b := 10))
  refine ⟨c, ?_, isDigit_of_mem_toDigits hc⟩
  exact List.mem_append_right _ (List.mem_cons_of_mem _ (List.mem_cons_of_mem _ hc))

/-- The text of a float has a digit, however it is written. -/
theorem Finite.exists_isDigit_text (x : Finite) : ∃ c ∈ x.text.toList, c.isDigit = true := by
  have hbody : ∀ (n : Nat) (exponent : Int),
      ∃ c ∈ (if -5 ≤ exponent ∧ exponent ≤ 15 then positional (significantDigits n) (exponent + 1)
        else scientific (significantDigits n) exponent), c.isDigit = true := by
    intro n exponent
    split
    · exact exists_isDigit_positional (fun c => isDigit_of_mem_significantDigits) _
    · exact exists_isDigit_scientific _ _
  obtain ⟨c, hc, hdigit⟩ := hbody x.shortest.coeff
    (if x.isZero then 0
      else x.shortest.exp + (Nat.toDigits 10 x.shortest.coeff).length - 1)
  refine ⟨c, ?_, hdigit⟩
  rw [Finite.text, String.toList_ofList]
  cases x.neg with
  | true => exact List.mem_cons_of_mem _ hc
  | false => exact hc

end Binary64

/-- A text that neither a number nor a truth value is written as. -/
def Wordlike (s : String) : Prop :=
  (∀ c ∈ s.toList, c.isDigit = false) ∧ ∀ b : Bool, s ≠ Json.compact (.bool b)

theorem not_wordlike_of_isDigit {s : String} (h : ∃ c ∈ s.toList, c.isDigit = true) :
    ¬Wordlike s := by
  obtain ⟨c, hc, hdigit⟩ := h
  exact fun hwordlike => by simp [hwordlike.1 c hc] at hdigit

theorem not_wordlike_int (i : Int) : ¬Wordlike (toString i) := by
  refine not_wordlike_of_isDigit ?_
  obtain ⟨n, ⟨-, htext⟩ | ⟨-, -, htext⟩⟩ := Json.Reader.toList_int i <;>
    obtain ⟨c, ds, hdigits, hc⟩ := Json.Reader.toDigits_eq_cons n <;>
    rw [htext, hdigits]
  · exact ⟨c, List.mem_cons_self, hc⟩
  · exact ⟨c, List.mem_cons_of_mem _ List.mem_cons_self, hc⟩

namespace Param

variable {v : Json} {s : String}

theorem eq_of_toText? (h : toText? v = some (.str s)) (hs : Wordlike s) : v = .str s := by
  cases v with
  | str t => exact Option.some.inj h
  | int i =>
    obtain rfl := Json.str.inj (Option.some.inj h)
    exact absurd hs (not_wordlike_int i)
  | float x =>
    obtain rfl := Json.str.inj (Option.some.inj h)
    exact absurd hs (not_wordlike_of_isDigit x.exists_isDigit_text)
  | bool b =>
    obtain rfl := Json.str.inj (Option.some.inj h)
    exact absurd rfl (hs.2 b)
  | _ => cases h

/-- A word comes from nothing but itself, whatever the type. -/
theorem eq_of_coerce? {p : Param} (h : p.coerce? v = some (.str s)) (hs : Wordlike s) :
    v = .str s := by
  have hconforms := conforms_of_coerce? h
  unfold coerce? at h
  unfold Conforms at hconforms
  cases htype : p.type with
  | string =>
    rw [htype] at h
    exact eq_of_toText? h hs
  | contentSource =>
    rw [htype] at h
    obtain ⟨t, ht, hsource⟩ := Option.bind_eq_some_iff.mp h
    obtain ⟨source, -, hst⟩ := Option.map_eq_some_iff.mp hsource
    exact hst ▸ Json.str?_eq_some.mp ht
  | enumeration =>
    rw [htype] at h
    obtain ⟨t, ht, hlisted⟩ := Option.bind_eq_some_iff.mp h
    split at hlisted
    · exact Option.some.inj hlisted ▸ Json.str?_eq_some.mp ht
    · cases hlisted
  | _ =>
    rw [htype] at hconforms
    exact hconforms.elim

end Param

namespace Binding

variable {schema : Fields Param} {raw bound : Fields Json} {α : Type} [Pattern α]

/-- The value that counts for an input, whether or not it is declared. -/
def counted? (schema : Fields Param) (raw : Fields Json) (name : String) : Option Json :=
  match Fields.get? name schema with
  | some p => used? raw name p
  | none => supplied? name raw

theorem counted?_of_supplied {name : String} {v : Json} (h : supplied? name raw = some v) :
    counted? schema raw name = some v := by
  rw [counted?]
  cases Fields.get? name schema with
  | none => exact h
  | some p => exact congrArg (Option.or · _) h

theorem counted?_of_absent {name : String} (h : supplied? name raw = none) :
    counted? schema raw name =
      (Fields.get? name schema).bind fun p => if p.required then none else p.default := by
  rw [counted?]
  cases Fields.get? name schema with
  | none => exact h
  | some p => exact congrArg (Option.or · _) h

/-- The names of the pattern are words. -/
def Worded (α : Type) [Pattern α] : Prop := ∀ s ∈ (Named.all (α := α)).map Named.text, Wordlike s

theorem worded_runMode : Worded RunMode := by
  simp [Worded, Wordlike, Named.all, Named.text, Json.compact]

theorem worded_contentStatus : Worded ContentStatus := by
  simp [Worded, Wordlike, Named.all, Named.text, Json.compact]

theorem ruled_runMode : Rule.ofPattern RunMode ∈ Rule.all := List.mem_cons_self

theorem ruled_contentStatus : Rule.ofPattern ContentStatus ∈ Rule.all :=
  List.mem_cons_of_mem _ List.mem_cons_self

/-- What is bound for a pattern is the value that counts for it, unchanged. -/
theorem get?_pattern_of_bind (hwords : Worded α) (hrule : Rule.ofPattern α ∈ Rule.all)
    (hschema : Fields.Ordered schema) (hraw : Fields.Ordered raw)
    (h : PlaybookEngine.bind schema raw = .ok bound) :
    Fields.get? (Pattern.field α) bound = counted? schema raw (Pattern.field α) := by
  obtain ⟨⟨hsuits, hrules⟩, rfl⟩ := (bind_eq_ok_iff hschema hraw).mp h
  have hkept := hrules _ hrule
  change (Rule.ofPattern α).Kept (assigned? schema raw (Pattern.field α)) at hkept
  rw [get?_assigned hschema hraw, counted?]
  rw [assigned?] at hkept ⊢
  cases hp : Fields.get? (Pattern.field α) schema with
  | none => rfl
  | some p =>
    simp only [hp] at hkept ⊢
    have hcoercible := (hsuits _ (Fields.mem_of_get? hp)).coercible
    rw [boundTo?] at hkept ⊢
    cases hused : used? raw (Pattern.field α) p with
    | none => rfl
    | some v =>
      obtain ⟨w, hw⟩ := Option.isSome_iff_exists.mp (Param.isSome_coerce?.mpr (hcoercible v hused))
      have hlegal : (Rule.ofPattern α).Legal w := by
        refine hkept w ?_
        rw [hused]
        exact hw
      rw [Option.bind_some, hw]
      cases w with
      | str s => rw [Param.eq_of_coerce? hw (hwords s hlegal)]
      | _ => exact hlegal.elim

/-- Where the same value counts for a pattern, it is read as the same. -/
theorem pattern_eq_of_counted? {schema' : Fields Param} {raw' bound' : Fields Json}
    (hwords : Worded α) (hrule : Rule.ofPattern α ∈ Rule.all)
    (hschema : Fields.Ordered schema) (hraw : Fields.Ordered raw)
    (h : PlaybookEngine.bind schema raw = .ok bound)
    (hschema' : Fields.Ordered schema') (hraw' : Fields.Ordered raw')
    (h' : PlaybookEngine.bind schema' raw' = .ok bound')
    (hsame : counted? schema raw (Pattern.field α) = counted? schema' raw' (Pattern.field α)) :
    BoundInputs.pattern α bound = BoundInputs.pattern α bound' := by
  unfold BoundInputs.pattern
  rw [get?_pattern_of_bind hwords hrule hschema hraw h, hsame,
    ← get?_pattern_of_bind hwords hrule hschema' hraw' h']

/-- A pattern is read as the text that counts for it, or is the fallback when nothing does. -/
theorem counted?_pattern_of_bind (hwords : Worded α) (hrule : Rule.ofPattern α ∈ Rule.all)
    (hschema : Fields.Ordered schema) (hraw : Fields.Ordered raw)
    (h : PlaybookEngine.bind schema raw = .ok bound) :
    counted? schema raw (Pattern.field α) =
        some (.str (Named.text (BoundInputs.pattern α bound))) ∨
      counted? schema raw (Pattern.field α) = none ∧
        BoundInputs.pattern α bound = Pattern.fallback := by
  obtain ⟨⟨-, hrules⟩, hassigned⟩ := (bind_eq_ok_iff hschema hraw).mp h
  rw [← get?_pattern_of_bind hwords hrule hschema hraw h]
  cases hfound : Fields.get? (Pattern.field α) bound with
  | none => exact .inr ⟨rfl, by simp [BoundInputs.pattern, hfound]⟩
  | some v =>
    have hlegal : (Rule.ofPattern α).Legal v := by
      refine hrules _ hrule v ?_
      rw [← get?_assigned hschema hraw, hassigned]
      exact hfound
    exact .inl (congrArg some (pattern_of_legal hfound hlegal))

end Binding

end PlaybookEngine
