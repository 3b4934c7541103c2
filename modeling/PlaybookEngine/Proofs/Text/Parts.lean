import PlaybookEngine.Text.Parts
import Mathlib.Data.List.Basic

namespace PlaybookEngine.Text

theorem length_splitOn (sep : Char) (cs : List Char) :
    (splitOn sep cs).length = cs.count sep + 1 := by
  induction cs with
  | nil => rfl
  | cons c cs ih =>
    unfold splitOn
    split
    · rename_i h
      subst h
      simp [ih]
    · rename_i h
      split
      · rename_i hnil
        exact absurd hnil (splitOn_ne_nil sep cs)
      · rename_i part parts hparts
        rw [hparts] at ih
        rw [List.count_cons_of_ne h, ← ih]
        rfl

theorem not_mem_of_mem_splitOn {sep : Char} {cs part : List Char} (h : part ∈ splitOn sep cs) :
    sep ∉ part := by
  induction cs generalizing part with
  | nil =>
    rw [splitOn, List.mem_singleton] at h
    subst h
    exact List.not_mem_nil
  | cons c cs ih =>
    unfold splitOn at h
    split at h
    · rcases List.mem_cons.mp h with rfl | h
      · exact List.not_mem_nil
      · exact ih h
    · rename_i hc
      split at h
      · rw [List.mem_singleton] at h
        subst h
        simpa using Ne.symm hc
      · rename_i part' parts hparts
        rcases List.mem_cons.mp h with rfl | h
        · have hpart : sep ∉ part' := ih (hparts ▸ List.mem_cons_self)
          simpa [Ne.symm hc] using hpart
        · exact ih (hparts ▸ List.mem_cons_of_mem _ h)

theorem splitOn_of_not_mem {sep : Char} {cs : List Char} (h : sep ∉ cs) :
    splitOn sep cs = [cs] := by
  induction cs with
  | nil => rfl
  | cons c cs ih =>
    rw [List.mem_cons, not_or] at h
    rw [splitOn, if_neg (Ne.symm h.1), ih h.2]

theorem splitOn_eq_singleton {sep : Char} {cs part : List Char} (h : splitOn sep cs = [part]) :
    sep ∉ cs ∧ part = cs := by
  have length := length_splitOn sep cs
  rw [h, List.length_singleton] at length
  have none : sep ∉ cs := List.count_eq_zero.mp (by omega)
  rw [splitOn_of_not_mem none, List.cons.injEq] at h
  exact ⟨none, h.1.symm⟩

/-- A text without separators in front belongs to the first part. -/
theorem splitOn_append_of_not_mem {sep : Char} {front cs part : List Char}
    {parts : List (List Char)} (h : sep ∉ front) (hcs : splitOn sep cs = part :: parts) :
    splitOn sep (front ++ cs) = (front ++ part) :: parts := by
  induction front with
  | nil => exact hcs
  | cons c front ih =>
    rw [List.mem_cons, not_or] at h
    rw [List.cons_append, splitOn, if_neg (Ne.symm h.1), ih h.2]
    rfl

theorem splitOn_append_cons (sep : Char) (as bs : List Char) :
    splitOn sep (as ++ sep :: bs) = splitOn sep as ++ splitOn sep bs := by
  induction as with
  | nil =>
    rw [List.nil_append, splitOn.eq_def sep (sep :: bs)]
    dsimp only
    rw [if_pos rfl]
    rfl
  | cons a as ih =>
    rw [List.cons_append, splitOn, splitOn]
    by_cases ha : a = sep
    · rw [if_pos ha, if_pos ha, ih, List.cons_append]
    · rw [if_neg ha, if_neg ha, ih]
      cases hsplit : splitOn sep as with
      | nil => exact absurd hsplit (splitOn_ne_nil sep as)
      | cons part parts => rfl

/-- The last part is empty only when nothing stands behind the last separator. -/
theorem empty_or_ends_of_splitOn {sep : Char} {cs : List Char}
    (h : (splitOn sep cs).getLast? = some []) : cs = [] ∨ cs.getLast? = some sep := by
  induction cs with
  | nil => exact .inl rfl
  | cons c cs ih =>
    refine .inr ?_
    cases hsplit : splitOn sep cs with
    | nil => exact absurd hsplit (splitOn_ne_nil sep cs)
    | cons part parts =>
      rw [splitOn, hsplit] at h
      by_cases hc : c = sep
      · subst hc
        rw [if_pos rfl, List.getLast?_cons_cons, ← hsplit] at h
        rcases ih h with hnil | hlast
        · rw [hnil, List.getLast?_singleton]
        · simp [List.getLast?_cons, hlast]
      · rw [if_neg hc] at h
        cases parts with
        | nil => cases h
        | cons next parts =>
          rw [List.getLast?_cons_cons, ← List.getLast?_cons_cons (a := part), ← hsplit] at h
          rcases ih h with hnil | hlast
          · rw [hnil] at hsplit
            cases hsplit
          · simp [List.getLast?_cons, hlast]

/-- A word without separators stands at the start of the first part when it stands at the start of
the text, or of the text and what follows a separator behind it. -/
theorem prefix_of_splitOn {sep : Char} {word cs rest part : List Char} {parts : List (List Char)}
    (hword : sep ∉ word) (h : word <+: cs ++ sep :: rest)
    (hsplit : splitOn sep cs = part :: parts) : word <+: part := by
  induction cs generalizing word part parts with
  | nil =>
    cases word with
    | nil => exact List.nil_prefix
    | cons w word =>
      have hw : w = sep := (List.cons_prefix_cons.mp h).1
      exact absurd (hw ▸ List.mem_cons_self) hword
  | cons c cs ih =>
    cases word with
    | nil => exact List.nil_prefix
    | cons w word =>
      obtain ⟨hw, hprefix⟩ := List.cons_prefix_cons.mp h
      subst hw
      rw [List.mem_cons, not_or] at hword
      rw [splitOn, if_neg (Ne.symm hword.1)] at hsplit
      cases hrest : splitOn sep cs with
      | nil => exact absurd hrest (splitOn_ne_nil sep cs)
      | cons part' parts' =>
        rw [hrest] at hsplit
        cases hsplit
        exact List.cons_prefix_cons.mpr ⟨rfl, ih hword.2 hprefix hrest⟩

/-- Parts that are each ended by the separator are split again, before what is left. -/
theorem splitOn_ended {sep : Char} {parts : List (List Char)} (h : ∀ part ∈ parts, sep ∉ part)
    (cs : List Char) :
    splitOn sep (parts.flatMap (· ++ [sep]) ++ cs) = parts ++ splitOn sep cs := by
  induction parts with
  | nil => rfl
  | cons part parts ih =>
    have hrest := ih fun other hmem => h other (List.mem_cons_of_mem _ hmem)
    rw [List.flatMap_cons, List.append_assoc, List.append_assoc, List.singleton_append,
      splitOn_append_cons, splitOn_of_not_mem (h part List.mem_cons_self), hrest]
    rfl

/-- The parts, each ended by the separator, are the text with one more separator. -/
theorem ended_splitOn (sep : Char) (cs : List Char) :
    (splitOn sep cs).flatMap (· ++ [sep]) = cs ++ [sep] := by
  induction cs with
  | nil => rfl
  | cons c cs ih =>
    unfold splitOn
    split
    · rename_i hc
      rw [List.flatMap_cons, ih, hc]
      rfl
    · split
      · rename_i hnil
        exact absurd hnil (splitOn_ne_nil sep cs)
      · rename_i part parts hparts
        rw [hparts] at ih
        exact congrArg (c :: ·) ih

/-- What stands in a part stands in the text. -/
theorem subset_of_mem_splitOn {sep : Char} {cs part : List Char} (h : part ∈ splitOn sep cs) :
    part ⊆ cs := by
  intro c hc
  have hended : c ∈ cs ++ [sep] := by
    rw [← ended_splitOn]
    exact List.mem_flatMap.mpr ⟨part, h, List.mem_append_left _ hc⟩
  rcases List.mem_append.mp hended with hc' | hsep
  · exact hc'
  · rw [List.mem_singleton] at hsep
    exact absurd (hsep ▸ hc) (not_mem_of_mem_splitOn h)

theorem splitLast_eq_some {sep : Char} {cs before after : List Char}
    (h : splitLast sep cs = some (before, after)) : cs = before ++ sep :: after := by
  induction cs generalizing before with
  | nil => cases h
  | cons c cs ih =>
    unfold splitLast at h
    split at h
    · rename_i b a hb
      cases h
      rw [ih hb]
      rfl
    · split at h
      · rename_i hc
        cases h
        rw [hc]
        rfl
      · cases h

theorem splitLast_eq_none_iff {sep : Char} {cs : List Char} :
    splitLast sep cs = none ↔ sep ∉ cs := by
  induction cs with
  | nil => exact iff_of_true rfl List.not_mem_nil
  | cons c cs ih =>
    rw [splitLast, List.mem_cons, not_or, ← ih]
    cases splitLast sep cs with
    | some parts => exact iff_of_false nofun fun h => nomatch h.2
    | none => simp [eq_comm]

theorem not_mem_of_splitLast {sep : Char} {cs before after : List Char}
    (h : splitLast sep cs = some (before, after)) : sep ∉ after := by
  induction cs generalizing before with
  | nil => cases h
  | cons c cs ih =>
    unfold splitLast at h
    split at h
    · rename_i b a hb
      cases h
      exact ih hb
    · rename_i hnone
      split at h
      · cases h
        exact splitLast_eq_none_iff.mp hnone
      · cases h

theorem splitLast_append_cons {sep : Char} {after : List Char} (h : sep ∉ after)
    (before : List Char) : splitLast sep (before ++ sep :: after) = some (before, after) := by
  induction before with
  | nil =>
    rw [List.nil_append, splitLast, splitLast_eq_none_iff.mpr h]
    exact if_pos rfl
  | cons c before ih => rw [List.cons_append, splitLast, ih]

theorem splitLast_eq_some_iff {sep : Char} {cs before after : List Char} :
    splitLast sep cs = some (before, after) ↔ cs = before ++ sep :: after ∧ sep ∉ after := by
  constructor
  · intro h
    exact ⟨splitLast_eq_some h, not_mem_of_splitLast h⟩
  · rintro ⟨rfl, h⟩
    exact splitLast_append_cons h before

/-- What stands in front of some separator stands in front of the last one. -/
theorem prefix_of_splitLast {sep : Char} {as bs before after : List Char}
    (h : splitLast sep (as ++ sep :: bs) = some (before, after)) : as <+: before := by
  have last := not_mem_of_splitLast h
  rcases List.append_eq_append_iff.mp (splitLast_eq_some h) with
    ⟨cs, hbefore, -⟩ | ⟨cs, has, hafter⟩
  · exact ⟨cs, hbefore.symm⟩
  · cases cs with
    | nil =>
      rw [List.append_nil] at has
      exact has ▸ List.prefix_rfl
    | cons c cs =>
      rw [List.cons_append, List.cons.injEq] at hafter
      exact absurd (hafter.2 ▸ List.mem_append_right cs List.mem_cons_self) last

end PlaybookEngine.Text
