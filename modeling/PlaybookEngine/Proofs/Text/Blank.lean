import PlaybookEngine.Text.Blank
import Mathlib.Data.List.DropRight

namespace PlaybookEngine.Text

theorem trim_subset (cs : List Char) : trim cs ⊆ cs := by
  intro c hc
  have hstart : c ∈ trimStart cs := (List.rdropWhile_prefix isBlank (trimStart cs)).subset hc
  exact (List.dropWhile_suffix isBlank).subset hstart

theorem trimStart_trim (cs : List Char) : trimStart (trim cs) = trim cs := by
  obtain ⟨rest, hrest⟩ : trim cs <+: trimStart cs := List.rdropWhile_prefix isBlank (trimStart cs)
  cases htrim : trim cs with
  | nil => rfl
  | cons c ts =>
    have hblank : isBlank c = false := by
      refine Bool.eq_false_iff.mpr fun hc => ?_
      rw [htrim] at hrest
      have hagain : trimStart (trimStart cs) = trimStart cs := List.dropWhile_idempotent isBlank cs
      rw [← hrest, List.cons_append, trimStart, List.dropWhile_cons_of_pos hc] at hagain
      have hlength := congrArg List.length hagain
      have hle := (List.dropWhile_suffix isBlank (l := ts ++ rest)).length_le
      rw [List.length_cons] at hlength
      omega
    exact List.dropWhile_cons_of_neg (by simp [hblank])

theorem trim_trim (cs : List Char) : trim (trim cs) = trim cs := by
  rw [trim, trimStart_trim]
  exact List.rdropWhile_idempotent isBlank (trimStart cs)

theorem trimStart_blank_append {before : List Char} (h : ∀ c ∈ before, isBlank c = true)
    (cs : List Char) : trimStart (before ++ cs) = trimStart cs :=
  List.dropWhile_append_of_pos h

theorem trim_blank_append {before : List Char} (h : ∀ c ∈ before, isBlank c = true)
    (cs : List Char) : trim (before ++ cs) = trim cs := by
  rw [trim, trimStart_blank_append h, trim]

theorem trimEnd_append_blank {after : List Char} (h : ∀ c ∈ after, isBlank c = true)
    (cs : List Char) : trimEnd (cs ++ after) = trimEnd cs := by
  have hback : ∀ c ∈ after.reverse, isBlank c = true := fun c hc => h c (List.mem_reverse.mp hc)
  rw [trimEnd, List.reverse_append, List.dropWhile_append_of_pos hback, trimEnd]

theorem trimStart_eq_self_iff {cs : List Char} :
    trimStart cs = cs ↔ ∀ c ∈ cs.head?, isBlank c = false := by
  cases cs with
  | nil => simp [trimStart]
  | cons c cs =>
    cases hc : isBlank c with
    | false => simp [trimStart, hc]
    | true =>
      have hshort := (List.dropWhile_suffix isBlank (l := cs)).length_le
      have hne : cs.dropWhile isBlank ≠ c :: cs := fun heq => by
        have hlength := congrArg List.length heq
        rw [List.length_cons] at hlength
        omega
      simpa [trimStart, hc] using hne

theorem trimEnd_eq_self_iff {cs : List Char} :
    trimEnd cs = cs ↔ ∀ c ∈ cs.getLast?, isBlank c = false := by
  have hback : trimEnd cs = cs ↔ trimStart cs.reverse = cs.reverse := by
    rw [trimEnd, ← trimStart, List.reverse_eq_iff]
  rw [hback, trimStart_eq_self_iff, List.head?_reverse]

/-- What is trimmed has no blank at either end. -/
theorem trim_eq_self_iff {cs : List Char} :
    trim cs = cs ↔ (∀ c ∈ cs.head?, isBlank c = false) ∧ ∀ c ∈ cs.getLast?, isBlank c = false := by
  rw [← trimStart_eq_self_iff, ← trimEnd_eq_self_iff]
  constructor
  · intro h
    have hstart : trimStart cs = cs := by
      rw [← h]
      exact trimStart_trim cs
    exact ⟨hstart, by rwa [trim, hstart] at h⟩
  · rintro ⟨hstart, hend⟩
    rw [trim, hstart, hend]

/-- Text between blanks that begins and ends with other characters is what trimming leaves. -/
theorem trim_between {before cs after : List Char} (hbefore : ∀ c ∈ before, isBlank c = true)
    (hafter : ∀ c ∈ after, isBlank c = true) (hne : cs ≠ []) (hcs : trim cs = cs) :
    trim (before ++ (cs ++ after)) = cs := by
  obtain ⟨hhead, hlast⟩ := trim_eq_self_iff.mp hcs
  have hstart : trimStart (cs ++ after) = cs ++ after := by
    rw [trimStart_eq_self_iff, List.head?_append_of_ne_nil _ hne]
    exact hhead
  rw [trim_blank_append hbefore, trim, hstart, trimEnd_append_blank hafter,
    trimEnd_eq_self_iff.mpr hlast]

/-- Trimmed texts at the ends keep what is between them. -/
theorem trim_join {front back : List Char} (hfront : trim front = front) (hback : trim back = back)
    (hf : front ≠ []) (hb : back ≠ []) (between : List Char) :
    trim (front ++ (between ++ back)) = front ++ (between ++ back) := by
  have hrest : between ++ back ≠ [] := by simp [hb]
  rw [trim_eq_self_iff, List.head?_append_of_ne_nil _ hf, List.getLast?_append_of_ne_nil _ hrest,
    List.getLast?_append_of_ne_nil _ hb]
  exact ⟨(trim_eq_self_iff.mp hfront).1, (trim_eq_self_iff.mp hback).2⟩

end PlaybookEngine.Text
