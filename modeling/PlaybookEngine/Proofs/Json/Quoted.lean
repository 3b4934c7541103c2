import PlaybookEngine.Json.Printer
import PlaybookEngine.Json.Reader
import Mathlib.Tactic.IntervalCases

namespace PlaybookEngine.Json

def escaped (c : Char) : List Char := (escapeChar c).toList

theorem toList_foldl_escape (cs : List Char) (out : String) :
    (cs.foldl (fun out c => out ++ escapeChar c) out).toList =
      out.toList ++ cs.flatMap escaped := by
  induction cs generalizing out with
  | nil => simp
  | cons c cs ih =>
    rw [List.foldl_cons, ih, String.toList_append, List.flatMap_cons, List.append_assoc, escaped]

theorem toList_quote (s : String) :
    (quote s).toList = '"' :: (s.toList.flatMap escaped ++ ['"']) := by
  simp only [quote, String.toList_append, toList_foldl_escape]
  rfl

/-- A character is written with a simple escape, by its number, or as it is. -/
theorem escaped_cases (c : Char) :
    (∃ e, escaped c = ['\\', e] ∧ e ≠ 'u' ∧ Reader.simpleEscape e = some c) ∨
      (escaped c = '\\' :: 'u' :: '0' :: '0' :: (hexByte c.toNat).toList ∧ c.toNat < 0x20) ∨
      (escaped c = [c] ∧ c ≠ '"' ∧ c ≠ '\\' ∧ 0x20 ≤ c.toNat) := by
  by_cases hsimple : c ∈ ['"', '\\', '\n', '\r', '\t', '\x08', '\x0c']
  · refine .inl ?_
    simp only [List.mem_cons, List.not_mem_nil, or_false] at hsimple
    rcases hsimple with rfl | rfl | rfl | rfl | rfl | rfl | rfl <;>
      exact ⟨_, rfl, by decide, rfl⟩
  · simp only [List.mem_cons, List.not_mem_nil, or_false, not_or] at hsimple
    obtain ⟨h₁, h₂, h₃, h₄, h₅, h₆, h₇⟩ := hsimple
    rw [escaped, escapeChar, if_neg h₁, if_neg h₂, if_neg h₃, if_neg h₄, if_neg h₅, if_neg h₆,
      if_neg h₇]
    by_cases hc : c.toNat < 0x20
    · rw [if_pos hc, String.toList_append]
      exact .inr (.inl ⟨rfl, hc⟩)
    · rw [if_neg hc]
      exact .inr (.inr ⟨String.toList_singleton c, h₁, h₂, Nat.le_of_not_lt hc⟩)

theorem length_escaped_pos (c : Char) : 0 < (escaped c).length := by
  rcases escaped_cases c with ⟨e, h, -⟩ | ⟨h, -⟩ | ⟨h, -⟩ <;> rw [h] <;> exact Nat.succ_pos _

theorem length_le_escaped (cs : List Char) : cs.length ≤ (cs.flatMap escaped).length := by
  induction cs with
  | nil => exact Nat.le_refl 0
  | cons c cs ih =>
    have hc := length_escaped_pos c
    rw [List.flatMap_cons, List.length_append, List.length_cons]
    omega

/-- The number of a control character is read as the character. -/
theorem unicodeEscape_hexByte {n : Nat} (hn : n < 0x20) (rest : List Char) :
    Reader.unicodeEscape ('0' :: '0' :: (hexByte n).toList ++ rest) =
      some (Char.ofNat n, rest) := by
  interval_cases n <;> rfl

namespace Reader

theorem string_quote (fuel : Nat) (rest out : List Char) :
    string (fuel + 1) ('"' :: rest) out = some (String.ofList out.reverse, rest) := by
  rw [string]

theorem string_simple {e c : Char} (hu : e ≠ 'u') (hc : simpleEscape e = some c) (fuel : Nat)
    (rest out : List Char) :
    string (fuel + 1) ('\\' :: e :: rest) out = string fuel rest (c :: out) := by
  rw [string]
  · rw [hc]
    rfl
  · exact hu

theorem string_unicode {c : Char} {cs rest : List Char} (h : unicodeEscape cs = some (c, rest))
    (fuel : Nat) (out : List Char) :
    string (fuel + 1) ('\\' :: 'u' :: cs) out = string fuel rest (c :: out) := by
  rw [string, h]
  rfl

theorem string_plain {c : Char} (hquote : c ≠ '"') (hslash : c ≠ '\\') (hc : 0x20 ≤ c.toNat)
    (fuel : Nat) (rest out : List Char) :
    string (fuel + 1) (c :: rest) out = string fuel rest (c :: out) := by
  rw [string]
  · rw [if_neg]
    simp only [Bool.or_eq_true, decide_eq_true_eq, not_or, not_lt]
    exact ⟨hc, hslash⟩
  · exact hquote
  · exact fun _ h => absurd h hslash
  · exact fun _ _ h => absurd h hslash

/-- One step reads one written character. -/
theorem string_escaped (c : Char) (fuel : Nat) (rest out : List Char) :
    string (fuel + 1) (escaped c ++ rest) out = string fuel rest (c :: out) := by
  rcases escaped_cases c with ⟨e, h, hu, hc⟩ | ⟨h, hc⟩ | ⟨h, hquote, hslash, hc⟩
  · rw [h]
    exact string_simple hu hc fuel rest out
  · have read := unicodeEscape_hexByte hc rest
    rw [Char.ofNat_toNat] at read
    rw [h]
    exact string_unicode read fuel out
  · rw [h]
    exact string_plain hquote hslash hc fuel rest out

/-- A written text is read back up to its closing quote. -/
theorem string_flatMap_escaped (cs : List Char) {fuel : Nat} (hfuel : cs.length < fuel)
    (rest out : List Char) :
    string fuel (cs.flatMap escaped ++ '"' :: rest) out =
      some (String.ofList (out.reverse ++ cs), rest) := by
  induction cs generalizing fuel out with
  | nil =>
    obtain ⟨fuel, rfl⟩ := Nat.exists_eq_add_one_of_ne_zero (Nat.ne_zero_of_lt hfuel)
    rw [List.flatMap_nil, List.nil_append, string_quote, List.append_nil]
  | cons c cs ih =>
    obtain ⟨fuel, rfl⟩ := Nat.exists_eq_add_one_of_ne_zero (Nat.ne_zero_of_lt hfuel)
    rw [List.flatMap_cons, List.append_assoc, string_escaped, ih (Nat.lt_of_succ_lt_succ hfuel),
      List.reverse_cons, List.append_assoc, List.singleton_append]

/-- A quoted text is read back, with as many steps as there are characters left. -/
theorem string_quoted (s : String) (rest : List Char) :
    string ((s.toList.flatMap escaped ++ '"' :: rest).length + 1)
      (s.toList.flatMap escaped ++ '"' :: rest) [] = some (s, rest) := by
  have hlength := length_le_escaped s.toList
  rw [string_flatMap_escaped, List.reverse_nil, List.nil_append, String.ofList_toList]
  rw [List.length_append]
  omega

end Reader

end PlaybookEngine.Json
