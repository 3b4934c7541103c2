import PlaybookEngine.Proofs.Number.Digits
import PlaybookEngine.Proofs.Time.Calendar

namespace PlaybookEngine.Timestamp

/-- A clock can show the time: it is no leap second, and in a year that the reader takes. -/
def Shown (t : Timestamp) : Prop :=
  t.nanos < 1000000000 ∧ -262143 ≤ (dateFromDays (t.secs / 86400)).1 ∧
    (dateFromDays (t.secs / 86400)).1 ≤ 262142

instance (t : Timestamp) : Decidable t.Shown := inferInstanceAs (Decidable (_ ∧ _))

theorem trimStart_of_not_blank {c : Char} (h : Text.isBlank c = false) (cs : List Char) :
    Text.trimStart (c :: cs) = c :: cs :=
  List.dropWhile_cons_of_neg (by rw [h]; decide)

theorem isBlank_of_isDigit {c : Char} (h : c.isDigit = true) : Text.isBlank c = false := by
  simp only [Char.isDigit, Bool.and_eq_true, decide_eq_true_eq] at h
  have hlo : 48 ≤ c.toNat := h.1
  have hhi : c.toNat ≤ 57 := h.2
  simp only [Text.isBlank, Bool.or_eq_false_iff, Bool.and_eq_false_iff, decide_eq_false_iff_not,
    beq_eq_false_iff_ne]
  omega

/-- Digits are read up to a width, or up to where they end. -/
theorem number_of_digits {width : Nat} {ds rest : List Char} (hds : ∀ c ∈ ds, c.isDigit = true)
    (hne : ds ≠ []) (hlength : ds.length ≤ width)
    (hrest : ds.length = width ∨ EndsDigits rest) :
    number width (ds ++ rest) = some (digitsValue ds, rest) := by
  have htrim : Text.trimStart (ds ++ rest) = ds ++ rest := by
    obtain ⟨c, cs, rfl⟩ := List.exists_cons_of_ne_nil hne
    exact trimStart_of_not_blank (isBlank_of_isDigit (hds c List.mem_cons_self)) _
  have htake : ((ds ++ rest).take width).takeWhile Char.isDigit = ds := by
    rw [List.take_append, List.take_of_length_le hlength, List.takeWhile_append_of_pos hds]
    rcases hrest with heq | hend
    · rw [heq, Nat.sub_self, List.take_zero]
      exact List.append_nil ds
    · cases rest with
      | nil => rw [List.take_nil]; exact List.append_nil ds
      | cons c cs =>
        cases hw : width - ds.length with
        | zero => rw [List.take_zero]; exact List.append_nil ds
        | succ w =>
          rw [List.take_succ_cons, List.takeWhile_cons_of_neg (by rw [hend c rfl]; decide),
            List.append_nil]
  simp only [number, htrim, htake, if_neg hne, List.drop_left]

theorem toList_padded (width n : Nat) : (padded width n).toList =
    List.replicate (width - (Nat.toDigits 10 n).length) '0' ++ Nat.toDigits 10 n :=
  String.toList_ofList

theorem isDigit_of_mem_padded {width n : Nat} {c : Char} (h : c ∈ (padded width n).toList) :
    c.isDigit = true := by
  rw [toList_padded, List.mem_append] at h
  rcases h with h | h
  · rw [(List.mem_replicate.mp h).2]
    rfl
  · exact isDigit_of_mem_toDigits h

theorem digitsValue_toList_padded (width n : Nat) : digitsValue (padded width n).toList = n := by
  rw [toList_padded, digitsValue_padded]

theorem padded_ne_nil (width n : Nat) : (padded width n).toList ≠ [] := by
  rw [toList_padded]
  exact List.append_ne_nil_of_right_ne_nil _ Nat.toDigits_ne_nil

theorem length_padded (width n : Nat) (hwidth : 0 < width) (h : n < Nat.pow 10 width) :
    (padded width n).toList.length = width := by
  have hle : (Nat.toDigits 10 n).length ≤ width :=
    (Nat.length_toDigits_le_iff (by decide) hwidth).mpr h
  rw [toList_padded, List.length_append, List.length_replicate]
  omega

/-- A number is read back from as many digits as it is padded to. -/
theorem number_padded (width n : Nat) (hwidth : 0 < width) (h : n < Nat.pow 10 width)
    (rest : List Char) : number width ((padded width n).toList ++ rest) = some (n, rest) := by
  have hlength := length_padded width _ hwidth h
  rw [number_of_digits (fun _ => isDigit_of_mem_padded) (padded_ne_nil width n) hlength.le
    (.inl hlength), digitsValue_toList_padded]

/-- A number of any size is read back up to where its digits end. -/
theorem number_all (width n : Nat) {rest : List Char} (hrest : EndsDigits rest) :
    number ((padded width n).toList ++ rest).length ((padded width n).toList ++ rest) =
      some (n, rest) := by
  rw [number_of_digits (fun _ => isDigit_of_mem_padded) (padded_ne_nil width n)
    (by rw [List.length_append]; omega) (.inr hrest), digitsValue_toList_padded]

theorem year_minus (cs : List Char) :
    year ('-' :: cs) = (number cs.length cs).map fun x => (-(x.1 : Int), x.2) := by
  unfold year
  rw [trimStart_of_not_blank rfl]
  rfl

theorem year_plus (cs : List Char) :
    year ('+' :: cs) = (number cs.length cs).map fun x => ((x.1 : Int), x.2) := by
  unfold year
  rw [trimStart_of_not_blank rfl]
  rfl

/-- A year is read back, with its sign when it has not four digits. -/
theorem year_yearText (y : Int) {rest : List Char} (hrest : EndsDigits rest) :
    year ((yearText y).toList ++ rest) = some (y, rest) := by
  have minus : "-".toList = ['-'] := rfl
  have plus : "+".toList = ['+'] := rfl
  unfold yearText
  split
  · rename_i hy
    have hread := number_padded 4 y.toNat (by decide) (by change y.toNat < 10000; omega) rest
    obtain ⟨c, cs, hcons⟩ := List.exists_cons_of_ne_nil (padded_ne_nil 4 y.toNat)
    have hc : c.isDigit = true := isDigit_of_mem_padded (hcons ▸ List.mem_cons_self)
    have hback : ((y.toNat : Nat) : Int) = y := Int.toNat_of_nonneg hy.1
    rw [hcons, List.cons_append] at hread ⊢
    unfold year
    rw [trimStart_of_not_blank (isBlank_of_isDigit hc)]
    split
    · rename_i heq
      rw [(List.cons.inj heq).1] at hc
      cases hc
    · rename_i heq
      rw [(List.cons.inj heq).1] at hc
      cases hc
    · rw [hread]
      exact congrArg (fun i => some (i, rest)) hback
  · rename_i hy
    by_cases hneg : y < 0
    · have hback : -(y.natAbs : Int) = y := by omega
      rw [if_pos hneg, String.toList_append, minus, List.singleton_append, List.cons_append,
        year_minus, number_all 4 y.natAbs hrest, Option.map_some, hback]
    · have hback : (y.natAbs : Int) = y := by omega
      rw [if_neg hneg, String.toList_append, plus, List.singleton_append, List.cons_append,
        year_plus, number_all 4 y.natAbs hrest, Option.map_some, hback]

/-- A fraction is read back from as many digits as are exact. -/
theorem fraction_padded (width unit : Nat) {nanos : Nat} (hwidth : 0 < width) (hwidth' : width ≤ 9)
    (hunit : Nat.pow 10 (9 - width) = unit) (hexact : nanos % unit = 0)
    (h : nanos / unit < Nat.pow 10 width) {rest : List Char} (hrest : EndsDigits rest) :
    fraction (("." ++ padded width (nanos / unit)).toList ++ rest) = some (nanos, rest) := by
  have hlength := length_padded width _ hwidth h
  have hback : unit * (nanos / unit) = nanos := Nat.mul_div_cancel' (Nat.dvd_of_mod_eq_zero hexact)
  rw [String.toList_append]
  change fraction ('.' :: ((padded width (nanos / unit)).toList ++ rest)) = _
  rw [fraction, spanDigits_of_digits (fun _ => isDigit_of_mem_padded) hrest]
  dsimp only
  rw [if_neg (padded_ne_nil width _), List.take_of_length_le (hlength.le.trans hwidth'), hlength,
    digitsValue_append_zeros, digitsValue_toList_padded, hunit, hback]

theorem fraction_fractionText {nanos : Nat} (h : nanos < 1000000000) {rest : List Char}
    (hrest : EndsDigits rest) (hpoint : ∀ cs, rest ≠ '.' :: cs) :
    fraction ((fractionText nanos).toList ++ rest) = some (nanos, rest) := by
  unfold fractionText
  split
  · rename_i hzero
    rw [hzero]
    change fraction rest = _
    rw [fraction]
    exact hpoint
  split
  · rename_i hmillis
    exact fraction_padded 3 1000000 (by decide) (by decide) rfl hmillis
      (by change _ < 1000; omega) hrest
  split
  · rename_i hmicros
    exact fraction_padded 6 1000 (by decide) (by decide) rfl hmicros
      (by change _ < 1000000; omega) hrest
  · have hread := fraction_padded 9 1 (by decide) (by decide) rfl (Nat.mod_one nanos)
      (by rw [Nat.div_one]; exact h) hrest
    rw [Nat.div_one] at hread
    exact hread

/-- The text of a point in time in its parts. -/
theorem toList_text (t : Timestamp) {y : Int} {m d : Nat}
    (hdate : dateFromDays (t.secs / 86400) = (y, m, d)) (hleap : t.nanos < 1000000000) :
    t.text.toList = (yearText y).toList ++ '-' :: ((padded 2 m).toList ++ '-' ::
      ((padded 2 d).toList ++ 'T' :: ((padded 2 ((t.secs % 86400).toNat / 3600)).toList ++ ':' ::
        ((padded 2 ((t.secs % 86400).toNat / 60 % 60)).toList ++ ':' ::
          ((padded 2 ((t.secs % 86400).toNat % 60)).toList ++
            ((fractionText t.nanos).toList ++ ['Z'])))))) := by
  have hzero : t.nanos / 1000000000 = 0 := Nat.div_eq_of_lt hleap
  have hmod : t.nanos % 1000000000 = t.nanos := Nat.mod_eq_of_lt hleap
  have dash : "-".toList = ['-'] := rfl
  have timeMark : "T".toList = ['T'] := rfl
  have colon : ":".toList = [':'] := rfl
  have zoneMark : "Z".toList = ['Z'] := rfl
  simp only [text, hdate, hzero, hmod, Nat.add_zero, String.toList_append, List.append_assoc, dash,
    timeMark, colon, zoneMark, List.cons_append, List.nil_append]

theorem separator_cons {c : Char} (h : Text.isBlank c = false) (rest : List Char) :
    separator c (c :: rest) = some rest := by
  rw [separator, trimStart_of_not_blank h]
  exact if_pos rfl

/-- A point in time that a clock can show is read back from its text. -/
theorem read_text {t : Timestamp} (h : t.Shown) : read t.text = some t := by
  obtain ⟨hleap, hyear, hyear'⟩ := h
  obtain ⟨y, m, d, hdate, hm, hm', hd, hd', hdays⟩ := dateFromDays_spec (t.secs / 86400)
  rw [hdate] at hyear hyear'
  have hdlast : d ≤ 31 := hd'.trans (by unfold daysInMonth; split <;> (try split) <;> omega)
  have two (n : Nat) (hn : n < 100) (rest : List Char) :
      number 2 ((padded 2 n).toList ++ rest) = some (n, rest) :=
    number_padded 2 n (by decide) hn rest
  have hyearText (rest : List Char) :
      year ((yearText y).toList ++ '-' :: rest) = some (y, '-' :: rest) := by
    refine year_yearText y fun c hc => ?_
    rw [← Option.some.inj hc]
    rfl
  have hfraction : fraction ((fractionText t.nanos).toList ++ ['Z']) = some (t.nanos, ['Z']) := by
    refine fraction_fractionText hleap (fun c hc => ?_) nofun
    rw [← Option.some.inj hc]
    rfl
  have hdash (rest : List Char) : separator '-' ('-' :: rest) = some rest := separator_cons rfl rest
  have hcolon (rest : List Char) : separator ':' (':' :: rest) = some rest :=
    separator_cons rfl rest
  have hinDay : (t.secs % 86400).toNat < 86400 := by omega
  have hparts := toList_text t hdate hleap
  generalize hs : (t.secs % 86400).toNat = s at hinDay hparts
  have step {α β : Type} (a : α) (f : α → Option β) : (some a >>= f) = f a := rfl
  have hoffset : offset (Text.trimStart ['Z']) = some (0, []) := rfl
  have hvalid : Text.trimStart [] = [] ∧ 1 ≤ m ∧ m ≤ 12 ∧ 1 ≤ d ∧ d ≤ daysInMonth y m ∧
      s / 3600 < 24 ∧ s / 60 % 60 < 60 ∧ s % 60 ≤ 60 ∧ -262143 ≤ y ∧ y ≤ 262142 :=
    ⟨rfl, hm, hm', hd, hd', by omega, by omega, by omega, hyear, hyear'⟩
  have hnoLeap : ¬ s % 60 = 60 := by omega
  unfold read
  rw [hparts, hyearText, step]
  dsimp only
  rw [hdash, step, two m (by omega), step]
  dsimp only
  rw [hdash, step, two d (by omega), step]
  change some _ >>= _ = _
  rw [step, two (s / 3600) (by omega), step]
  dsimp only
  rw [hcolon, step, two (s / 60 % 60) (by omega), step]
  dsimp only
  rw [hcolon, step, two (s % 60) (by omega), step]
  dsimp only
  rw [hfraction, step]
  dsimp only
  rw [hoffset, step]
  dsimp only
  rw [if_pos hvalid, if_neg hnoLeap, if_neg hnoLeap, hdays]
  refine congrArg some (Timestamp.ext ?_ rfl)
  dsimp only
  omega

end PlaybookEngine.Timestamp
