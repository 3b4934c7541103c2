import PlaybookEngine.Proofs.Json.Layout

namespace PlaybookEngine.Json

mutual

/-- The value holds no floats, and no integers that are read as floats. -/
def Exact : Json → Prop
  | .int i => -0x8000_0000_0000_0000 ≤ i ∧ i < 0x1_0000_0000_0000_0000
  | .float _ => False
  | .arr items => ExactItems items
  | .obj fields => ExactFields fields
  | _ => True

def ExactItems : List Json → Prop
  | [] => True
  | v :: vs => Exact v ∧ ExactItems vs

def ExactFields : List (String × Json) → Prop
  | [] => True
  | (_, v) :: fs => Exact v ∧ ExactFields fs

end

mutual

/-- How deep lists and objects are nested. -/
def levels : Json → Nat
  | .arr items => levelsItems items + 1
  | .obj fields => levelsFields fields + 1
  | _ => 0

def levelsItems : List Json → Nat
  | [] => 0
  | v :: vs => max (levels v) (levelsItems vs)

def levelsFields : List (String × Json) → Nat
  | [] => 0
  | (_, v) :: fs => max (levels v) (levelsFields fs)

end

namespace Reader

theorem skipBlanks_append {gap : List Char} (h : ∀ c ∈ gap, c = ' ' ∨ c = '\n') (cs : List Char) :
    skipBlanks (gap ++ cs) = skipBlanks cs := by
  refine List.dropWhile_append_of_pos fun c hc => ?_
  rcases h c hc with rfl | rfl <;> rfl

/-- A numeral is not continued by what follows. -/
def EndsNumeral (rest : List Char) : Prop :=
  ∀ c ∈ rest.head?, c.isDigit = false ∧ c ≠ '.' ∧ c ≠ 'e' ∧ c ≠ 'E'

theorem scan_toDigits (n : Nat) {rest : List Char} (hrest : EndsNumeral rest) :
    Numeral.scan (Nat.toDigits 10 n ++ rest) =
      some (⟨Nat.toDigits 10 n, [], 0, false, false⟩, rest) := by
  have hspan : spanDigits (Nat.toDigits 10 n ++ rest) = (Nat.toDigits 10 n, rest) :=
    spanDigits_of_digits (fun _ => isDigit_of_mem_toDigits) fun c hc => (hrest c hc).1
  have hfraction : Numeral.scanFraction rest = (([], false), rest) := by
    rw [Numeral.scanFraction]
    rintro cs rfl
    exact (hrest '.' rfl).2.1 rfl
  have hexponent : Numeral.scanExponent rest = some ((0, false), rest) := by
    cases rest with
    | nil => rfl
    | cons c cs =>
      obtain ⟨-, -, he, hE⟩ := hrest c rfl
      simp only [Numeral.scanExponent, if_neg (not_or.mpr ⟨he, hE⟩)]
  simp only [Numeral.scan, hspan, hfraction, hexponent]

/-- Digits with no zero in front, but for zero itself. -/
theorem not_leadingZero (n : Nat) :
    ¬ ((Nat.toDigits 10 n).head? = some '0' ∧ (Nat.toDigits 10 n).length ≠ 1) := by
  rintro ⟨hhead, hlength⟩
  rw [toDigits_of_head?_zero hhead] at hlength
  exact hlength rfl

theorem toDigits_eq_cons (n : Nat) :
    ∃ c ds, Nat.toDigits 10 n = c :: ds ∧ c.isDigit = true := by
  obtain ⟨c, ds, h⟩ := List.exists_cons_of_ne_nil (Nat.toDigits_ne_nil (n := n) (b := 10))
  exact ⟨c, ds, h, isDigit_of_mem_toDigits (h ▸ List.mem_cons_self)⟩

theorem number_toDigits {n : Nat} (hn : n < 0x1_0000_0000_0000_0000) {rest : List Char}
    (hrest : EndsNumeral rest) : number (Nat.toDigits 10 n ++ rest) = some (.int n, rest) := by
  have hin : inNat64 (n : Int) = true := by
    simp only [inNat64, decide_eq_true_eq]
    omega
  have hscan := scan_toDigits n hrest
  unfold number
  split
  rename_i neg cs heq
  obtain ⟨rfl, rfl⟩ : neg = false ∧ cs = Nat.toDigits 10 n ++ rest := by
    obtain ⟨c, ds, hds, hc⟩ := toDigits_eq_cons n
    split at heq
    · rename_i hminus
      rw [hds, List.cons_append] at hminus
      rw [(List.cons.inj hminus).1] at hc
      cases hc
    · exact ⟨(Prod.mk.inj heq).1.symm, (Prod.mk.inj heq).2.symm⟩
  simp [hscan, Nat.toDigits_ne_nil, digitsValue_toDigits, hin, not_leadingZero]

theorem number_negative {n : Nat} (hpos : n ≠ 0) (hn : n ≤ 0x8000_0000_0000_0000)
    {rest : List Char} (hrest : EndsNumeral rest) :
    number ('-' :: (Nat.toDigits 10 n ++ rest)) = some (.int (-n), rest) := by
  have hin : inInt64 (-(n : Int)) = true := by
    simp only [inInt64, decide_eq_true_eq]
    omega
  have hscan := scan_toDigits n hrest
  unfold number
  simp [hscan, Nat.toDigits_ne_nil, digitsValue_toDigits, hin, not_leadingZero, hpos]

theorem value_gap {gap : List Char} (h : ∀ c ∈ gap, c = ' ' ∨ c = '\n') (fuel depth : Nat)
    (cs : List Char) : value fuel depth (gap ++ cs) = value fuel depth cs := by
  cases fuel with
  | zero => rw [value, value]
  | succ fuel => rw [value, value, skipBlanks_append h]

theorem items_gap {gap : List Char} (h : ∀ c ∈ gap, c = ' ' ∨ c = '\n') (fuel depth : Nat)
    (cs : List Char) (out : List Json) :
    items fuel depth (gap ++ cs) out = items fuel depth cs out := by
  cases fuel with
  | zero => rw [items, items]
  | succ fuel => rw [items, items, value_gap h]

theorem fields_gap {gap : List Char} (h : ∀ c ∈ gap, c = ' ' ∨ c = '\n') (fuel depth : Nat)
    (cs : List Char) (out : Fields Json) :
    fields fuel depth (gap ++ cs) out = fields fuel depth cs out := by
  cases fuel with
  | zero => rw [fields, fields]
  | succ fuel => rw [fields, fields, skipBlanks_append h]

theorem value_null (fuel depth : Nat) (rest : List Char) :
    value (fuel + 1) depth ("null".toList ++ rest) = some (.null, rest) := by
  rw [value]
  rfl

theorem value_bool (b : Bool) (fuel depth : Nat) (rest : List Char) :
    value (fuel + 1) depth ((if b then "true" else "false").toList ++ rest) =
      some (.bool b, rest) := by
  rw [value]
  cases b <;> rfl

theorem value_quote (s : String) (fuel depth : Nat) (rest : List Char) :
    value (fuel + 1) depth ((quote s).toList ++ rest) = some (.str s, rest) := by
  have hskip : skipBlanks ((quote s).toList ++ rest) =
      '"' :: (s.toList.flatMap escaped ++ '"' :: rest) := by
    rw [toList_quote]
    simp [skipBlanks]
  rw [value, hskip]
  change Option.map _ (string ((s.toList.flatMap escaped ++ '"' :: rest).length + 1) _ []) = _
  rw [string_quoted]
  rfl

/-- What starts like a number is read as one. -/
theorem value_number {c : Char} (hc : c.isDigit = true ∨ c = '-') (fuel depth : Nat)
    (cs : List Char) : value (fuel + 1) depth (c :: cs) = number (c :: cs) := by
  have hskip : skipBlanks (c :: cs) = c :: cs := by
    refine List.dropWhile_cons_of_neg ?_
    rcases hc with hc | rfl
    · simp only [Bool.or_eq_true, decide_eq_true_eq]
      rintro (((rfl | rfl) | rfl) | rfl) <;> cases hc
    · decide
  have other (d : Char) (hd : d.isDigit = false) (hminus : d ≠ '-') (cs' : List Char)
      (h : skipBlanks (c :: cs) = d :: cs') : False := by
    rw [hskip] at h
    obtain rfl := (List.cons.inj h).1
    rcases hc with hc | hc
    · rw [hd] at hc
      cases hc
    · exact hminus hc
  rw [value]
  split
  · exact (other 'n' rfl (by decide) _ ‹_›).elim
  · exact (other 't' rfl (by decide) _ ‹_›).elim
  · exact (other 'f' rfl (by decide) _ ‹_›).elim
  · exact (other '"' rfl (by decide) _ ‹_›).elim
  · exact (other '[' rfl (by decide) _ ‹_›).elim
  · exact (other '\x7b' rfl (by decide) _ ‹_›).elim
  · rw [hskip]

/-- An integer is written in digits, after a sign when it is negative. -/
theorem toList_int (i : Int) :
    ∃ n : Nat, (i = n ∧ (toString i).toList = Nat.toDigits 10 n) ∨
      (i = -(n : Int) ∧ n ≠ 0 ∧ (toString i).toList = '-' :: Nat.toDigits 10 n) := by
  cases i with
  | ofNat n => exact ⟨n, .inl ⟨rfl, toList_repr n⟩⟩
  | negSucc n =>
    refine ⟨n + 1, .inr ⟨Int.negSucc_eq n, Nat.succ_ne_zero n, ?_⟩⟩
    change ("-" ++ Nat.repr (n + 1)).toList = _
    rw [String.toList_append, toList_repr]
    rfl

theorem value_int {i : Int} (hi : (Json.int i).Exact) (fuel depth : Nat) {rest : List Char}
    (hrest : EndsNumeral rest) :
    value (fuel + 1) depth ((toString i).toList ++ rest) = some (.int i, rest) := by
  rw [Exact] at hi
  obtain ⟨n, ⟨hin, htext⟩ | ⟨hin, hpos, htext⟩⟩ := toList_int i
  · obtain ⟨c, ds, hds, hc⟩ := toDigits_eq_cons n
    rw [htext, hds, List.cons_append, value_number (.inl hc), ← List.cons_append, ← hds,
      number_toDigits (by omega) hrest, hin]
  · rw [htext, List.cons_append, value_number (.inr rfl),
      number_negative hpos (by omega) hrest, hin]

/-- Blanks may stand before what closes a list or an object, or before its next part. -/
theorem endsNumeral_gap {gap : List Char} (hgap : ∀ c ∈ gap, c = ' ' ∨ c = '\n') {c : Char}
    (hc : c = ',' ∨ c = ']' ∨ c = '\x7d') (cs : List Char) : EndsNumeral (gap ++ c :: cs) := by
  intro d hd
  have hd : d = ' ' ∨ d = '\n' ∨ d = c := by
    cases gap with
    | nil => exact .inr (.inr (Option.some.inj hd).symm)
    | cons b bs =>
      obtain rfl : b = d := Option.some.inj hd
      exact (hgap b List.mem_cons_self).imp_right .inl
  rcases hd with rfl | rfl | rfl
  · decide
  · decide
  · rcases hc with rfl | rfl | rfl <;> decide

theorem endsNumeral_comma (cs : List Char) : EndsNumeral (',' :: cs) :=
  @endsNumeral_gap [] (fun _ hc => absurd hc List.not_mem_nil) ',' (.inl rfl) cs

theorem skipBlanks_gap {gap : List Char} (hgap : ∀ c ∈ gap, c = ' ' ∨ c = '\n') {c : Char}
    (hc : c = ',' ∨ c = ']' ∨ c = '\x7d') (cs : List Char) :
    skipBlanks (gap ++ c :: cs) = c :: cs := by
  rw [skipBlanks_append hgap]
  rcases hc with rfl | rfl | rfl <;> rfl

variable (l : Layout) {d : Nat}

/-- The text of the value is read back, whatever may follow it. -/
def Reads (d : Nat) (v : Json) : Prop :=
  ∀ fuel depth rest, (l.render d v).length ≤ fuel → v.levels ≤ depth → EndsNumeral rest →
    value fuel depth (l.render d v ++ rest) = some (v, rest)

theorem items_of_reads (vs : List Json) (v : Json) (h : ∀ w ∈ v :: vs, Reads l d w)
    {gap : List Char} (hgap : ∀ c ∈ gap, c = ' ' ∨ c = '\n') (fuel depth : Nat)
    (hfuel : (l.render d v ++ l.renderItems d vs).length < fuel)
    (hdepth : levelsItems (v :: vs) ≤ depth) (rest : List Char) (out : List Json) :
    items fuel depth (l.render d v ++ (l.renderItems d vs ++ (gap ++ ']' :: rest))) out =
      some (.arr (out.reverse ++ v :: vs), rest) := by
  induction vs generalizing v fuel out with
  | nil =>
    obtain ⟨fuel, rfl⟩ := Nat.exists_eq_add_one_of_ne_zero (Nat.ne_zero_of_lt hfuel)
    rw [List.length_append] at hfuel
    rw [levelsItems] at hdepth
    have hread := h v List.mem_cons_self fuel depth _ (by omega) (by omega)
      (endsNumeral_gap hgap (.inr (.inl rfl)) rest)
    simp only [items, Layout.renderItems, List.nil_append, hread, Option.bind_eq_bind,
      Option.bind_some, skipBlanks_gap hgap (.inr (.inl rfl)), List.reverse_cons]
  | cons w ws ih =>
    obtain ⟨fuel, rfl⟩ := Nat.exists_eq_add_one_of_ne_zero (Nat.ne_zero_of_lt hfuel)
    rw [Layout.renderItems, List.length_append, List.length_cons, List.length_append] at hfuel
    rw [levelsItems] at hdepth
    have hread := h v List.mem_cons_self fuel depth
      (',' :: (l.gap d ++ (l.render d w ++ (l.renderItems d ws ++ (gap ++ ']' :: rest)))))
      (by omega) (by omega) (endsNumeral_comma _)
    have hrest := ih w (fun u hu => h u (List.mem_cons_of_mem _ hu)) fuel (by omega)
      (by omega) (v :: out)
    have hskip (cs : List Char) : skipBlanks (',' :: cs) = ',' :: cs := rfl
    simp only [items, Layout.renderItems, List.cons_append, List.append_assoc, hread,
      Option.bind_eq_bind, Option.bind_some, hskip]
    rw [items_gap (l.blank_gap d), hrest, List.reverse_cons, List.append_assoc]
    rfl

theorem string_quote_append (k : String) (rest : List Char) :
    skipBlanks ((quote k).toList ++ rest) = '"' :: (k.toList.flatMap escaped ++ '"' :: rest) := by
  rw [toList_quote, List.cons_append, List.append_assoc]
  rfl

/-- A field is read up to what follows its value. -/
theorem fields_field {k : String} {v : Json} {fuel depth : Nat} {cs rest : List Char}
    (hread : value fuel depth cs = some (v, rest)) (out : Fields Json) :
    fields (fuel + 1) depth ((quote k).toList ++ ':' :: cs) out =
      match skipBlanks rest with
      | ',' :: rest => fields fuel depth rest (Fields.insert k v out)
      | '\x7d' :: rest => some (.obj (Fields.insert k v out), rest)
      | _ => none := by
  rw [fields, string_quote_append]
  change (string ((k.toList.flatMap escaped ++ '"' :: ':' :: cs).length + 1) _ []).bind _ = _
  rw [string_quoted, Option.bind_some]
  change (value fuel depth cs).bind _ = _
  rw [hread]
  rfl

theorem fields_of_reads (fs : List (String × Json)) (k : String) (v : Json)
    (h : ∀ p ∈ (k, v) :: fs, Reads l d p.2) {gap : List Char}
    (hgap : ∀ c ∈ gap, c = ' ' ∨ c = '\n') (fuel depth : Nat)
    (hfuel : (l.render d v ++ l.renderFields d fs).length < fuel)
    (hdepth : levelsFields ((k, v) :: fs) ≤ depth) (rest : List Char) (pre : Fields Json)
    (hordered : Fields.Ordered (pre ++ (k, v) :: fs)) :
    fields fuel depth ((quote k).toList ++ ':' :: (l.colonGap ++ (l.render d v ++
        (l.renderFields d fs ++ (gap ++ '\x7d' :: rest))))) pre =
      some (.obj (pre ++ (k, v) :: fs), rest) := by
  have hinsert : Fields.insert k v pre = pre ++ [(k, v)] :=
    Fields.insert_of_lt (fun p hp => (List.pairwise_append.mp hordered).2.2 p hp _
      List.mem_cons_self) v
  have hv : Reads l d v := h (k, v) List.mem_cons_self
  induction fs generalizing k v fuel pre with
  | nil =>
    obtain ⟨fuel, rfl⟩ := Nat.exists_eq_add_one_of_ne_zero (Nat.ne_zero_of_lt hfuel)
    rw [List.length_append] at hfuel
    rw [levelsFields] at hdepth
    have hread := hv fuel depth _ (by omega) (by omega)
      (endsNumeral_gap hgap (.inr (.inr rfl)) rest)
    rw [← value_gap l.blank_colonGap] at hread
    rw [Layout.renderFields, List.nil_append, fields_field hread,
      skipBlanks_gap hgap (.inr (.inr rfl)), ← hinsert]
    rfl
  | cons f fs ih =>
    obtain ⟨j, w⟩ := f
    obtain ⟨fuel, rfl⟩ := Nat.exists_eq_add_one_of_ne_zero (Nat.ne_zero_of_lt hfuel)
    rw [Layout.renderFields, List.length_append, List.length_cons, List.length_append,
      List.length_append, List.length_cons, List.length_append] at hfuel
    rw [levelsFields] at hdepth
    have hread := hv fuel depth
      (',' :: (l.gap d ++ ((quote j).toList ++ ':' :: (l.colonGap ++ (l.render d w ++
        (l.renderFields d fs ++ (gap ++ '\x7d' :: rest)))))))
      (by omega) (by omega) (endsNumeral_comma _)
    rw [← value_gap l.blank_colonGap] at hread
    have hskip (cs : List Char) : skipBlanks (',' :: cs) = ',' :: cs := rfl
    have hordered' : Fields.Ordered ((pre ++ [(k, v)]) ++ (j, w) :: fs) := by
      rw [List.append_assoc]
      exact hordered
    have hrest := ih j w (fun p hp => h p (List.mem_cons_of_mem _ hp)) fuel (by omega)
      (by omega) (pre ++ [(k, v)]) hordered' (Fields.insert_of_lt (fun p hp =>
        (List.pairwise_append.mp hordered').2.2 p hp _ List.mem_cons_self) w)
      (h (j, w) (List.mem_cons_of_mem _ List.mem_cons_self))
    simp only [Layout.renderFields, List.cons_append, List.append_assoc]
    rw [fields_field hread, hskip]
    change fields fuel depth (l.gap d ++ _) (Fields.insert k v pre) = _
    rw [fields_gap (l.blank_gap d), hinsert, hrest, List.append_assoc]
    rfl

/-- A text of a value starts with no blank and closes nothing. -/
def StartsValue (c : Char) : Prop :=
  c ≠ ' ' ∧ c ≠ '\n' ∧ c ≠ '\t' ∧ c ≠ '\r' ∧ c ≠ ']'

instance (c : Char) : Decidable (StartsValue c) := inferInstanceAs (Decidable (_ ∧ _))

theorem startsValue_of_isDigit {c : Char} (h : c.isDigit = true) : StartsValue c := by
  refine ⟨?_, ?_, ?_, ?_, ?_⟩ <;> rintro rfl <;> cases h

theorem render_eq_cons {v : Json} (hv : v.Exact) (d : Nat) :
    ∃ c cs, l.render d v = c :: cs ∧ StartsValue c := by
  cases v with
  | null => exact ⟨'n', _, rfl, by decide⟩
  | bool b => cases b <;> exact ⟨_, _, rfl, by decide⟩
  | int i =>
    rw [Layout.render]
    obtain ⟨n, ⟨-, htext⟩ | ⟨-, -, htext⟩⟩ := toList_int i
    · obtain ⟨c, ds, hds, hc⟩ := toDigits_eq_cons n
      exact ⟨c, ds, htext.trans hds, startsValue_of_isDigit hc⟩
    · exact ⟨'-', _, htext, by decide⟩
  | float x => exact hv.elim
  | str s =>
    rw [Layout.render, toList_quote]
    exact ⟨'"', _, rfl, by decide⟩
  | arr vs =>
    cases vs with
    | nil => exact ⟨'[', _, rfl, by decide⟩
    | cons w ws => rw [Layout.render]; exact ⟨'[', _, rfl, by decide⟩
  | obj fs =>
    cases fs with
    | nil => exact ⟨'\x7b', _, rfl, by decide⟩
    | cons f fs => rw [Layout.render]; exact ⟨'\x7b', _, rfl, by decide⟩

theorem skipBlanks_render {v : Json} (hv : v.Exact) (d : Nat) (rest : List Char) :
    skipBlanks (l.render d v ++ rest) = l.render d v ++ rest := by
  obtain ⟨c, cs, h, hblank, hline, htab, hreturn, -⟩ := render_eq_cons l hv d
  rw [h]
  refine List.dropWhile_cons_of_neg ?_
  simp only [Bool.or_eq_true, decide_eq_true_eq, not_or]
  exact ⟨⟨⟨hblank, hline⟩, htab⟩, hreturn⟩

/-- A list is read from its bracket on, one level deeper. -/
theorem value_bracket {fuel depth : Nat} {cs : List Char}
    (h : ∀ rest, skipBlanks cs ≠ ']' :: rest) :
    value (fuel + 1) (depth + 1) ('[' :: cs) = items fuel depth (skipBlanks cs) [] := by
  have hskip : skipBlanks ('[' :: cs) = '[' :: cs := rfl
  simp only [value, hskip]
  exact if_neg (Nat.succ_ne_zero depth)

/-- An object is read from its brace on, one level deeper. -/
theorem value_brace {fuel depth : Nat} {cs : List Char}
    (h : ∀ rest, skipBlanks cs ≠ '\x7d' :: rest) :
    value (fuel + 1) (depth + 1) ('\x7b' :: cs) = fields fuel depth (skipBlanks cs) [] := by
  have hskip : skipBlanks ('\x7b' :: cs) = '\x7b' :: cs := rfl
  simp only [value, hskip]
  exact if_neg (Nat.succ_ne_zero depth)

theorem reads_arr {vs : List Json} (hexact : ExactItems vs) (h : ∀ v ∈ vs, Reads l (d + 1) v) :
    Reads l d (.arr vs) := by
  intro fuel depth rest hfuel hdepth hrest
  rw [levels] at hdepth
  obtain ⟨depth, rfl⟩ := Nat.exists_eq_add_one_of_ne_zero (n := depth) (by omega)
  cases vs with
  | nil =>
    rw [Layout.render, List.length_cons] at hfuel
    obtain ⟨fuel, rfl⟩ := Nat.exists_eq_add_one_of_ne_zero (n := fuel) (by omega)
    rw [Layout.render, value]
    rfl
  | cons w ws =>
    rw [ExactItems] at hexact
    rw [Layout.render, List.length_cons, List.length_append, List.length_append,
      List.length_append, List.length_append] at hfuel
    obtain ⟨fuel, rfl⟩ := Nat.exists_eq_add_one_of_ne_zero (n := fuel) (by omega)
    have hskip (cs : List Char) : skipBlanks (l.gap (d + 1) ++ (l.render (d + 1) w ++ cs)) =
        l.render (d + 1) w ++ cs := by
      rw [skipBlanks_append (l.blank_gap (d + 1)), skipBlanks_render l hexact.1]
    have hopen (cs rest) : skipBlanks (l.gap (d + 1) ++ (l.render (d + 1) w ++ cs)) ≠
        ']' :: rest := by
      obtain ⟨c, cs', hcons, -, -, -, -, hc⟩ := render_eq_cons l hexact.1 (d + 1)
      rw [hskip, hcons]
      exact fun heq => hc (List.cons.inj heq).1
    have hitems := items_of_reads l ws w h (l.blank_gap d) fuel depth
      (by rw [List.length_append]; rw [List.length_singleton] at hfuel; omega) (by omega) rest []
    rw [Layout.render]
    simp only [List.cons_append, List.append_assoc, List.nil_append]
    rw [value_bracket (hopen _), hskip, hitems]
    rfl

theorem reads_obj {fs : List (String × Json)} (hordered : Fields.Ordered fs)
    (h : ∀ p ∈ fs, Reads l (d + 1) p.2) : Reads l d (.obj fs) := by
  intro fuel depth rest hfuel hdepth hrest
  rw [levels] at hdepth
  obtain ⟨depth, rfl⟩ := Nat.exists_eq_add_one_of_ne_zero (n := depth) (by omega)
  cases fs with
  | nil =>
    rw [Layout.render, List.length_cons] at hfuel
    obtain ⟨fuel, rfl⟩ := Nat.exists_eq_add_one_of_ne_zero (n := fuel) (by omega)
    rw [Layout.render, value]
    rfl
  | cons f fs =>
    obtain ⟨k, w⟩ := f
    rw [Layout.render] at hfuel ⊢
    simp only [List.length_cons, List.length_append] at hfuel
    obtain ⟨fuel, rfl⟩ := Nat.exists_eq_add_one_of_ne_zero (n := fuel) (by omega)
    have hskip (cs : List Char) : skipBlanks (l.gap (d + 1) ++ ((quote k).toList ++ cs)) =
        (quote k).toList ++ cs := by
      rw [skipBlanks_append (l.blank_gap (d + 1)), string_quote_append, toList_quote,
        List.cons_append, List.append_assoc]
      rfl
    have hopen (cs rest) : skipBlanks (l.gap (d + 1) ++ ((quote k).toList ++ cs)) ≠
        '\x7d' :: rest := by
      rw [skipBlanks_append (l.blank_gap (d + 1)), string_quote_append]
      exact fun heq => absurd (List.cons.inj heq).1 (by decide)
    have hfields := fields_of_reads l fs k w h (l.blank_gap d) fuel depth
      (by rw [List.length_append]; omega) (by omega) rest [] hordered
    simp only [List.cons_append, List.append_assoc, List.nil_append]
    rw [value_brace (hopen _), hskip, hfields]
    rfl

mutual

theorem reads (d : Nat) (v : Json) (hexact : v.Exact) (hordered : v.Ordered) : Reads l d v := by
  have leaf (h : ∀ fuel depth rest, EndsNumeral rest →
      value (fuel + 1) depth (l.render d v ++ rest) = some (v, rest)) : Reads l d v := by
    intro fuel depth rest hfuel _ hrest
    obtain ⟨c, cs, hcons, -⟩ := render_eq_cons l hexact d
    rw [hcons, List.length_cons] at hfuel
    obtain ⟨fuel, rfl⟩ := Nat.exists_eq_add_one_of_ne_zero (n := fuel) (by omega)
    exact h fuel depth rest hrest
  cases v with
  | null => exact leaf fun fuel depth rest _ => value_null fuel depth rest
  | bool b => exact leaf fun fuel depth rest _ => value_bool b fuel depth rest
  | int i => exact leaf fun fuel depth rest hrest => value_int hexact fuel depth hrest
  | float x => exact hexact.elim
  | str s =>
    refine leaf fun fuel depth rest _ => ?_
    rw [Layout.render]
    exact value_quote s fuel depth rest
  | arr vs =>
    rw [Exact] at hexact
    rw [Json.Ordered] at hordered
    exact reads_arr l hexact (reads_items (d + 1) vs hexact hordered)
  | obj fs =>
    rw [Exact] at hexact
    rw [Json.Ordered] at hordered
    exact reads_obj l hordered.1 (reads_fields (d + 1) fs hexact hordered.2)

theorem reads_items (d : Nat) (vs : List Json) (hexact : ExactItems vs)
    (hordered : OrderedItems vs) : ∀ v ∈ vs, Reads l d v := by
  cases vs with
  | nil => nofun
  | cons w ws =>
    rw [ExactItems] at hexact
    rw [OrderedItems] at hordered
    intro v hv
    rcases List.mem_cons.mp hv with hw | hv
    · rw [hw]
      exact reads d w hexact.1 hordered.1
    · exact reads_items d ws hexact.2 hordered.2 v hv

theorem reads_fields (d : Nat) (fs : List (String × Json)) (hexact : ExactFields fs)
    (hordered : OrderedFields fs) : ∀ p ∈ fs, Reads l d p.2 := by
  cases fs with
  | nil => nofun
  | cons f fs =>
    obtain ⟨k, w⟩ := f
    rw [ExactFields] at hexact
    rw [OrderedFields] at hordered
    intro p hp
    rcases List.mem_cons.mp hp with hw | hp
    · rw [hw]
      exact reads d w hexact.1 hordered.1
    · exact reads_fields d fs hexact.2 hordered.2 p hp

end

end Reader

theorem read_of_render (l : Layout) {v : Json} (hexact : v.Exact) (hordered : v.Ordered)
    (hlevels : v.levels ≤ 127) {text : String} (htext : text.toList = l.render 0 v) :
    read text = some v := by
  have hread := Reader.reads l 0 v hexact hordered (2 * text.toList.length + 2) 127 []
    (by rw [htext]; omega) hlevels nofun
  rw [List.append_nil, ← htext] at hread
  simp only [read, hread]
  rfl

/-- What is written without blanks is read back. -/
theorem read_compact {v : Json} (hexact : v.Exact) (hordered : v.Ordered)
    (hlevels : v.levels ≤ 127) : read v.compact = some v :=
  read_of_render .tight hexact hordered hlevels (Layout.render_tight 0 v).symm

/-- What is written with line breaks is read back. -/
theorem read_pretty {v : Json} (hexact : v.Exact) (hordered : v.Ordered)
    (hlevels : v.levels ≤ 127) : read v.pretty = some v :=
  read_of_render .indented hexact hordered hlevels (Layout.render_indented 0 v).symm

end PlaybookEngine.Json
