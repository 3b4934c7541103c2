import PlaybookEngine.Proofs.Fields.Folded
import PlaybookEngine.Proofs.Text.Blank
import PlaybookEngine.Workflow.Template

namespace PlaybookEngine

namespace Template

open Text

def opening : List Char := ['\x7b', '\x7b']

def closing : List Char := ['\x7d', '\x7d']

/-- Where the reference looks. -/
def sourceWord (toInput : Bool) : List Char := if toInput then "inputs.".toList else "steps.".toList

/-- The field of a reference, with the point before it. -/
def fieldText : Option String → List Char
  | none => []
  | some name => '.' :: name.toList

namespace Reference

def path (r : Reference) : List Char := sourceWord r.toInput ++ (r.name.toList ++ fieldText r.field)

/-- The names of the reference are those that can be written. -/
structure Plain (r : Reference) : Prop where
  name_ne : r.name.toList ≠ []
  name : ∀ c ∈ r.name.toList, isNameChar c = true
  field_ne : ∀ field ∈ r.field, field.toList ≠ []
  field : ∀ field ∈ r.field, ∀ c ∈ field.toList, isFieldChar c = true

/-- The text is a placeholder for the reference: its path between double braces, with any blanks
around it. -/
def Spelled (r : Reference) (cs : List Char) : Prop :=
  r.Plain ∧ ∃ before after, (∀ c ∈ before, isBlank c = true) ∧ (∀ c ∈ after, isBlank c = true) ∧
    cs = opening ++ (before ++ (r.path ++ (after ++ closing)))

end Reference

/-- The text is cut from the left: a placeholder where one begins, else a character. -/
inductive Cut : List Char → List Segment → Prop
  | done : Cut [] []
  | hole {r : Reference} {p cs : List Char} {segs : List Segment} (spelled : r.Spelled p)
    (rest : Cut cs segs) : Cut (p ++ cs) (.hole r :: segs)
  | text {c : Char} {cs : List Char} {segs : List Segment}
    (plain : ∀ r p, Reference.Spelled r p → ¬ p <+: c :: cs) (rest : Cut cs segs) :
    Cut (c :: cs) (.text c :: segs)

/-- What becomes of the parts of a text: characters stay, and a value is put in as it is. -/
def filled (e : Execution) : List Segment → List Char
  | [] => []
  | .text c :: segs => c :: filled e segs
  | .hole r :: segs => (spliced (r.value? e)).toList ++ filled e segs

/-- What a text becomes: the value itself when there is one placeholder and nothing else. -/
inductive TextRenders (e : Execution) (text : String) : Json → Prop
  | whole {r : Reference} (spelled : r.Spelled (trim text.toList)) :
    TextRenders e text (Json.ofOption (r.value? e))
  | mixed {segs : List Segment} (other : ∀ r : Reference, ¬ r.Spelled (trim text.toList))
    (cut : Cut text.toList segs) : TextRenders e text (.str (String.ofList (filled e segs)))

mutual

/-- What a template becomes: its texts are rendered, and all else is kept. -/
inductive Renders (e : Execution) : Json → Json → Prop
  | str {text : String} {v : Json} (h : TextRenders e text v) : Renders e (.str text) v
  | arr {vs ws : List Json} (h : RendersItems e vs ws) : Renders e (.arr vs) (.arr ws)
  | obj {fs gs : List (String × Json)} (h : RendersFields e fs gs) : Renders e (.obj fs) (.obj gs)
  | null : Renders e .null .null
  | bool (b : Bool) : Renders e (.bool b) (.bool b)
  | int (i : Int) : Renders e (.int i) (.int i)
  | float (x : Binary64.Finite) : Renders e (.float x) (.float x)

inductive RendersItems (e : Execution) : List Json → List Json → Prop
  | nil : RendersItems e [] []
  | cons {v w : Json} {vs ws : List Json} (head : Renders e v w) (tail : RendersItems e vs ws) :
    RendersItems e (v :: vs) (w :: ws)

inductive RendersFields (e : Execution) : List (String × Json) → List (String × Json) → Prop
  | nil : RendersFields e [] []
  | cons {k : String} {v w : Json} {fs gs : List (String × Json)} (head : Renders e v w)
    (tail : RendersFields e fs gs) : RendersFields e ((k, v) :: fs) ((k, w) :: gs)

end

theorem not_isFieldChar_of_isBlank {c : Char} (h : isBlank c = true) : isFieldChar c = false := by
  refine Bool.eq_false_iff.mpr fun hfield => ?_
  have hspelt : isFieldChar c = (((((c.isUpper || c.isLower) || c.isDigit) || decide (c = '_')) ||
      decide (c = '-')) || decide (c = '@')) := rfl
  rw [hspelt] at hfield
  simp only [Bool.or_eq_true, decide_eq_true_eq] at hfield
  simp only [isBlank, Bool.or_eq_true, Bool.and_eq_true, decide_eq_true_eq, beq_iff_eq] at h
  rcases hfield with ((((hupper | hlower) | hdigit) | rfl) | rfl) | rfl
  · have hrange : 65 ≤ c.toNat ∧ c.toNat ≤ 90 := of_decide_eq_true hupper
    omega
  · obtain ⟨hfirst, hlast⟩ := (Bool.and_eq_true _ _).mp hlower
    have hrange : 97 ≤ c.toNat ∧ c.toNat ≤ 122 :=
      ⟨of_decide_eq_true hfirst, of_decide_eq_true hlast⟩
    omega
  · obtain ⟨hfirst, hlast⟩ := (Bool.and_eq_true _ _).mp hdigit
    have hrange : 48 ≤ c.toNat ∧ c.toNat ≤ 57 :=
      ⟨of_decide_eq_true hfirst, of_decide_eq_true hlast⟩
    omega
  all_goals revert h; decide

theorem span_append {p : Char → Bool} {run rest : List Char} (hrun : ∀ c ∈ run, p c = true)
    (hrest : ∀ c ∈ rest.head?, p c = false) :
    (run ++ rest).takeWhile p = run ∧ (run ++ rest).dropWhile p = rest := by
  have hstop : rest.takeWhile p = [] ∧ rest.dropWhile p = rest := by
    cases rest with
    | nil => exact ⟨rfl, rfl⟩
    | cons c cs => simp [hrest c rfl]
  rw [List.takeWhile_append_of_pos hrun, List.dropWhile_append_of_pos hrun, hstop.1, hstop.2]
  simp

theorem source?_eq_some {cs rest : List Char} {toInput : Bool} :
    source? cs = some (toInput, rest) ↔ cs = sourceWord toInput ++ rest := by
  unfold source?
  cases hinput : after? "inputs.".toList cs with
  | some found =>
    obtain rfl := after?_eq_some.mp hinput
    cases toInput <;> simp [sourceWord]
  | none =>
    have hno : cs ≠ sourceWord true ++ rest := fun heq => by
      have hfound : after? "inputs.".toList cs = some rest := after?_eq_some.mpr heq
      rw [hfound] at hinput
      cases hinput
    cases toInput with
    | true => simpa using hno
    | false => simp [sourceWord, after?_eq_some]

/-- What the field of a reference is read from. -/
theorem field?_eq_some {cs rest : List Char} {field : Option String}
    (h : field? cs = some (field, rest)) :
    cs = fieldText field ++ rest ∧ (∀ f ∈ field, f.toList ≠ []) ∧
      ∀ f ∈ field, ∀ c ∈ f.toList, isFieldChar c = true := by
  unfold field? at h
  split at h
  · rename_i cs
    dsimp only at h
    split at h
    · cases h
    · rename_i hne
      cases h
      refine ⟨?_, ?_, ?_⟩
      · simp [fieldText, List.takeWhile_append_dropWhile]
      · simpa using hne
      · simpa using fun c => List.mem_takeWhile_imp (p := isFieldChar) (l := cs)
  · cases h
    simp [fieldText]

theorem field?_fieldText {field : Option String} (hne : ∀ f ∈ field, f.toList ≠ [])
    (hfield : ∀ f ∈ field, ∀ c ∈ f.toList, isFieldChar c = true) {rest : List Char}
    (hpoint : ∀ c ∈ rest.head?, c ≠ '.') (hrest : ∀ c ∈ rest.head?, isFieldChar c = false) :
    field? (fieldText field ++ rest) = some (field, rest) := by
  cases field with
  | none =>
    unfold field?
    split
    · rename_i cs hcs
      have hhead : rest.head? = some '.' := by
        rw [show rest = '.' :: cs from hcs]
        rfl
      exact absurd rfl (hpoint '.' hhead)
    · rfl
  | some f =>
    obtain ⟨hrun, hstop⟩ := span_append (hfield f rfl) hrest
    simp [fieldText, field?, hrun, hstop, hne f rfl]

/-- What stands behind a reference ends it: blanks and the closing braces. -/
theorem ends_reference {after : List Char} (hafter : ∀ c ∈ after, isBlank c = true)
    (rest : List Char) :
    ∀ c ∈ (after ++ (closing ++ rest)).head?, c ≠ '.' ∧ isFieldChar c = false := by
  intro c hc
  cases after with
  | nil =>
    obtain rfl := Option.some_inj.mp hc
    decide
  | cons b after =>
    obtain rfl := Option.some_inj.mp hc
    have hblank := hafter b List.mem_cons_self
    refine ⟨fun hpoint => ?_, not_isFieldChar_of_isBlank hblank⟩
    rw [hpoint] at hblank
    revert hblank
    decide

theorem not_isNameChar_of_isFieldChar {c : Char} (h : isFieldChar c = false) :
    isNameChar c = false := by
  rw [isFieldChar, Bool.or_eq_false_iff] at h
  exact h.1

/-- What stands behind the name of a reference ends it. -/
theorem ends_name (field : Option String) {rest : List Char}
    (hrest : ∀ c ∈ rest.head?, isFieldChar c = false) :
    ∀ c ∈ (fieldText field ++ rest).head?, isNameChar c = false := by
  intro c hc
  cases field with
  | none => exact not_isNameChar_of_isFieldChar (hrest c hc)
  | some f =>
    obtain rfl := Option.some_inj.mp hc
    decide

theorem trimStart_path (r : Reference) (rest : List Char) :
    trimStart (r.path ++ rest) = r.path ++ rest := by
  rw [trimStart_eq_self_iff]
  intro c hc
  cases hinput : r.toInput with
  | true =>
    simp only [Reference.path, sourceWord, hinput] at hc
    obtain rfl := Option.some_inj.mp hc
    decide
  | false =>
    simp only [Reference.path, sourceWord, hinput] at hc
    obtain rfl := Option.some_inj.mp hc
    decide

theorem hole?_of_spelled {r : Reference} {p : List Char} (h : r.Spelled p) (rest : List Char) :
    hole? (p ++ rest) = some (r, rest) := by
  obtain ⟨plain, before, after, hbefore, hafter, rfl⟩ := h
  have hends := ends_reference hafter rest
  have hopen : after? opening (opening ++ (before ++ (r.path ++ (after ++ closing))) ++ rest) =
      some (before ++ (r.path ++ (after ++ (closing ++ rest)))) :=
    after?_eq_some.mpr (by simp)
  have hsource : source? (r.path ++ (after ++ (closing ++ rest))) =
      some (r.toInput, r.name.toList ++ (fieldText r.field ++ (after ++ (closing ++ rest)))) :=
    source?_eq_some.mpr (by simp [Reference.path])
  have hname := span_append plain.name (ends_name r.field fun c hc => (hends c hc).2)
  have hfield := field?_fieldText plain.field_ne plain.field (fun c hc => (hends c hc).1)
    fun c hc => (hends c hc).2
  have hclose : trimStart (after ++ (closing ++ rest)) = closing ++ rest := by
    rw [trimStart_blank_append hafter]
    rfl
  have hrest : after? closing (closing ++ rest) = some rest := after?_eq_some.mpr rfl
  unfold hole?
  change (after? opening _ >>= _) = _
  simp only [hopen, Option.bind_eq_bind, Option.bind_some, trimStart_blank_append hbefore,
    trimStart_path, hsource, hname.1, hname.2, if_neg plain.name_ne, hfield, hclose]
  change (after? closing _ >>= _) = _
  rw [hrest]
  simp

theorem exists_blanks (cs : List Char) :
    ∃ blanks, cs = blanks ++ trimStart cs ∧ ∀ c ∈ blanks, isBlank c = true :=
  ⟨cs.takeWhile isBlank, List.takeWhile_append_dropWhile.symm, fun _ => List.mem_takeWhile_imp⟩

theorem spelled_of_hole? {r : Reference} {cs rest : List Char} (h : hole? cs = some (r, rest)) :
    ∃ p, r.Spelled p ∧ cs = p ++ rest := by
  simp only [hole?, Option.bind_eq_bind, Option.bind_eq_some_iff, Prod.exists] at h
  obtain ⟨opened, hopen, toInput, sourced, hsource, h⟩ := h
  split at h
  · cases h
  · rename_i hne
    simp only [Option.bind_eq_some_iff, Prod.exists] at h
    obtain ⟨field, behind, hfield, rest', hclose, heq⟩ := h
    cases heq
    obtain ⟨htext, hfield_ne, hfield_chars⟩ := field?_eq_some hfield
    obtain ⟨before, hbefore, hblank⟩ := exists_blanks opened
    obtain ⟨after, hafter, hblank'⟩ := exists_blanks behind
    have plain :
        Reference.Plain ⟨toInput, String.ofList (sourced.takeWhile isNameChar), field⟩ := by
      refine ⟨by simpa using hne, fun c hc => ?_, hfield_ne, hfield_chars⟩
      rw [String.toList_ofList] at hc
      exact List.mem_takeWhile_imp hc
    refine ⟨_, ⟨plain, before, after, hblank, hblank', rfl⟩, ?_⟩
    have hname : sourced = sourced.takeWhile isNameChar ++ (fieldText field ++ behind) := by
      rw [← htext, List.takeWhile_append_dropWhile]
    have hends : trimStart behind = closing ++ rest := after?_eq_some.mp hclose
    have hsourced : trimStart opened = sourceWord toInput ++ sourced := source?_eq_some.mp hsource
    rw [hends] at hafter
    rw [hsourced] at hbefore
    calc cs = opening ++ opened := after?_eq_some.mp hopen
      _ = opening ++ (before ++ (sourceWord toInput ++
          (sourced.takeWhile isNameChar ++ (fieldText field ++ behind)))) := by
        rw [← hname, ← hbefore]
      _ = _ := by simp [Reference.path, hafter]

/-- A placeholder is found exactly where one begins, and what follows it is what is left. -/
theorem hole?_eq_some {r : Reference} {cs rest : List Char} :
    hole? cs = some (r, rest) ↔ ∃ p, r.Spelled p ∧ cs = p ++ rest := by
  constructor
  · exact spelled_of_hole?
  · rintro ⟨p, spelled, rfl⟩
    exact hole?_of_spelled spelled rest

theorem hole?_eq_none {cs : List Char} :
    hole? cs = none ↔ ∀ r p, Reference.Spelled r p → ¬ p <+: cs := by
  rw [Option.eq_none_iff_forall_ne_some]
  constructor
  · rintro hnone r p spelled ⟨rest, rfl⟩
    exact hnone (r, rest) (hole?_of_spelled spelled rest)
  · rintro hno ⟨r, rest⟩ hsome
    obtain ⟨p, spelled, rfl⟩ := hole?_eq_some.mp hsome
    exact hno r p spelled (List.prefix_append p rest)

theorem Reference.Spelled.ne_nil {r : Reference} {p : List Char} (h : r.Spelled p) : p ≠ [] := by
  obtain ⟨-, before, after, -, -, rfl⟩ := h
  exact List.cons_ne_nil _ _

theorem segmentsFrom_append (p cs : List Char) :
    segmentsFrom p.length (p ++ cs) = segmentsFrom 0 cs := by
  induction p with
  | nil => rfl
  | cons c p ih => exact ih

theorem segmentsFrom_of_spelled {r : Reference} {p : List Char} (h : r.Spelled p) (cs : List Char) :
    segmentsFrom 0 (p ++ cs) = .hole r :: segmentsFrom 0 cs := by
  have hhole := hole?_of_spelled h cs
  cases p with
  | nil => exact absurd rfl h.ne_nil
  | cons c p =>
    rw [List.cons_append] at hhole ⊢
    have hskip : (p ++ cs).length - cs.length = p.length := by simp
    rw [segmentsFrom, hhole]
    dsimp only
    rw [hskip, segmentsFrom_append]

theorem segmentsFrom_of_plain {c : Char} {cs : List Char}
    (h : ∀ r p, Reference.Spelled r p → ¬ p <+: c :: cs) :
    segmentsFrom 0 (c :: cs) = .text c :: segmentsFrom 0 cs := by
  rw [segmentsFrom, hole?_eq_none.mpr h]

theorem Cut.eq {cs : List Char} {segs : List Segment} (h : Cut cs segs) :
    segmentsFrom 0 cs = segs := by
  induction h with
  | done => rfl
  | hole spelled rest ih => rw [segmentsFrom_of_spelled spelled, ih]
  | text plain rest ih => rw [segmentsFrom_of_plain plain, ih]

theorem cut_segmentsFrom (cs : List Char) : Cut cs (segmentsFrom 0 cs) := by
  induction hn : cs.length using Nat.strong_induction_on generalizing cs with
  | _ n ih =>
    cases cs with
    | nil => exact .done
    | cons c cs =>
      cases hhole : hole? (c :: cs) with
      | none =>
        have plain := hole?_eq_none.mp hhole
        rw [segmentsFrom_of_plain plain]
        exact .text plain (ih cs.length (by simp [← hn]) cs rfl)
      | some found =>
        obtain ⟨r, rest⟩ := found
        obtain ⟨p, spelled, heq⟩ := hole?_eq_some.mp hhole
        rw [heq, segmentsFrom_of_spelled spelled]
        refine .hole spelled (ih rest.length ?_ rest rfl)
        have hlength := congrArg List.length heq
        have hpos := List.length_pos_of_ne_nil spelled.ne_nil
        rw [List.length_append] at hlength
        omega

/-- A text is cut in one way. -/
theorem cut_iff {cs : List Char} {segs : List Segment} :
    Cut cs segs ↔ segmentsFrom 0 cs = segs := by
  constructor
  · exact Cut.eq
  · intro h
    rw [← h]
    exact cut_segmentsFrom cs

/-- The text is one placeholder when this is all that it is cut into. -/
theorem segmentsFrom_eq_hole_iff {cs : List Char} {r : Reference} :
    segmentsFrom 0 cs = [.hole r] ↔ r.Spelled cs := by
  constructor
  · intro h
    cases cut_iff.mpr h with
    | hole spelled rest =>
      cases rest
      rwa [List.append_nil]
  · intro h
    have hcut := segmentsFrom_of_spelled h []
    rwa [List.append_nil] at hcut

variable {e : Execution}

theorem foldl_render (e : Execution) (segs : List Segment) (out : String) :
    segs.foldl (fun out s => out ++ s.render e) out = out ++ String.ofList (filled e segs) := by
  induction segs generalizing out with
  | nil => simp [filled]
  | cons s segs ih =>
    rw [List.foldl_cons, ih]
    cases s with
    | text c => simp [filled, Segment.render, ← String.toList_inj]
    | hole r => simp [filled, Segment.render, ← String.toList_inj]

theorem renderText_of_spelled {text : String} {r : Reference}
    (h : r.Spelled (trim text.toList)) : renderText e text = Json.ofOption (r.value? e) := by
  have hcut : segments (trimmed text) = [.hole r] := by
    rw [segments, trimmed, String.toList_ofList]
    exact segmentsFrom_eq_hole_iff.mpr h
  rw [renderText, hcut]

theorem renderText_of_other {text : String} (h : ∀ r : Reference, ¬ r.Spelled (trim text.toList)) :
    renderText e text = .str (String.ofList (filled e (segments text))) := by
  have hcut (r : Reference) : segments (trimmed text) ≠ [.hole r] := by
    rw [segments, trimmed, String.toList_ofList]
    exact fun heq => h r (segmentsFrom_eq_hole_iff.mp heq)
  unfold renderText
  split
  · rename_i r heq
    exact absurd heq (hcut r)
  · rw [foldl_render, String.empty_append]

/-- Every text becomes one value. -/
theorem textRenders_iff {text : String} {v : Json} :
    TextRenders e text v ↔ renderText e text = v := by
  constructor
  · intro h
    cases h with
    | whole spelled => exact renderText_of_spelled spelled
    | mixed other cut => rw [renderText_of_other other, segments, cut.eq]
  · rintro rfl
    by_cases h : ∃ r : Reference, r.Spelled (trim text.toList)
    · obtain ⟨r, spelled⟩ := h
      rw [renderText_of_spelled spelled]
      exact .whole spelled
    · have other := not_exists.mp h
      rw [renderText_of_other other]
      exact .mixed other (cut_segmentsFrom _)

mutual

theorem renders_render (e : Execution) : (v : Json) → Renders e v (render e v)
  | .str text => by
    rw [render]
    exact .str (textRenders_iff.mpr rfl)
  | .arr vs => by
    rw [render]
    exact .arr (renders_renderItems e vs)
  | .obj fs => by
    rw [render]
    exact .obj (renders_renderFields e fs)
  | .null => .null
  | .bool b => .bool b
  | .int i => .int i
  | .float x => .float x

theorem renders_renderItems (e : Execution) :
    (vs : List Json) → RendersItems e vs (renderItems e vs)
  | [] => .nil
  | v :: vs => .cons (renders_render e v) (renders_renderItems e vs)

theorem renders_renderFields (e : Execution) :
    (fs : List (String × Json)) → RendersFields e fs (renderFields e fs)
  | [] => .nil
  | (_, v) :: fs => .cons (renders_render e v) (renders_renderFields e fs)

end

mutual

theorem Renders.eq {v w : Json} : Renders e v w → render e v = w
  | .str h => by rw [render, textRenders_iff.mp h]
  | .arr h => by rw [render, h.eq]
  | .obj h => by rw [render, h.eq]
  | .null => rfl
  | .bool _ => rfl
  | .int _ => rfl
  | .float _ => rfl

theorem RendersItems.eq {vs ws : List Json} : RendersItems e vs ws → renderItems e vs = ws
  | .nil => rfl
  | .cons head tail => by rw [renderItems, head.eq, tail.eq]

theorem RendersFields.eq {fs gs : List (String × Json)} :
    RendersFields e fs gs → renderFields e fs = gs
  | .nil => rfl
  | .cons head tail => by rw [renderFields, head.eq, tail.eq]

end

theorem renders_iff {v w : Json} : Renders e v w ↔ render e v = w := by
  constructor
  · exact Renders.eq
  · rintro rfl
    exact renders_render e v

theorem renderFields_eq (e : Execution) (fs : List (String × Json)) :
    renderFields e fs = Fields.mapValues (render e) fs := by
  induction fs with
  | nil => rfl
  | cons p fs ih => rw [renderFields, ih, Fields.mapValues, Fields.mapValues, List.map_cons]

end Template

namespace Step

open Template

variable {s : Step}

theorem get?_renderedParams (hparams : Fields.Ordered s.params) (e : Execution) (k : String) :
    Fields.get? k (s.renderedParams e) =
      ((Fields.get? k s.params).map (render e)).or (Fields.get? k e.inputs) := by
  rw [renderedParams, renderFields_eq, Fields.get?_overlay (hparams.mapValues _),
    Fields.get?_mapValues]

/-- The parameters of a step are the inputs, and on top of them what becomes of its templates. Each
text of a template is cut in one way, whatever the execution is, and each template becomes one value
in an execution: what is put in for a placeholder has no part in the cutting. -/
theorem params_rendered_once (hparams : Fields.Ordered s.params) :
    (∀ text : String, ∃! segs, Cut text.toList segs) ∧
    ∀ e : Execution, (∀ v, ∃! w, Renders e v w) ∧
      (Fields.Ordered e.inputs → Fields.Ordered (s.renderedParams e)) ∧
      ∀ k w, Fields.get? k (s.renderedParams e) = some w ↔
        (∃ v, Fields.get? k s.params = some v ∧ Renders e v w) ∨
          Fields.get? k s.params = none ∧ Fields.get? k e.inputs = some w := by
  refine ⟨fun text => ⟨_, cut_segmentsFrom _, fun segs hcut => hcut.eq.symm⟩, fun e =>
    ⟨fun v => ⟨_, renders_render e v, fun w hw => hw.eq.symm⟩, fun hinputs => ?_, fun k w => ?_⟩⟩
  · exact hinputs.overlay _
  · rw [get?_renderedParams hparams]
    cases Fields.get? k s.params with
    | none => simp
    | some v => simp [renders_iff]

/-- A step whose templates are a placeholder in a list, and a text with two placeholders. -/
def noteStep : Step where
  id := "note"
  action := ""
  tool := ⟨"text", "write"⟩
  condition := none
  isAsync := false
  params := [("counts", .arr [.str " \x7b\x7binputs.count\x7d\x7d ", .null]),
    ("note", .str "<\x7b\x7binputs.body\x7d\x7d|\x7b\x7b steps.none.title \x7d\x7d>")]
  artifact := none

/-- The body that is put in looks like a placeholder itself. -/
def noteExecution : Execution :=
  .init "e" "t" "clip" [("body", .str "\x7b\x7binputs.count\x7d\x7d"), ("count", .int 3)] ⟨0, 0⟩

/-- The number stays a number, and the body stays as it is. -/
theorem note_params_rendered :
    Renders noteExecution (.arr [.str " \x7b\x7binputs.count\x7d\x7d ", .null])
        (.arr [.int 3, .null]) ∧
      Renders noteExecution
        (.str "<\x7b\x7binputs.body\x7d\x7d|\x7b\x7b steps.none.title \x7d\x7d>")
        (.str "<\x7b\x7binputs.count\x7d\x7d|>") := by
  have hparams : Fields.Ordered noteStep.params := by decide +kernel
  have hrendered := ((params_rendered_once hparams).2 noteExecution).2.2
  have hcounts : Fields.get? "counts" (noteStep.renderedParams noteExecution) =
      some (.arr [.int 3, .null]) := by rfl
  have hnote : Fields.get? "note" (noteStep.renderedParams noteExecution) =
      some (.str "<\x7b\x7binputs.count\x7d\x7d|>") := by rfl
  constructor
  · obtain ⟨v, hv, hw⟩ | ⟨hnone, -⟩ := (hrendered _ _).mp hcounts
    · cases hv
      exact hw
    · cases hnone
  · obtain ⟨v, hv, hw⟩ | ⟨hnone, -⟩ := (hrendered _ _).mp hnote
    · cases hv
      exact hw
    · cases hnone

end Step

end PlaybookEngine
