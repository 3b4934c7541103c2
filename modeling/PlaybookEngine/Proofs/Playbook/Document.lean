import PlaybookEngine.Playbook.Document
import PlaybookEngine.Proofs.Fields.Pairs
import PlaybookEngine.Proofs.Text.Blank
import PlaybookEngine.Proofs.Text.Parts
import Mathlib.Data.List.Nodup

namespace PlaybookEngine.Document

open Text

/-- The dashes that open and close the front matter. -/
def dashes : List Char := ['-', '-', '-']

/-- The closing dashes are found behind a text of which no further line begins with dashes. -/
theorem splitClosing_append {cs : List Char}
    (h : ∀ line ∈ (splitOn '\n' cs).tail, ¬dashes <+: line) (rest : List Char) :
    splitClosing (cs ++ '\n' :: (dashes ++ rest)) = some (cs, rest) := by
  induction cs with
  | nil => rfl
  | cons c cs ih =>
    cases hsplit : splitOn '\n' cs with
    | nil => exact absurd hsplit (splitOn_ne_nil '\n' cs)
    | cons line lines =>
      rw [splitOn, hsplit] at h
      have hlines : ∀ other ∈ lines, ¬dashes <+: other := by
        intro other hother
        split at h
        · exact h other (List.mem_cons_of_mem _ hother)
        · exact h other hother
      have hrest : splitClosing (cs ++ '\n' :: (dashes ++ rest)) = some (cs, rest) :=
        ih (by rwa [hsplit])
      rw [List.cons_append]
      unfold splitClosing
      split
      · rename_i heq
        cases heq
      · rename_i after heq
        obtain ⟨rfl, htext⟩ := List.cons.inj heq
        rw [if_pos rfl] at h
        have hprefix : dashes <+: cs ++ '\n' :: (dashes ++ rest) := ⟨after, htext.symm⟩
        exact absurd (prefix_of_splitOn (by decide) hprefix hsplit) (h line List.mem_cons_self)
      · rename_i c' cs' _ heq
        obtain ⟨rfl, rfl⟩ := List.cons.inj heq
        rw [hrest]
        rfl

/-- A text that does not end with a line feed, and no line of which ends with a carriage return, has
the lines that its line feeds make. -/
theorem lines_eq_splitOn {cs : List Char} (hne : cs ≠ []) (hlast : cs.getLast? ≠ some '\n')
    (hreturn : ∀ line ∈ splitOn '\n' cs, line.getLast? ≠ some '\r') :
    lines cs = splitOn '\n' cs := by
  have hfull : (splitOn '\n' cs).getLast? ≠ some [] := fun h =>
    (empty_or_ends_of_splitOn h).elim hne hlast
  unfold lines
  simp only [if_neg hfull]
  refine List.ext_getElem? fun i => ?_
  rw [List.getElem?_mapIdx]
  cases hline : (splitOn '\n' cs)[i]? with
  | none => rfl
  | some line =>
    have hmem : line ∈ splitOn '\n' cs := List.mem_of_getElem? hline
    simp [hreturn line hmem]

theorem unlines_splitOn (cs : List Char) : unlines (splitOn '\n' cs) = cs := by
  induction cs with
  | nil => rfl
  | cons c cs ih =>
    unfold splitOn
    split
    · rename_i hc
      cases hsplit : splitOn '\n' cs with
      | nil => exact absurd hsplit (splitOn_ne_nil '\n' cs)
      | cons line lines =>
        rw [unlines, ← hsplit, ih, hc]
        · rfl
        · simp
    · split
      · rename_i hnil
        exact absurd hnil (splitOn_ne_nil '\n' cs)
      · rename_i line lines hlines
        rw [hlines] at ih
        cases lines with
        | nil => exact congrArg (c :: ·) ih
        | cons next lines => exact congrArg (c :: ·) ih

theorem sectionLines_append {ls : List (List Char)} (h : ∀ line ∈ ls, heading? line = none)
    (rest : List (List Char)) :
    sectionLines (ls ++ rest) = (ls ++ (sectionLines rest).1, (sectionLines rest).2) := by
  induction ls with
  | nil => rfl
  | cons line ls ih =>
    rw [List.cons_append, sectionLines,
      ih fun other hother => h other (List.mem_cons_of_mem _ hother)]
    simp only [h line List.mem_cons_self]
    rfl

def headline (heading : List Char) : List Char := '#' :: '#' :: ' ' :: heading

theorem heading?_headline {heading : List Char} (h : trim heading = heading) :
    heading? (headline heading) = some heading := by
  rw [heading?, after?_eq_some.mpr (rfl : headline heading = ['#', '#', ' '] ++ heading),
    Option.map_some, h]

theorem heading?_eq_none {line : List Char} (h : ¬['#', '#', ' '] <+: line) :
    heading? line = none := by
  rw [heading?, Option.map_eq_none_iff]
  refine Option.eq_none_iff_forall_ne_some.mpr fun rest hrest => h ⟨rest, ?_⟩
  exact (after?_eq_some.mp hrest).symm

/-- A section that comes apart as it was laid out: its heading is one line, and its text neither
has carriage returns nor lines that would be headings. -/
structure Regular (s : List Char × List Char) : Prop where
  heading_ne : s.1 ≠ []
  heading_trimmed : trim s.1 = s.1
  heading_line : '\n' ∉ s.1
  text_trimmed : trim s.2 = s.2
  text_plain : '\r' ∉ s.2
  text_lines : ∀ line ∈ splitOn '\n' s.2, ¬['#', '#', ' '] <+: line

def closing (s : List Char × List Char) : List Char :=
  headline s.1 ++ (if s.2 = [] then [] else '\n' :: s.2)

/-- The lines under the heading of the last section. -/
def closingLines (text : List Char) : List (List Char) :=
  if text = [] then [] else splitOn '\n' text

variable {s : List Char × List Char}

theorem sectionText_eq_ended (s : List Char × List Char) :
    Layout.sectionText s = (headline s.1 :: splitOn '\n' s.2).flatMap (· ++ ['\n']) := by
  rw [List.flatMap_cons, ended_splitOn]
  simp [Layout.sectionText, headline]

theorem isBlank_feed : isBlank '\n' = true := rfl

theorem sectionText_eq_closing (s : List Char × List Char) :
    ∃ after, Layout.sectionText s = closing s ++ after ∧ ∀ c ∈ after, isBlank c = true := by
  by_cases htext : s.2 = []
  · refine ⟨['\n', '\n'], ?_, by simp [isBlank_feed]⟩
    simp [Layout.sectionText, closing, headline, htext]
  · refine ⟨['\n'], ?_, by simp [isBlank_feed]⟩
    simp [Layout.sectionText, closing, headline, htext]

theorem closing_ne_nil (s : List Char × List Char) : closing s ≠ [] := by
  simp [closing, headline]

theorem Regular.trim_closing (h : Regular s) : trim (closing s) = closing s := by
  have hmarks : trim ['#', '#'] = ['#', '#'] := by decide
  by_cases htext : s.2 = []
  · have hjoin := trim_join hmarks h.heading_trimmed (by decide) h.heading_ne [' ']
    simpa [closing, headline, htext] using hjoin
  · have hjoin := trim_join hmarks h.text_trimmed (by decide) htext (' ' :: (s.1 ++ ['\n']))
    simpa [closing, headline, htext] using hjoin

theorem Regular.splitOn_closing (h : Regular s) :
    splitOn '\n' (closing s) = headline s.1 :: closingLines s.2 := by
  have hline : '\n' ∉ headline s.1 := by simpa [headline] using h.heading_line
  by_cases htext : s.2 = []
  · simp [closing, closingLines, htext, splitOn_of_not_mem hline]
  · simp [closing, closingLines, htext, splitOn_append_cons, splitOn_of_not_mem hline]

theorem mem_of_getLast?_headline {heading : List Char} (h : heading ≠ []) {c : Char}
    (hc : (headline heading).getLast? = some c) : heading.getLast? = some c := by
  have hback : (['#', '#', ' '] ++ heading).getLast? = heading.getLast? :=
    List.getLast?_append_of_ne_nil _ h
  exact hback.symm.trans hc

theorem Regular.getLast?_ne_return (h : Regular s) {line : List Char}
    (hline : line ∈ headline s.1 :: splitOn '\n' s.2) : line.getLast? ≠ some '\r' := by
  intro hlast
  rcases List.mem_cons.mp hline with rfl | hline
  · have hend := mem_of_getLast?_headline h.heading_ne hlast
    exact absurd ((trim_eq_self_iff.mp h.heading_trimmed).2 _ hend) (by decide)
  · exact h.text_plain (subset_of_mem_splitOn hline (List.mem_of_getLast? hlast))

theorem closingLines_subset (text : List Char) : closingLines text ⊆ splitOn '\n' text := by
  unfold closingLines
  split
  · exact List.nil_subset _
  · exact List.Subset.refl _

theorem Regular.heading?_of_mem (h : Regular s) {line : List Char}
    (hline : line ∈ splitOn '\n' s.2) : heading? line = none :=
  heading?_eq_none (h.text_lines line hline)

theorem Regular.sectionLines_cons (h : Regular s) {own : List (List Char)}
    (hown : own ⊆ splitOn '\n' s.2) {rest : List (List Char)}
    {more : List (List Char × List (List Char))} (hrest : sectionLines rest = ([], more)) :
    sectionLines (headline s.1 :: (own ++ rest)) = ([], (s.1, own) :: more) := by
  have hlines := sectionLines_append (fun line hline => h.heading?_of_mem (hown hline)) rest
  rw [sectionLines, hlines, hrest, heading?_headline h.heading_trimmed, List.append_nil]

/-- The sections of lines that are laid out section by section, the last one without the line feeds
at its end. -/
theorem sectionLines_sections {init : List (List Char × List Char)}
    (hinit : ∀ s ∈ init, Regular s) {last : List Char × List Char} (hlast : Regular last) :
    sectionLines (init.flatMap (fun s => headline s.1 :: splitOn '\n' s.2) ++
        headline last.1 :: closingLines last.2) =
      ([], init.map (fun s => (s.1, splitOn '\n' s.2)) ++ [(last.1, closingLines last.2)]) := by
  induction init with
  | nil =>
    have hempty : sectionLines [] = ([], []) := rfl
    have hnone := hlast.sectionLines_cons (closingLines_subset last.2) hempty
    rwa [List.append_nil] at hnone
  | cons s init ih =>
    have hrest := ih fun other hother => hinit other (List.mem_cons_of_mem _ hother)
    have hs := (hinit s List.mem_cons_self).sectionLines_cons (List.Subset.refl _) hrest
    simpa using hs

theorem trim_unlines_closingLines {text : List Char} (h : trim text = text) :
    trim (unlines (closingLines text)) = text := by
  unfold closingLines
  split
  · rename_i hnil
    rw [hnil]
    rfl
  · rw [unlines_splitOn, h]

/-- The body of a document, and what trimming leaves of it. -/
theorem trim_body {init : List (List Char × List Char)} {last : List Char × List Char}
    (hlast : Regular last) :
    trim ('\n' :: (init ++ [last]).flatMap Layout.sectionText) =
      init.flatMap Layout.sectionText ++ closing last := by
  obtain ⟨after, hafter, hblank⟩ := sectionText_eq_closing last
  have hne : init.flatMap Layout.sectionText ++ closing last ≠ [] := by
    simp [closing_ne_nil]
  have htrimmed : trim (init.flatMap Layout.sectionText ++ closing last) =
      init.flatMap Layout.sectionText ++ closing last := by
    rw [trim_eq_self_iff, List.getLast?_append_of_ne_nil _ (closing_ne_nil last)]
    refine ⟨fun c hc => ?_, (trim_eq_self_iff.mp hlast.trim_closing).2⟩
    have hfirst : c = '#' := by
      cases init with
      | nil => simpa [closing, headline, eq_comm] using hc
      | cons s init => simpa [Layout.sectionText, eq_comm] using hc
    rw [hfirst]
    decide
  have hfeed : ∀ c ∈ ['\n'], isBlank c = true := by simp [isBlank_feed]
  have hbetween := trim_between hfeed hblank hne htrimmed
  simpa [hafter] using hbetween

/-- The sections of a body are those it was laid out with. -/
theorem sections_body {sects : List (List Char × List Char)} (h : ∀ s ∈ sects, Regular s) :
    sections (trim ('\n' :: sects.flatMap Layout.sectionText)) =
      Fields.ofList (sects.map fun s => (String.ofList s.1, String.ofList s.2)) := by
  rcases List.eq_nil_or_concat sects with rfl | ⟨init, last, rfl⟩
  · rfl
  · rw [List.concat_eq_append] at h ⊢
    have hinit : ∀ s ∈ init, Regular s := fun s hs => h s (List.mem_append_left _ hs)
    have hlast : Regular last := h last (by simp)
    have hlines : splitOn '\n' (init.flatMap Layout.sectionText ++ closing last) =
        init.flatMap (fun s => headline s.1 :: splitOn '\n' s.2) ++
          headline last.1 :: closingLines last.2 := by
      have hended : init.flatMap Layout.sectionText =
          (init.flatMap fun s => headline s.1 :: splitOn '\n' s.2).flatMap (· ++ ['\n']) := by
        rw [List.flatMap_assoc]
        exact List.flatMap_congr fun s _ => sectionText_eq_ended s
      have hplain : ∀ line ∈ init.flatMap (fun s => headline s.1 :: splitOn '\n' s.2),
          '\n' ∉ line := by
        intro line hline
        obtain ⟨s, hs, hline⟩ := List.mem_flatMap.mp hline
        rcases List.mem_cons.mp hline with rfl | hline
        · simpa [headline] using (hinit s hs).heading_line
        · exact not_mem_of_mem_splitOn hline
      rw [hended, splitOn_ended hplain, hlast.splitOn_closing]
    have hreturn : ∀ line ∈ splitOn '\n' (init.flatMap Layout.sectionText ++ closing last),
        line.getLast? ≠ some '\r' := by
      intro line hline
      rw [hlines] at hline
      rcases List.mem_append.mp hline with hline | hline
      · obtain ⟨s, hs, hline⟩ := List.mem_flatMap.mp hline
        exact (hinit s hs).getLast?_ne_return hline
      · refine hlast.getLast?_ne_return ?_
        exact List.cons_subset_cons _ (closingLines_subset last.2) hline
    have hend : (init.flatMap Layout.sectionText ++ closing last).getLast? ≠ some '\n' := by
      rw [List.getLast?_append_of_ne_nil _ (closing_ne_nil last)]
      intro hfeed
      exact absurd ((trim_eq_self_iff.mp hlast.trim_closing).2 _ hfeed) (by decide)
    have hne : init.flatMap Layout.sectionText ++ closing last ≠ [] := by
      simp [closing_ne_nil]
    rw [trim_body hlast, sections, lines_eq_splitOn hne hend hreturn, hlines,
      sectionLines_sections hinit hlast]
    refine congrArg Fields.ofList ?_
    rw [List.map_append, List.map_append, List.map_map]
    have hfront : init.map ((fun s => (String.ofList s.1, String.ofList (trim (unlines s.2)))) ∘
          fun s => (s.1, splitOn '\n' s.2)) =
        init.map fun s => (String.ofList s.1, String.ofList s.2) := by
      refine List.map_congr_left fun s hs => ?_
      simp [unlines_splitOn, (hinit s hs).text_trimmed]
    rw [hfront]
    simp [trim_unlines_closingLines hlast.text_trimmed]

namespace Layout

/-- A document that comes apart as it was laid out. -/
structure Regular (l : Layout) : Prop where
  margin : ∀ c ∈ l.margin, isBlank c = true
  front : ∀ line ∈ splitOn '\n' l.front, ¬dashes <+: line
  sections : ∀ s ∈ l.sections, Document.Regular s
  distinct : (l.sections.map Prod.fst).Nodup

end Layout

/-- What stands in front of the opening dashes is dropped. -/
theorem start_text {l : Layout} (h : l.Regular) :
    trimStart (l.text.dropWhile (· = '\ufeff')) =
      dashes ++ ('\n' :: l.front) ++ '\n' :: (dashes ++ '\n' :: l.sections.flatMap
        Layout.sectionText) := by
  let rest : List Char := dashes ++ ('\n' :: l.front) ++ '\n' :: (dashes ++ '\n' ::
    l.sections.flatMap Layout.sectionText)
  have htext : l.text = (if l.marked then ['\ufeff'] else []) ++ (l.margin ++ rest) := by
    simp [Layout.text, rest, dashes]
  have hmark : (l.margin ++ rest).dropWhile (· = '\ufeff') = l.margin ++ rest := by
    cases hmargin : l.margin with
    | nil => rfl
    | cons c cs =>
      have hblank : isBlank c = true := h.margin c (hmargin ▸ List.mem_cons_self)
      have hne : c ≠ '\ufeff' := fun heq => absurd (heq ▸ hblank) (by decide)
      simp [hne]
  have hdropped : l.text.dropWhile (· = '\ufeff') = l.margin ++ rest := by
    rw [htext]
    cases l.marked with
    | false => exact hmark
    | true => exact hmark
  rw [hdropped, trimStart_blank_append h.margin]
  rfl

theorem split_text {l : Layout} (h : l.Regular) :
    split l.text =
      .ok ('\n' :: l.front, trim ('\n' :: l.sections.flatMap Layout.sectionText)) := by
  have hopen : after? ['-', '-', '-'] (trimStart (l.text.dropWhile (· = '\ufeff'))) =
      some (('\n' :: l.front) ++ '\n' :: (dashes ++ '\n' :: l.sections.flatMap
        Layout.sectionText)) := by
    rw [start_text h, List.append_assoc]
    exact after?_eq_some.mpr rfl
  have hlines : ∀ line ∈ (splitOn '\n' ('\n' :: l.front)).tail, ¬dashes <+: line := by
    simpa [splitOn] using h.front
  have hclose := splitClosing_append hlines ('\n' :: l.sections.flatMap Layout.sectionText)
  simp only [split, hopen, hclose]

/-- A document that is laid out of front matter and sections is split into just these: what is found
of its body under a heading is the text that was written there, and nothing else is found. -/
theorem layout_taken_apart {l : Layout} (h : l.Regular) :
    ∃ body, split l.text = .ok ('\n' :: l.front, body) ∧ Fields.Ordered (sections body) ∧
      ∀ heading text, Fields.get? heading (sections body) = some text ↔
        (heading.toList, text.toList) ∈ l.sections := by
  refine ⟨_, split_text h, Fields.ordered_ofList _, fun heading text => ?_⟩
  rw [sections_body h.sections]
  have hkeys : ((l.sections.map fun s => (String.ofList s.1, String.ofList s.2)).map
      Prod.fst).Nodup := by
    have hnodup := List.Nodup.map (f := String.ofList) (fun _ _ => String.ofList_injective)
      h.distinct
    rwa [List.map_map] at hnodup ⊢
  constructor
  · intro hfound
    obtain ⟨s, hs, heq⟩ := List.mem_map.mp (Fields.mem_of_mem_ofList (Fields.mem_of_get? hfound))
    obtain ⟨rfl, rfl⟩ := Prod.mk.inj heq
    simpa using hs
  · intro hs
    refine Fields.get?_ofList_of_mem hkeys (List.mem_map.mpr ⟨_, hs, ?_⟩)
    simp

/-- A document with a byte order mark, an empty section between others, and lines of number signs
and dashes that are neither headings nor the end of the front matter. -/
def handbook : Layout where
  margin := "\n ".toList
  marked := true
  front := "name: a\n --- b\n--".toList
  sections := [("Goal".toList, "# One\n\n##two\n --- three".toList), ("Notes\rhere".toList, []),
    ("Last one".toList, "###".toList), ("##".toList, [])]

theorem handbook_taken_apart :
    handbook.Regular ∧ ∃ body, split handbook.text = .ok ('\n' :: handbook.front, body) ∧
      Fields.get? "Goal" (sections body) = some "# One\n\n##two\n --- three" ∧
      Fields.get? "Notes\rhere" (sections body) = some "" ∧
      Fields.get? "##" (sections body) = some "" ∧ Fields.get? "two" (sections body) = none := by
  have hregular : handbook.Regular := by
    have hmargin : handbook.margin.all isBlank = true := rfl
    refine ⟨List.all_eq_true.mp hmargin, by decide, ?_, by decide⟩
    simp only [handbook, List.forall_mem_cons]
    exact ⟨⟨by decide, by decide, by decide, by decide, by decide, by decide⟩,
      ⟨by decide, by decide, by decide, by decide, by decide, by decide⟩,
      ⟨by decide, by decide, by decide, by decide, by decide, by decide⟩,
      ⟨by decide, by decide, by decide, by decide, by decide, by decide⟩, nofun⟩
  obtain ⟨body, hsplit, -, hsections⟩ := layout_taken_apart hregular
  refine ⟨hregular, body, hsplit, (hsections _ _).mpr (by decide), (hsections _ _).mpr (by decide),
    (hsections _ _).mpr (by decide), Option.eq_none_iff_forall_ne_some.mpr fun text htext => ?_⟩
  have hmem := (hsections _ _).mp htext
  simp [handbook] at hmem

end PlaybookEngine.Document
