import PlaybookEngine.Proofs.Json.Quoted
import PlaybookEngine.Proofs.Json.Ordered
import PlaybookEngine.Proofs.Number.Digits

namespace PlaybookEngine.Json

/-- The blanks before the parts of a list or an object at a depth, and after a colon. -/
structure Layout where
  gap : Nat → List Char
  colonGap : List Char
  blank_gap : ∀ depth, ∀ c ∈ gap depth, c = ' ' ∨ c = '\n'
  blank_colonGap : ∀ c ∈ colonGap, c = ' ' ∨ c = '\n'

namespace Layout

variable (l : Layout)

mutual

def render (depth : Nat) : Json → List Char
  | .arr [] => ['[', ']']
  | .obj [] => ['\x7b', '\x7d']
  | .arr (v :: vs) =>
    '[' :: (l.gap (depth + 1) ++ (render (depth + 1) v ++ (renderItems (depth + 1) vs
      ++ (l.gap depth ++ [']']))))
  | .obj ((k, v) :: fs) =>
    '\x7b' :: (l.gap (depth + 1) ++ ((quote k).toList ++ ':' :: (l.colonGap
      ++ (render (depth + 1) v ++ (renderFields (depth + 1) fs ++ (l.gap depth ++ ['\x7d']))))))
  | .null => "null".toList
  | .bool b => (if b then "true" else "false").toList
  | .int i => (toString i).toList
  | .float x => x.text.toList
  | .str s => (quote s).toList

/-- The further elements, each after a comma. -/
def renderItems (depth : Nat) : List Json → List Char
  | [] => []
  | v :: vs => ',' :: (l.gap depth ++ (render depth v ++ renderItems depth vs))

/-- The further fields, each after a comma. -/
def renderFields (depth : Nat) : List (String × Json) → List Char
  | [] => []
  | (k, v) :: fs =>
    ',' :: (l.gap depth ++ ((quote k).toList ++ ':' :: (l.colonGap
      ++ (render depth v ++ renderFields depth fs))))

end

/-- No blanks. -/
def tight : Layout := ⟨fun _ => [], [], nofun, nofun⟩

/-- A line for each element, indented by its depth. -/
def indented : Layout where
  gap depth := '\n' :: List.replicate (2 * depth) ' '
  colonGap := [' ']
  blank_gap depth c hc := by
    rcases List.mem_cons.mp hc with rfl | hc
    · exact .inr rfl
    · exact .inl (List.mem_replicate.mp hc).2
  blank_colonGap c hc := .inl (List.mem_singleton.mp hc)

mutual

theorem render_tight (depth : Nat) (v : Json) : tight.render depth v = (compact v).toList := by
  cases v with
  | arr vs =>
    cases vs with
    | nil => rfl
    | cons w ws =>
      have items := tail_renderItems_tight (depth + 1) (w :: ws)
      rw [renderItems, List.tail_cons] at items
      rw [render, compact, String.toList_append, String.toList_append, ← items]
      simp only [tight, List.nil_append, List.append_assoc]
      rfl
  | obj fs =>
    cases fs with
    | nil => rfl
    | cons f fs =>
      obtain ⟨k, w⟩ := f
      have fields := tail_renderFields_tight (depth + 1) ((k, w) :: fs)
      rw [renderFields, List.tail_cons] at fields
      rw [render, compact, String.toList_append, String.toList_append, ← fields]
      simp only [tight, List.nil_append, List.append_assoc, List.cons_append]
      rfl
  | _ => rw [render, compact]

/-- The comma before the first element is one too many. -/
theorem tail_renderItems_tight (depth : Nat) (vs : List Json) :
    (tight.renderItems depth vs).tail = (compactItems vs).toList := by
  match vs with
  | [] => rfl
  | [v] =>
    rw [renderItems, List.tail_cons, compactItems, render_tight depth v, renderItems,
      List.append_nil]
    rfl
  | v :: w :: ws =>
    have rest := tail_renderItems_tight depth (w :: ws)
    rw [renderItems, List.tail_cons] at rest
    rw [renderItems, List.tail_cons, compactItems, render_tight depth v, renderItems, rest]
    simp [tight]

theorem tail_renderFields_tight (depth : Nat) (fs : List (String × Json)) :
    (tight.renderFields depth fs).tail = (compactFields fs).toList := by
  match fs with
  | [] => rfl
  | [(k, v)] =>
    rw [renderFields, List.tail_cons, compactFields, render_tight depth v, renderFields,
      List.append_nil]
    simp [tight]
  | (k, v) :: (j, w) :: fs =>
    have rest := tail_renderFields_tight depth ((j, w) :: fs)
    rw [renderFields, List.tail_cons] at rest
    rw [renderFields, List.tail_cons, compactFields, render_tight depth v, renderFields, rest]
    simp [tight]

end

mutual

theorem render_indented (depth : Nat) (v : Json) :
    indented.render depth v = (prettyAt depth v).toList := by
  cases v with
  | arr vs =>
    cases vs with
    | nil => rw [render, prettyAt]; rfl
    | cons w ws =>
      rw [render, prettyAt, render_indented (depth + 1) w, renderItems_indented (depth + 1) ws]
      simp [indented, breakLine]
  | obj fs =>
    cases fs with
    | nil => rw [render, prettyAt]; rfl
    | cons f fs =>
      obtain ⟨k, w⟩ := f
      rw [render, prettyAt, render_indented (depth + 1) w, renderFields_indented (depth + 1) fs]
      simp [indented, breakLine]
  | _ => rw [render, prettyAt]

theorem renderItems_indented (depth : Nat) (vs : List Json) :
    indented.renderItems depth vs = (prettyItems depth vs).toList := by
  cases vs with
  | nil => rw [renderItems, prettyItems]; rfl
  | cons v vs =>
    rw [renderItems, prettyItems, render_indented depth v, renderItems_indented depth vs]
    simp [indented, breakLine]

theorem renderFields_indented (depth : Nat) (fs : List (String × Json)) :
    indented.renderFields depth fs = (prettyFields depth fs).toList := by
  cases fs with
  | nil => rw [renderFields, prettyFields]; rfl
  | cons f fs =>
    obtain ⟨k, v⟩ := f
    rw [renderFields, prettyFields, render_indented depth v, renderFields_indented depth fs]
    simp [indented, breakLine]

end

end Layout

end PlaybookEngine.Json
