import PlaybookEngine.Proofs.Fields.Ordered
import PlaybookEngine.Json.Basic

namespace PlaybookEngine.Json

mutual

/-- The keys of every object in the value are in order. -/
def Ordered : Json → Prop
  | .arr items => OrderedItems items
  | .obj fields => Fields.Ordered fields ∧ OrderedFields fields
  | _ => True

def OrderedItems : List Json → Prop
  | [] => True
  | v :: vs => Ordered v ∧ OrderedItems vs

def OrderedFields : List (String × Json) → Prop
  | [] => True
  | (_, v) :: fs => Ordered v ∧ OrderedFields fs

end

mutual

def decidableOrdered : (v : Json) → Decidable v.Ordered
  | .arr items => decidableOrderedItems items
  | .obj fields => @instDecidableAnd _ _ inferInstance (decidableOrderedFields fields)
  | .null => .isTrue trivial
  | .bool _ => .isTrue trivial
  | .int _ => .isTrue trivial
  | .float _ => .isTrue trivial
  | .str _ => .isTrue trivial

def decidableOrderedItems : (vs : List Json) → Decidable (OrderedItems vs)
  | [] => .isTrue trivial
  | v :: vs => @instDecidableAnd _ _ (decidableOrdered v) (decidableOrderedItems vs)

def decidableOrderedFields : (fs : List (String × Json)) → Decidable (OrderedFields fs)
  | [] => .isTrue trivial
  | (_, v) :: fs => @instDecidableAnd _ _ (decidableOrdered v) (decidableOrderedFields fs)

end

instance : DecidablePred Ordered := decidableOrdered

theorem ordered_str (s : String) : (str s).Ordered := by
  rw [Ordered]
  · trivial
  all_goals exact nofun

theorem ordered_null : null.Ordered := by
  rw [Ordered]
  · trivial
  all_goals exact nofun

theorem OrderedItems.of_mem {vs : List Json} (h : OrderedItems vs) {v : Json} (hv : v ∈ vs) :
    v.Ordered := by
  induction vs with
  | nil => cases hv
  | cons w ws ih =>
    rw [OrderedItems] at h
    rcases List.mem_cons.mp hv with rfl | hv
    · exact h.1
    · exact ih h.2 hv

theorem ordered_arr {items : List Json} (h : ∀ v ∈ items, v.Ordered) : (arr items).Ordered := by
  have hitems : OrderedItems items := by
    induction items with
    | nil => trivial
    | cons v vs ih =>
      rw [OrderedItems]
      exact ⟨h v List.mem_cons_self, ih fun w hw => h w (List.mem_cons_of_mem _ hw)⟩
  rw [Ordered]
  exact hitems

theorem OrderedFields.of_mem {fs : List (String × Json)} (h : OrderedFields fs)
    {p : String × Json} (hp : p ∈ fs) : p.2.Ordered := by
  induction fs with
  | nil => cases hp
  | cons q qs ih =>
    obtain ⟨k, v⟩ := q
    rw [OrderedFields] at h
    rcases List.mem_cons.mp hp with rfl | hp
    · exact h.1
    · exact ih h.2 hp

theorem Ordered.keys {fs : Fields Json} (h : (Json.obj fs).Ordered) : Fields.Ordered fs := by
  rw [Ordered] at h
  exact h.1

theorem Ordered.value {fs : Fields Json} (h : (Json.obj fs).Ordered) {p : String × Json}
    (hp : p ∈ fs) : p.2.Ordered := by
  rw [Ordered] at h
  exact h.2.of_mem hp

theorem Ordered.element {v e : Json} (h : v.Ordered) (he : e ∈ v.elements) : e.Ordered := by
  cases v with
  | arr items =>
    rw [Ordered] at h
    exact h.of_mem he
  | _ =>
    rw [elements, List.mem_singleton] at he
    · subst he
      exact h
    · exact nofun

end PlaybookEngine.Json
