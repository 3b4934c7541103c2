import PlaybookEngine.Proofs.Json.Record
import PlaybookEngine.Proofs.Number.Rounding
import PlaybookEngine.Proofs.Output.Aggregation
import PlaybookEngine.Proofs.Output.Identities

namespace PlaybookEngine

namespace Json

/-- What a text can hold as a number: an integer of 64 bits, signed or not, or a finite float. -/
def IsNumber : Json → Prop
  | .int i => -2 ^ 63 ≤ i ∧ i < 2 ^ 64
  | .float _ => True
  | _ => False

/-- The exact value of a number, in units of `2 ^ (-1074)`. -/
def exact : Json → Int
  | .int i => i * 2 ^ 1074
  | .float x => x.units
  | _ => 0

/-- The value of a number once it is rounded to binary64, in the same units. -/
def rounded (v : Json) : Int := Binary64.roundUnits v.exact

def given? (k : String) (v : Json) : Option Json := (v.get? k).bind present?

variable {v w : Json} {k : String}

theorem rounded_mono (h : v.exact ≤ w.exact) : v.rounded ≤ w.rounded := Binary64.roundUnits_mono h

/-- Rounding leaves alone what binary64 can hold. -/
theorem rounded_int {i : Int} (hi : i.natAbs < 2 ^ 53) : (int i).rounded = (int i).exact :=
  Binary64.roundUnits_whole hi 1074

theorem rounded_float (x : Binary64.Finite) : (float x).rounded = (float x).exact :=
  Binary64.roundUnits_units x

theorem IsNumber.number? (h : v.IsNumber) :
    ∃ x : Binary64.Finite, v.number? = some (.finite x) ∧ x.units = v.rounded := by
  cases v with
  | int i =>
    obtain ⟨x, hx, hunits⟩ := Binary64.ofInt_finite h.1 h.2 rfl
    exact ⟨x, congrArg some hx, hunits⟩
  | float x => exact ⟨x, rfl, (rounded_float x).symm⟩
  | _ => exact h.elim

theorem IsNumber.ordered (h : v.IsNumber) : v.Ordered := by
  cases v with
  | int i =>
    rw [Ordered]
    · trivial
    all_goals exact nofun
  | float x =>
    rw [Ordered]
    · trivial
    all_goals exact nofun
  | _ => exact h.elim

end Json

namespace UnionRule

section Leading

variable {seen : List Json} {c v w : Json}

theorem larger_of_isNumber (hc : c.IsNumber) (hw : w.IsNumber) :
    larger c w = if c.rounded < w.rounded then w else c := by
  obtain ⟨x, hx, hxunits⟩ := hc.number?
  obtain ⟨y, hy, hyunits⟩ := hw.number?
  rw [larger_of_numbers hx hy, Binary64.lt, hxunits, hyunits]
  simp only [decide_eq_true_eq]

/-- The first of the numbers that are largest once rounded. -/
def Leads (seen : List Json) (w : Json) : Prop :=
  ∃ before after, seen = before ++ w :: after ∧
    (∀ v ∈ before, v.rounded < w.rounded) ∧ ∀ v ∈ after, v.rounded ≤ w.rounded

theorem Leads.mem (h : Leads seen w) : w ∈ seen := by
  obtain ⟨before, after, rfl, -, -⟩ := h
  exact List.mem_append_right _ List.mem_cons_self

theorem Leads.rounded_le (h : Leads seen w) (hv : v ∈ seen) : v.rounded ≤ w.rounded := by
  obtain ⟨before, after, rfl, hbefore, hafter⟩ := h
  rcases List.mem_append.mp hv with hv | hv
  · exact (hbefore v hv).le
  · rcases List.mem_cons.mp hv with rfl | hv
    · exact le_rfl
    · exact hafter v hv

theorem Leads.find? (h : Leads seen w) : seen.find? (w.rounded ≤ ·.rounded) = some w := by
  obtain ⟨before, after, rfl, hbefore, -⟩ := h
  have hnone : before.find? (w.rounded ≤ ·.rounded) = none :=
    List.find?_eq_none.mpr fun v hv => by simpa using hbefore v hv
  rw [List.find?_append, hnone, Option.none_or, List.find?_cons_of_pos (by simp)]

theorem Leads.unique (hv : Leads seen v) (hw : Leads seen w) : v = w := by
  have hrounded : v.rounded = w.rounded :=
    le_antisymm (hw.rounded_le hv.mem) (hv.rounded_le hw.mem)
  have hfind := hv.find?
  rw [hrounded, hw.find?] at hfind
  exact (Option.some.inj hfind).symm

/-- What is left of the number so far and a further one. -/
def keepLarger : Option Json → Json → Option Json
  | none, w => some w
  | some c, w => some (larger c w)

theorem Leads.snoc (h : Leads seen c) (hc : c.IsNumber) (hw : w.IsNumber) :
    Leads (seen ++ [w]) (larger c w) := by
  rw [larger_of_isNumber hc hw]
  split
  · rename_i hlt
    exact ⟨seen, [], rfl, fun v hv => (h.rounded_le hv).trans_lt hlt, nofun⟩
  · rename_i hle
    obtain ⟨before, after, rfl, hbefore, hafter⟩ := h
    refine ⟨before, after ++ [w], List.append_assoc _ _ _, hbefore, fun v hv => ?_⟩
    rcases List.mem_append.mp hv with hv | hv
    · exact hafter v hv
    · rw [List.mem_singleton.mp hv]
      exact not_lt.mp hle

/-- Keeping the larger one all along leaves the number that leads, or none when there is none. -/
theorem leads_foldl (hseen : ∀ w ∈ seen, w.IsNumber) :
    (seen = [] ∧ seen.foldl keepLarger none = none) ∨
      ∃ w, seen.foldl keepLarger none = some w ∧ Leads seen w := by
  induction seen using List.reverseRecOn with
  | nil => exact .inl ⟨rfl, rfl⟩
  | append_singleton seen w ih =>
    have hw : w.IsNumber := hseen w (List.mem_append_right _ List.mem_cons_self)
    have hbefore : ∀ v ∈ seen, v.IsNumber := fun v hv => hseen v (List.mem_append_left _ hv)
    rw [List.foldl_append, List.foldl_cons, List.foldl_nil]
    rcases ih hbefore with ⟨rfl, hnone⟩ | ⟨c, hc, hleads⟩
    · exact .inr ⟨w, rfl, [], [], rfl, nofun, nofun⟩
    · rw [hc]
      exact .inr ⟨larger c w, rfl, hleads.snoc (hbefore c hleads.mem) hw⟩

/-- The number that leads is not the largest: one that rounds alike and is larger came later. -/
def Shadowed (seen : List Json) : Prop := ∃ w, Leads seen w ∧ ∃ v ∈ seen, w.exact < v.exact

/-- The leading number is the largest one unless it is shadowed. -/
theorem Leads.largest_iff (h : Leads seen w) :
    (∀ v ∈ seen, v.exact ≤ w.exact) ↔ ¬ Shadowed seen := by
  constructor
  · rintro hlargest ⟨w', hw', v, hv, hlt⟩
    obtain rfl : w = w' := h.unique hw'
    have := hlargest v hv
    omega
  · intro hshadowed v hv
    by_contra hlt
    exact hshadowed ⟨w, h, v, hv, not_le.mp hlt⟩

/-- Numbers that rounding tells apart do not shadow each other, in whatever order they come. -/
theorem not_shadowed_of_told_apart
    (h : ∀ v ∈ seen, ∀ w ∈ seen, v.rounded = w.rounded → v.exact = w.exact) : ¬ Shadowed seen := by
  rintro ⟨w, hw, v, hv, hlt⟩
  have hrounded : v.rounded = w.rounded :=
    le_antisymm (hw.rounded_le hv) (Json.rounded_mono hlt.le)
  have := h v hv w hw.mem hrounded
  omega

theorem not_shadowed_of_rounded_eq (h : ∀ v ∈ seen, v.rounded = v.exact) : ¬ Shadowed seen :=
  not_shadowed_of_told_apart fun v hv w hw hvw => (h v hv).symm.trans (hvw.trans (h w hw))

end Leading

section Entries

variable (r : UnionRule) {existing es : List Json} {e t id : Json} {field : String}

/-- What stands under a key once fields are merged in, each of its own key. -/
theorem get?_mergeFields_of_ordered {fs : Fields Json} (hfs : Fields.Ordered fs) (field : String)
    (ts : Fields Json) : Fields.get? field (r.mergeFields ts fs) =
      match Fields.get? field fs, Fields.get? field ts with
      | none, c => c
      | some v, none => some v
      | some v, some c => some (r.mergeValue field c v) := by
  have unmentioned {k : String} (v : Json) (hk : k ≠ field) (ts : Fields Json) :
      Fields.get? field (r.mergeField ts k v) = Fields.get? field ts := by
    dsimp only [mergeField]
    split <;> rw [Fields.get?_insert_of_ne hk]
  induction fs generalizing ts with
  | nil => rfl
  | cons p fs ih =>
    obtain ⟨k, v⟩ := p
    obtain ⟨hk, hrest⟩ := List.pairwise_cons.mp hfs
    rw [mergeFields, List.foldl_cons, ← mergeFields, ih hrest, Fields.get?_cons]
    by_cases hfield : k = field
    · subst hfield
      rw [if_pos rfl, Fields.get?_eq_none_of_lt hk]
      dsimp only [mergeField]
      cases Fields.get? k ts with
      | none => exact Fields.get?_insert_self k v ts
      | some c => exact Fields.get?_insert_self k _ ts
    · rw [if_neg hfield, unmentioned v hfield]

theorem larger_null (c : Json) : larger c .null = c :=
  (larger_eq_left_iff c .null).mpr fun _ _ _ hnull => nomatch hnull

theorem present?_mergeValue (hmax : r.max = some field) {c : Json} (hc : c ≠ .null → c.IsNumber)
    (v : Json) : (r.mergeValue field c v).present? =
      match v.present? with
      | none => c.present?
      | some w => keepLarger c.present? w := by
  by_cases hnull : c = .null
  · subst hnull
    cases v <;> rfl
  · obtain ⟨x, hx, -⟩ := (hc hnull).number?
    rw [r.mergeValue_number hx, if_pos hmax, Json.present?_of_ne_null hnull]
    by_cases hv : v = .null
    · subst hv
      rw [larger_null]
      exact Json.present?_of_ne_null hnull
    · have hlarger : larger c v ≠ .null := by
        rcases larger_cases c v with h | ⟨h, -⟩ <;> rw [h] <;> assumption
      rw [Json.present?_of_ne_null hv, Json.present?_of_ne_null hlarger]
      rfl

theorem given?_mergeEntry {ts fs : Fields Json} (hmax : r.max = some field)
    (hfs : Fields.Ordered fs) (hnumber : ∀ c, (Json.obj ts).given? field = some c → c.IsNumber) :
    (r.mergeEntry (.obj ts) (.obj fs)).given? field =
      match (Json.obj fs).given? field with
      | none => (Json.obj ts).given? field
      | some w => keepLarger ((Json.obj ts).given? field) w := by
  simp only [mergeEntry, Json.given?, Json.get?, r.get?_mergeFields_of_ordered hfs] at hnumber ⊢
  cases Fields.get? field fs with
  | none => rfl
  | some v =>
    cases hc : Fields.get? field ts with
    | none =>
      dsimp only [Option.bind_some, Option.bind_none]
      cases v.present? <;> rfl
    | some c =>
      refine r.present?_mergeValue hmax (fun hnull => hnumber c ?_) v
      rw [hc, Option.bind_some, Json.present?_of_ne_null hnull]

theorem hasIdentity_congr {j : Json} (h : (j == id) = true) (t : Json) :
    r.hasIdentity j t = r.hasIdentity id t := by
  rw [Bool.eq_iff_iff, r.hasIdentity_iff, r.hasIdentity_iff]
  exact exists_congr fun i => and_congr_right fun _ =>
    ⟨fun hi => Json.beq_trans i j id hi h,
      fun hi => Json.beq_trans i id j hi (Json.beq_symm j id h)⟩

/-- An entry is added to the one found for its identity, or it is the one found from then on. -/
theorem find?_addEntry_self (he : e.Ordered) (hid : id ≠ .null)
    (hcarries : r.hasIdentity id e = true) (existing : List Json) :
    (r.addEntry existing e).find? (r.hasIdentity id) =
      match existing.find? (r.hasIdentity id) with
      | some t => some (r.mergeEntry t e)
      | none => some e := by
  obtain ⟨j, hj, hbeq⟩ := r.identity?_of_hasIdentity hid hcarries
  have hsame : r.hasIdentity j = r.hasIdentity id := funext (r.hasIdentity_congr hbeq)
  cases hfind : existing.find? (r.hasIdentity id) with
  | some t =>
    have hany : existing.any (r.hasIdentity j) = true := by
      rw [hsame]
      exact List.any_eq_true.mpr ⟨t, List.mem_of_find?_eq_some hfind, List.find?_some hfind⟩
    simp only [addEntry, hj, if_pos hany]
    rw [← hsame] at hfind ⊢
    exact r.find?_mergeFirst_self he hj hfind
  | none =>
    have hnew : existing.any (r.same · e) = false := by
      simp only [r.same_eq_hasIdentity hj, hsame]
      exact List.any_eq_false.mpr (List.find?_eq_none.mp hfind)
    rw [r.addEntry_of_new hnew, List.find?_append, hfind, Option.none_or,
      List.find?_cons_of_pos hcarries]

theorem find?_addMissing (hcarries : r.hasIdentity id e = false) (existing : List Json) :
    (addMissing existing [e]).find? (r.hasIdentity id) = existing.find? (r.hasIdentity id) := by
  rw [addMissing, List.foldl_cons, List.foldl_nil]
  split
  · rfl
  · rw [List.find?_append, List.find?_cons_of_neg (Bool.eq_false_iff.mp hcarries), List.find?_nil,
      Option.or_none]

theorem find?_mergeFirst_other {j : Json} (he : e.Ordered) (hj : r.identity? e = some j)
    (hcarries : r.hasIdentity id e = false) (existing : List Json) :
    (r.mergeFirst j e existing).find? (r.hasIdentity id) = existing.find? (r.hasIdentity id) := by
  have apart {u : Json} (hu : r.hasIdentity j u = true) : ¬ r.hasIdentity id u = true := by
    intro hu'
    obtain ⟨i, hi, hij⟩ := (r.hasIdentity_iff j u).mp hu
    obtain ⟨i', hi', hid⟩ := (r.hasIdentity_iff id u).mp hu'
    obtain rfl : i = i' := Option.some.inj (hi.symm.trans hi')
    have hjid := r.hasIdentity_congr (Json.beq_trans j i id (Json.beq_symm i j hij) hid) e
    rw [hcarries, r.hasIdentity_of_identity hj] at hjid
    cases hjid
  induction existing with
  | nil => rfl
  | cons u us ih =>
    rw [mergeFirst]
    split
    · rename_i hu
      have hmerged : ¬ r.hasIdentity id (r.mergeEntry u e) = true := by
        rw [r.hasIdentity_mergeEntry he hj hu]
        exact apart hu
      rw [List.find?_cons_of_neg hmerged, List.find?_cons_of_neg (apart hu)]
    · by_cases hu : r.hasIdentity id u = true
      · rw [List.find?_cons_of_pos hu, List.find?_cons_of_pos hu]
      · rw [List.find?_cons_of_neg hu, List.find?_cons_of_neg hu, ih]

/-- An entry of another identity, or of none, changes nothing of the one found. -/
theorem find?_addEntry_other (he : e.Ordered) (hcarries : r.hasIdentity id e = false)
    (existing : List Json) :
    (r.addEntry existing e).find? (r.hasIdentity id) = existing.find? (r.hasIdentity id) := by
  rw [addEntry]
  split
  · rename_i j hj
    split
    · exact r.find?_mergeFirst_other he hj hcarries existing
    · exact r.find?_addMissing hcarries existing
  · exact r.find?_addMissing hcarries existing

/-- The number of an identity's entry. -/
def held (field : String) (id : Json) (existing : List Json) : Option Json :=
  (existing.find? (r.hasIdentity id)).bind (Json.given? field)

/-- What the entries of an identity bring for the field, in the order in which they come. -/
def seen (field : String) (id : Json) (es : List Json) : List Json :=
  (es.filter (r.hasIdentity id)).filterMap (Json.given? field)

theorem held_addEntry (hmax : r.max = some field) (hid : id ≠ .null) (he : e.Ordered)
    (hnumber : ∀ c, r.held field id existing = some c → c.IsNumber) :
    r.held field id (r.addEntry existing e) =
      (r.seen field id [e]).foldl keepLarger (r.held field id existing) := by
  cases hcarries : r.hasIdentity id e with
  | false =>
    rw [held, r.find?_addEntry_other he hcarries, seen,
      List.filter_cons_of_neg (Bool.eq_false_iff.mp hcarries)]
    rfl
  | true =>
    obtain ⟨fs, rfl⟩ := r.obj_of_hasIdentity hcarries
    rw [held, r.find?_addEntry_self he hid hcarries, seen, List.filter_cons_of_pos hcarries]
    cases hfind : existing.find? (r.hasIdentity id) with
    | none =>
      simp only [held, hfind, Option.bind_some, Option.bind_none, List.filter_nil,
        List.filterMap_cons, List.filterMap_nil]
      cases (Json.obj fs).given? field <;> rfl
    | some t =>
      obtain ⟨ts, rfl⟩ := r.obj_of_hasIdentity (List.find?_some hfind)
      have hnumber' : ∀ c, (Json.obj ts).given? field = some c → c.IsNumber := fun c hc =>
        hnumber c (by rw [held, hfind, Option.bind_some, hc])
      simp only [held, hfind, Option.bind_some, List.filter_nil, List.filterMap_cons,
        List.filterMap_nil, r.given?_mergeEntry hmax he.keys hnumber']
      cases (Json.obj fs).given? field <;> rfl

/-- However many entries come, the one of an identity holds the number that leads. -/
theorem held_addEntries (hmax : r.max = some field) (hid : id ≠ .null) (hes : ∀ e ∈ es, e.Ordered)
    (hnumbers : ∀ w ∈ r.seen field id es, w.IsNumber) :
    r.held field id (es.foldl r.addEntry []) = (r.seen field id es).foldl keepLarger none := by
  induction es using List.reverseRecOn with
  | nil => rfl
  | append_singleton es e ih =>
    have hsplit : r.seen field id (es ++ [e]) = r.seen field id es ++ r.seen field id [e] := by
      simp only [seen, List.filter_append, List.filterMap_append]
    rw [hsplit] at hnumbers ⊢
    have hbefore : ∀ w ∈ r.seen field id es, w.IsNumber := fun w hw =>
      hnumbers w (List.mem_append_left _ hw)
    have hheld := ih (fun e' he' => hes e' (List.mem_append_left _ he')) hbefore
    have hnumber : ∀ c, r.held field id (es.foldl r.addEntry []) = some c → c.IsNumber := by
      intro c hc
      rcases leads_foldl hbefore with ⟨-, hnone⟩ | ⟨w, hw, hleads⟩
      · rw [hheld, hnone] at hc
        cases hc
      · rw [hheld, hw] at hc
        exact Option.some.inj hc ▸ hbefore w hleads.mem
    rw [List.foldl_append, List.foldl_append, List.foldl_cons, List.foldl_nil,
      r.held_addEntry hmax hid (hes e (List.mem_append_right _ List.mem_cons_self)) hnumber, hheld]

theorem same_of_hasIdentity {u : Json} (hid : id ≠ .null) (ht : r.hasIdentity id t = true)
    (hu : r.hasIdentity id u = true) : r.same t u = true := by
  obtain ⟨j, hj, hbeq⟩ := r.identity?_of_hasIdentity hid hu
  rw [r.same_eq_hasIdentity hj, r.hasIdentity_congr hbeq, ht]

theorem filter_eq_of_distinct (h : r.Distinct existing) (hid : id ≠ .null)
    (hfind : existing.find? (r.hasIdentity id) = some t) :
    existing.filter (r.hasIdentity id) = [t] := by
  induction existing with
  | nil => cases hfind
  | cons u us ih =>
    obtain ⟨hu, hus⟩ := List.pairwise_cons.mp h
    by_cases hcarries : r.hasIdentity id u = true
    · rw [List.find?_cons_of_pos hcarries] at hfind
      obtain rfl : u = t := Option.some.inj hfind
      have hnone : us.filter (r.hasIdentity id) = [] := by
        refine List.filter_eq_nil_iff.mpr fun x hx hx' => ?_
        exact Bool.false_ne_true ((hu x hx).symm.trans (r.same_of_hasIdentity hid hcarries hx'))
      rw [List.filter_cons_of_pos hcarries, hnone]
    · rw [List.find?_cons_of_neg hcarries] at hfind
      rw [List.filter_cons_of_neg hcarries]
      exact ih hus hfind

theorem distinct_addEntries (hes : ∀ e ∈ es, e.Ordered) : r.Distinct (es.foldl r.addEntry []) :=
  Distinct.grows r (Distinct.newcomers r .nil es) (r.grows_addEntries hes .nil)

/-- An identity that came is the identity of one entry. -/
theorem filter_addEntries (hes : ∀ e ∈ es, e.Ordered) (hid : id ≠ .null) (he : e ∈ es)
    (hcarries : r.hasIdentity id e = true) (field : String) :
    ∃ t, (es.foldl r.addEntry []).filter (r.hasIdentity id) = [t] ∧
      t.given? field = r.held field id (es.foldl r.addEntry []) := by
  obtain ⟨j, hj, hbeq⟩ := r.identity?_of_hasIdentity hid hcarries
  obtain ⟨u, hu, hsame, -⟩ := r.represented_addEntries hes he []
  rw [r.same_eq_hasIdentity hj, r.hasIdentity_congr hbeq] at hsame
  obtain ⟨t, hfind⟩ := Option.isSome_iff_exists.mp (List.find?_isSome.mpr ⟨u, hu, hsame⟩)
  refine ⟨t, r.filter_eq_of_distinct (r.distinct_addEntries hes) hid hfind, ?_⟩
  rw [held, hfind, Option.bind_some]

theorem foldl_union (calls existing : List Json) :
    calls.foldl r.union existing = (calls.flatMap Json.elements).foldl r.addEntry existing := by
  rw [List.foldl_flatMap]
  rfl

/-- After any calls on an empty list, each identity that came has one entry, which holds a number
iff any came, and one of those that came: the largest, unless that is shadowed by one that came
before it and rounds alike. -/
theorem largest_number_kept_iff {calls : List Json} (hmax : r.max = some field)
    (hcalls : ∀ v ∈ calls, v.Ordered) (hid : id ≠ .null)
    (hcarried : ∃ e ∈ calls.flatMap Json.elements, r.hasIdentity id e = true)
    (hnumbers : ∀ w ∈ r.seen field id (calls.flatMap Json.elements), w.IsNumber) :
    ∃ t, (calls.foldl r.union []).filter (r.hasIdentity id) = [t] ∧
      (t.given? field = none ↔ r.seen field id (calls.flatMap Json.elements) = []) ∧
        ∀ w, t.given? field = some w → w ∈ r.seen field id (calls.flatMap Json.elements) ∧
          ((∀ v ∈ r.seen field id (calls.flatMap Json.elements), v.exact ≤ w.exact) ↔
            ¬ Shadowed (r.seen field id (calls.flatMap Json.elements))) := by
  have hes : ∀ e ∈ calls.flatMap Json.elements, e.Ordered := fun e he => by
    obtain ⟨v, hv, he⟩ := List.mem_flatMap.mp he
    exact (hcalls v hv).element he
  rw [r.foldl_union]
  generalize calls.flatMap Json.elements = es at hes hcarried hnumbers ⊢
  obtain ⟨e, he, hcarries⟩ := hcarried
  obtain ⟨t, ht, hheld⟩ := r.filter_addEntries hes hid he hcarries field
  rw [r.held_addEntries hmax hid hes hnumbers] at hheld
  refine ⟨t, ht, ?_⟩
  rw [hheld]
  rcases leads_foldl hnumbers with ⟨hnil, hnone⟩ | ⟨w, hw, hleads⟩
  · rw [hnone]
    exact ⟨iff_of_true rfl hnil, nofun⟩
  · rw [hw]
    refine ⟨iff_of_false nofun (List.ne_nil_of_mem hleads.mem), fun w' hw' => ?_⟩
    obtain rfl : w = w' := Option.some.inj hw'
    exact ⟨hleads.mem, hleads.largest_iff⟩

end Entries

/-- Releases are told apart by their name; the largest build number of each is kept. -/
def releasesRule : UnionRule := ⟨"name", [], some "number"⟩

def release (number : Json) : Json := .obj [("name", .str "a"), ("number", number)]

theorem ordered_release {number : Json} (h : number.Ordered) : (release number).Ordered := by
  have keys : "name" < "number" := String.lt_iff_toList_lt.mpr (by decide)
  rw [release, Json.Ordered, Json.OrderedFields, Json.OrderedFields, Json.OrderedFields,
    Json.Ordered]
  · exact ⟨List.pairwise_pair.mpr keys, trivial, h, trivial⟩
  all_goals exact nofun

def twoAndHalf : Binary64.Finite := ⟨false, 0x14_0000_0000_0000, -51, by decide⟩

def releases : List Json :=
  [.arr [release (.int 2), release (.float twoAndHalf), release .null], release (.int 7),
    .arr [release (.int (-5))]]

theorem largest_release_kept :
    ∃ t w, (releases.foldl releasesRule.union []).filter (releasesRule.hasIdentity (.str "a")) =
        [t] ∧ t.given? "number" = some w ∧
      ∀ v ∈ [Json.int 2, .float twoAndHalf, .int 7, .int (-5)], v.exact ≤ w.exact := by
  have seen : releasesRule.seen "number" (.str "a") (releases.flatMap Json.elements) =
      [.int 2, .float twoAndHalf, .int 7, .int (-5)] := rfl
  have numbers : ∀ v ∈ [Json.int 2, .float twoAndHalf, .int 7, .int (-5)], v.IsNumber := by
    simp only [List.forall_mem_cons]
    exact ⟨⟨by decide, by decide⟩, trivial, ⟨by decide, by decide⟩, ⟨by decide, by decide⟩, nofun⟩
  have rounded : ∀ v ∈ [Json.int 2, .float twoAndHalf, .int 7, .int (-5)],
      v.rounded = v.exact := by
    simp only [List.forall_mem_cons]
    exact ⟨Json.rounded_int (by decide), Json.rounded_float _, Json.rounded_int (by decide),
      Json.rounded_int (by decide), nofun⟩
  have ordered : ∀ v ∈ releases, v.Ordered := by
    simp only [List.forall_mem_cons] at numbers
    obtain ⟨two, half, seven, minus, -⟩ := numbers
    simp only [releases, List.forall_mem_cons]
    refine ⟨Json.ordered_arr ?_, ordered_release seven.ordered, Json.ordered_arr ?_, nofun⟩
    · simp only [List.forall_mem_cons]
      exact ⟨ordered_release two.ordered, ordered_release half.ordered,
        ordered_release Json.ordered_null, nofun⟩
    · simp only [List.forall_mem_cons]
      exact ⟨ordered_release minus.ordered, nofun⟩
  have some_id : (Json.str "a") ≠ .null := nofun
  have carried : ∃ e ∈ releases.flatMap Json.elements,
      releasesRule.hasIdentity (.str "a") e = true :=
    ⟨_, List.mem_cons_self, rfl⟩
  have max_field : releasesRule.max = some "number" := rfl
  rw [← seen] at numbers
  obtain ⟨t, ht, hnone, hsome⟩ :=
    releasesRule.largest_number_kept_iff max_field ordered some_id carried numbers
  rw [seen] at hnone hsome
  obtain ⟨w, hw⟩ := Option.ne_none_iff_exists'.mp (mt hnone.mp (List.cons_ne_nil _ _))
  exact ⟨t, w, ht, hw, (hsome w hw).2.mpr (not_shadowed_of_rounded_eq rounded)⟩

/-- Two integers that round alike: the larger one comes second and is dropped. -/
theorem larger_release_shadowed :
    releasesRule.seen "number" (.str "a")
        [release (.int 9007199254740992), release (.int 9007199254740993)] =
        [.int 9007199254740992, .int 9007199254740993] ∧
      ¬ ∃ t ∈ [release (.int 9007199254740992), release (.int 9007199254740993)].foldl
          releasesRule.union [],
        ∃ w, t.given? "number" = some w ∧
          ∀ v ∈ [Json.int 9007199254740992, .int 9007199254740993], v.exact ≤ w.exact := by
  have kept : ([release (.int 9007199254740992), release (.int 9007199254740993)].foldl
        releasesRule.union []).map (fun t => (t.given? "number").map Json.exact) =
      [some (Json.int 9007199254740992).exact] := by
    decide +kernel
  have below : (Json.int 9007199254740992).exact < (Json.int 9007199254740993).exact :=
    Int.mul_lt_mul_of_pos_right (by decide) (Int.pow_pos (by decide))
  refine ⟨rfl, fun ⟨t, ht, w, hw, hlargest⟩ => ?_⟩
  have hkept : (t.given? "number").map Json.exact = some (Json.int 9007199254740992).exact :=
    List.mem_singleton.mp (kept ▸ List.mem_map_of_mem ht)
  rw [hw, Option.map_some, Option.some.injEq] at hkept
  have hle : (Json.int 9007199254740993).exact ≤ w.exact :=
    hlargest _ (List.mem_cons_of_mem _ List.mem_cons_self)
  rw [hkept] at hle
  exact absurd hle (not_le.mpr below)

end UnionRule

end PlaybookEngine
