import PlaybookEngine.Proofs.Binding.Acceptance
import PlaybookEngine.Proofs.Fields.Holding

namespace PlaybookEngine.Binding

variable {schema : Fields Param} {raw bound : Fields Json} {name : String} {p : Param}

/-- Nothing is left to bind. -/
structure Settled (schema : Fields Param) (bound : Fields Json) : Prop where
  ordered : Fields.Ordered bound
  /-- No null stands for an absent input. -/
  supplied : ∀ name v, Fields.get? name bound = some v → v.isNull = false
  /-- An input that has to be there is there, and one with a default has a value. -/
  complete : ∀ name p, Fields.get? name schema = some p →
    p.required = true ∨ p.default.isSome = true → (Fields.get? name bound).isSome = true
  conforming : ∀ name p w, Fields.get? name schema = some p → Fields.get? name bound = some w →
    p.Conforms w
  legal : ∀ rule ∈ Rule.all, rule.Kept (Fields.get? rule.field bound)

namespace Settled

theorem supplied? (h : Settled schema bound) (name : String) :
    Binding.supplied? name bound = Fields.get? name bound :=
  Option.ext fun v => supplied?_eq_some.trans (and_iff_left_of_imp (h.supplied name v))

/-- No default counts any more. -/
theorem used? (h : Settled schema bound) (hp : Fields.get? name schema = some p) :
    Binding.used? bound name p = Fields.get? name bound := by
  rw [Binding.used?, h.supplied?]
  cases hfound : Fields.get? name bound with
  | some v => rfl
  | none =>
    have hspare : ¬(p.required = true ∨ p.default.isSome = true) := fun hneeded => by
      simpa [hfound] using h.complete name p hp hneeded
    obtain ⟨hoptional, hdefault⟩ := not_or.mp hspare
    rw [Option.none_or, if_neg hoptional, Option.not_isSome_iff_eq_none.mp hdefault]

theorem boundTo? (h : Settled schema bound) (hp : Fields.get? name schema = some p) :
    Binding.boundTo? bound name p = Fields.get? name bound := by
  rw [Binding.boundTo?, h.used? hp]
  cases hfound : Fields.get? name bound with
  | none => rfl
  | some w => exact Param.coerce?_of_conforms (h.conforming name p w hp hfound)

theorem assigned? (h : Settled schema bound) (name : String) :
    Binding.assigned? schema bound name = Fields.get? name bound := by
  rw [Binding.assigned?]
  cases hp : Fields.get? name schema with
  | none => exact h.supplied? name
  | some p => exact h.boundTo? hp

theorem suits (h : Settled schema bound) (hp : Fields.get? name schema = some p) :
    Suits bound name p where
  present hrequired := by
    rw [h.supplied?]
    exact h.complete name p hp (.inl hrequired)
  coercible v hv := by
    rw [h.used? hp] at hv
    have hconforms := h.conforming name p v hp hv
    exact Param.isSome_coerce?.mp (Option.isSome_of_eq_some (Param.coerce?_of_conforms hconforms))

/-- Settled inputs bind as they are. -/
theorem bind_self (hschema : Fields.Ordered schema) (h : Settled schema bound) :
    PlaybookEngine.bind schema bound = .ok bound := by
  refine (bind_eq_ok_iff hschema h.ordered).mpr ⟨⟨fun q hq => ?_, fun rule hrule => ?_⟩, ?_⟩
  · exact h.suits (hschema.get?_of_mem hq)
  · rw [h.assigned?]
    exact h.legal rule hrule
  · refine (ordered_assigned h.ordered).ext h.ordered fun name => ?_
    rw [get?_assigned hschema h.ordered, h.assigned?]

end Settled

/-- Whatever binding returns is settled, wherever the values come from: kept, converted or filled
in from the defaults. -/
theorem settled_of_bind (hschema : Fields.Ordered schema) (hraw : Fields.Ordered raw)
    (h : PlaybookEngine.bind schema raw = .ok bound) : Settled schema bound := by
  obtain ⟨⟨hsuits, hrules⟩, rfl⟩ := (bind_eq_ok_iff hschema hraw).mp h
  have hbound := bound_assigned hschema hraw hsuits hrules
  refine ⟨hbound.ordered, fun name v hv => ?_, fun name p hp hneeded => ?_,
    fun name p w hp hw => (hbound.converted name p w hp hw).2, fun rule hrule => ?_⟩
  · cases hp : Fields.get? name schema with
    | none => exact ((hbound.undeclared name v hp).mp hv).2
    | some p => exact (hbound.converted name p v hp hv).2.isNull
  · refine (hbound.declared name p hp).mpr (hneeded.imp_left fun hrequired => ?_)
    exact (hsuits (name, p) (Fields.mem_of_get? hp)).present hrequired
  · rw [get?_assigned hschema hraw]
    exact hrules rule hrule

/-- The inputs that binding leaves alone are the settled ones. -/
theorem bind_self_iff (hschema : Fields.Ordered schema) (hbound : Fields.Ordered bound) :
    PlaybookEngine.bind schema bound = .ok bound ↔ Settled schema bound :=
  ⟨settled_of_bind hschema hbound, Settled.bind_self hschema⟩

/-- Inputs that were bound bind again, to the same values. -/
theorem bind_idempotent (hschema : Fields.Ordered schema) (hraw : Fields.Ordered raw)
    (h : PlaybookEngine.bind schema raw = .ok bound) :
    PlaybookEngine.bind schema bound = .ok bound :=
  (settled_of_bind hschema hraw h).bind_self hschema

/-- The article's inputs once bound: the limit comes from the default, the topic from a number. -/
def articleBound : Fields Json :=
  [("content_status", .str "in_review"), ("limit", .int 20),
    ("skip_steps", Json.strings ["outline"]), ("topic", .str "7")]

theorem article_inputs_rebound :
    Fields.Ordered articleSchema ∧ Fields.Ordered articleInputs ∧
    PlaybookEngine.bind articleSchema articleInputs = .ok articleBound ∧
    PlaybookEngine.bind articleSchema articleBound = .ok articleBound := by
  have hschema : Fields.Ordered articleSchema := by decide +kernel
  have hraw : Fields.Ordered articleInputs := by decide +kernel
  have hbind : PlaybookEngine.bind articleSchema articleInputs = .ok articleBound := rfl
  exact ⟨hschema, hraw, hbind, bind_idempotent hschema hraw hbind⟩

end PlaybookEngine.Binding
