import PlaybookEngine.Proofs.Activity.Run

namespace PlaybookEngine

/-- Tells when some property holds of each reply to a request and of the share afterwards. -/
abbrev Interface.Spec (I : Interface) (V : Type) :=
  V → (r : I.Request) → (I.Reply r → V → Prop) → Prop

def Interface.Spec.Mono {I : Interface} {V : Type} (c : I.Spec V) : Prop :=
  ∀ v r (K K' : I.Reply r → V → Prop), (∀ x v', K x v' → K' x v') → c v r K → c v r K'

namespace Activity

variable {I J : Interface} {V W α β : Type} {c : I.Spec V}

/-- With any replies of the specification, the result and the share at the end have a property. -/
def Assures (c : I.Spec V) : Activity I α → V → (α → V → Prop) → Prop
  | .done a, v, Q => Q a v
  | .ask r next, v, Q => c v r fun x v' => (next x).Assures c v' Q

theorem assures_pure (a : α) (v : V) (Q : α → V → Prop) :
    (pure a : Activity I α).Assures c v Q ↔ Q a v := Iff.rfl

theorem assures_bind (p : Activity I α) (f : α → Activity I β) (v : V) (Q : β → V → Prop) :
    (p >>= f).Assures c v Q ↔ p.Assures c v fun a v' => (f a).Assures c v' Q := by
  change (p.bind f).Assures c v Q ↔ _
  induction p generalizing v with
  | done a => rfl
  | ask r next ih =>
    have same : (fun x v' => ((next x).bind f).Assures c v' Q) =
        fun x v' => (next x).Assures c v' fun a v' => (f a).Assures c v' Q :=
      funext fun x => funext fun v' => propext (ih x v')
    rw [bind, Assures, Assures, same]

theorem Assures.mono (hc : c.Mono) {p : Activity I α} {v : V} {Q Q' : α → V → Prop}
    (h : p.Assures c v Q) (hQ : ∀ a v', Q a v' → Q' a v') : p.Assures c v Q' := by
  induction p generalizing v with
  | done a => exact hQ a v h
  | ask r next ih => exact hc v r _ _ (fun x v' => ih x) h

/-- An activity assures through another interface what it assures by itself. -/
theorem assures_through {d : J.Spec V} {send : I.Request → J.Request}
    {receive : (r : I.Request) → J.Reply (send r) → I.Reply r} (hc : c.Mono)
    (hd : ∀ v r K, c v r K → d v (send r) fun x v' => K (receive r x) v') {p : Activity I α}
    {v : V} {Q : α → V → Prop} (h : p.Assures c v Q) :
    (p.through send receive).Assures d v Q := by
  induction p generalizing v with
  | done a => exact h
  | ask r next ih => exact hd v r _ (hc v r _ _ (fun x v' => ih x) h)

/-- Surroundings keep to a specification while a share holds in the world. -/
def Keeps (s : Surroundings I W) (c : I.Spec V) (holds : W → V → Prop) : Prop :=
  ∀ now r w v K, holds w v → c v r K →
    ∃ v', K (s now r w).reply v' ∧ holds (s now r w).world v'

variable {s : Surroundings I W} {holds : W → V → Prop}

theorem Assures.run (hs : Keeps s c holds) {p : Activity I α} {v : V} {Q : α → V → Prop}
    (h : p.Assures c v Q) {w : W} (hw : holds w v) (now : Instant) :
    ∃ v', Q (p.run s now w).1 v' ∧ holds (p.run s now w).2.2 v' := by
  induction p generalizing v w now with
  | done a => exact ⟨v, h, hw⟩
  | ask r next ih =>
    obtain ⟨v', hreply, hw'⟩ := hs now r w v _ hw h
    exact ih _ hreply hw' _

/-- An activity that stops where it blocks still assures the same of what is left. -/
theorem Assures.advance (hs : Keeps s c holds) {p : Activity I α} {v : V} {Q : α → V → Prop}
    (h : p.Assures c v Q) {w : W} (hw : holds w v) (now : Instant) :
    ∃ v', holds (p.advance s now w).2 v' ∧
      match (p.advance s now w).1 with
      | .ended a => Q a v'
      | .blocked _ rest => rest.Assures c v' Q := by
  induction p generalizing v w with
  | done a => exact ⟨v, hw, h⟩
  | ask r next ih =>
    obtain ⟨v', hreply, hw'⟩ := hs now r w v _ hw h
    rw [Activity.advance]
    split
    · exact ih _ hreply hw'
    · exact ⟨v', hw', hreply⟩

end Activity

end PlaybookEngine
